import FunctionWasm.Source.Location

/-!
# AnyReference — references with a tag, a digest, both or neither

The command line accepts any reference that container tooling does; a Composition holds pinned ones
only.

* `parseAnyReference` parses a reference, `nameReference` the name in it.
* `splitTag` takes the tag off a name, and `registryOf_tag` says that nothing else depends on it.
* `parseAnyReference_pinned` says that a pinned reference is what the runtime parses.
-/

namespace FunctionWasm

/-- A parsed, normalized reference that may carry a tag, a digest, both or neither. -/
structure AnyReference where
  registry : Text
  repository : Text
  tag : Option Text
  digest : Option Text
  deriving DecidableEq

namespace AnyReference

/-- What a manifest is asked for by: the digest, else the tag, else the latest. -/
def manifestRef (r : AnyReference) : Text :=
  (r.digest <|> r.tag).getD "latest".toList

/-- The reference as a composition should hold it. -/
def pinned (r : AnyReference) (digest : Text) : Text :=
  r.registry ++ "/".toList ++ r.repository ++
    (match r.tag with
      | some t => ':' :: t
      | none => []) ++
    '@' :: r.digest.getD digest

end AnyReference

/-- A name without its tag, and the tag: what follows the first `:` after the last `/`. -/
def splitTag (name : Text) : Text × Option Text :=
  let (dir, base) :=
    match rsplitOnce '/' name with
    | some (dir, base) => (dir ++ "/".toList, base)
    | none => ([], name)
  match splitOnce ':' base with
  | some (n, t) => (dir ++ n, some t)
  | none => (name, none)

/-- A tag is what follows a `:` and has no slash. -/
theorem splitTag_eq {name n : Text} {tag : Option Text} (h : splitTag name = (n, tag)) :
    (tag = none ∧ n = name) ∨ ∃ t, tag = some t ∧ name = n ++ ':' :: t ∧ '/' ∉ t := by
  unfold splitTag at h
  cases hslash : rsplitOnce '/' name with
  | none =>
      simp only [hslash] at h
      have hnone : '/' ∉ name := rsplitOnce_eq_none.1 hslash
      cases hcolon : splitOnce ':' name with
      | none =>
          rw [hcolon] at h
          cases h
          exact Or.inl ⟨rfl, rfl⟩
      | some p =>
          rw [hcolon] at h
          cases h
          have hname := (splitOnce_eq_some.1 hcolon).1
          refine Or.inr ⟨p.2, rfl, hname, fun hmem => hnone ?_⟩
          rw [hname]
          exact List.mem_append_right _ (List.mem_cons_of_mem _ hmem)
  | some q =>
      simp only [hslash] at h
      rcases rsplitOnce_eq_some.1 hslash with ⟨hname, hbase⟩
      cases hcolon : splitOnce ':' q.2 with
      | none =>
          rw [hcolon] at h
          cases h
          exact Or.inl ⟨rfl, rfl⟩
      | some p =>
          rw [hcolon] at h
          cases h
          have hq := (splitOnce_eq_some.1 hcolon).1
          refine Or.inr ⟨p.2, rfl, ?_, fun hmem => hbase ?_⟩
          · calc name = q.1 ++ '/' :: q.2 := hname
              _ = q.1 ++ '/' :: (p.1 ++ ':' :: p.2) := by rw [← hq]
              _ = q.1 ++ "/".toList ++ p.1 ++ ':' :: p.2 := by simp
          · rw [hq]
            exact List.mem_append_right _ (List.mem_cons_of_mem _ hmem)

theorem takeWhile_tag (n t : Text) :
    (n ++ ':' :: t).takeWhile (· ≠ ':') = n.takeWhile (· ≠ ':') := by
  induction n with
  | nil => simp
  | cons c n ih =>
      by_cases hc : c = ':'
      · simp [hc]
      · simpa [List.takeWhile_cons, hc] using ih

/-- With or without its tag, a name has one registry and one repository. -/
theorem registryOf_tag (n : Text) {t : Text} (ht : '/' ∉ t) :
    (registryOf (n ++ ':' :: t)).1 = (registryOf n).1 ∧
      repositoryOf (registryOf (n ++ ':' :: t)).1 (registryOf (n ++ ':' :: t)).2 =
        repositoryOf (registryOf n).1 (registryOf n).2 := by
  have hrepository : ∀ registry rest : Text,
      repositoryOf registry (rest ++ ':' :: t) = repositoryOf registry rest := by
    intro registry rest
    simp only [repositoryOf, takeWhile_tag]
  have halias : ∀ registry rest : Text,
      (if registry = "docker.io".toList then (dockerHub, rest ++ ':' :: t)
        else (registry, rest ++ ':' :: t)) =
      ((if registry = "docker.io".toList then (dockerHub, rest) else (registry, rest)).1,
        (if registry = "docker.io".toList then (dockerHub, rest) else (registry, rest)).2 ++
          ':' :: t) := by
    intro registry rest
    split <;> rfl
  have hregistry : registryOf (n ++ ':' :: t) = ((registryOf n).1, (registryOf n).2 ++ ':' :: t) := by
    cases hslash : splitOnce '/' n with
    | none =>
        have hnone : splitOnce '/' (n ++ ':' :: t) = none := by
          rw [splitOnce_eq_none] at hslash ⊢
          simp [hslash, ht]
        simp only [registryOf, hslash, hnone]
        exact halias dockerHub n
    | some p =>
        rcases splitOnce_eq_some.1 hslash with ⟨hn, hfirst⟩
        have hsome : splitOnce '/' (n ++ ':' :: t) = some (p.1, p.2 ++ ':' :: t) := by
          rw [splitOnce_eq_some]
          exact ⟨by simp [hn], hfirst⟩
        simp only [registryOf, hslash, hsome]
        by_cases hcond : '.' ∈ p.1 ∨ ':' ∈ p.1 ∨ p.1 = "localhost".toList
        · simp only [hcond, if_true]
          exact halias p.1 p.2
        · simp only [hcond, if_false]
          exact halias dockerHub n
  rw [hregistry]
  exact ⟨rfl, hrepository _ _⟩

/-- The digest that a name is normalized with. -/
def placeholderDigest : Text :=
  "sha256:".toList ++ List.replicate 64 '0'

section References

open Unicode UnicodeTables

variable [UnicodeTables]

def referenceError (r : Text) : Text :=
  "cannot parse reference ".toList ++ debug r

/-- The reference with some name and digest; `r` is what its errors quote. -/
def nameReference (r name : Text) (digest : Option Text) : Except Text AnyReference :=
  let (name, tag) := splitTag name
  if name = [] ∨ name.any isWhitespace then .error (referenceError r)
  else
    match ociLocation (name ++ '@' :: placeholderDigest) with
    | .error _ => .error (referenceError r)
    | .ok location =>
        match splitOnce '/' location with
        | some (registry, repository) =>
            .ok { registry := registry, repository := repository, tag := tag, digest := digest }
        | none => .error "a location has a registry".toList

/-- Parses any reference, `name[:tag][@sha256:...]`. -/
def parseAnyReference (r : Text) : Except Text AnyReference :=
  match rsplitOnce '@' r with
  | some (name, digest) =>
      if digestIsValid digest = false then .error (referenceError r)
      else nameReference r name (some digest)
  | none => nameReference r r none

/-- A location is the registry and the repository of its name. -/
theorem ociLocation_name {name digest location : Text} (hdigest : '@' ∉ digest)
    (h : ociLocation (name ++ '@' :: digest) = .ok location) :
    splitOnce '/' location = some ((registryOf name).1,
      repositoryOf (registryOf name).1 (registryOf name).2) := by
  rcases ociLocation_ok h with ⟨name', digest', hr, hvalid, -, -, -, hlocation⟩
  have hat : rsplitOnce '@' (name ++ '@' :: digest) = some (name, digest) :=
    rsplitOnce_eq_some.2 ⟨rfl, hdigest⟩
  have hat' : rsplitOnce '@' (name ++ '@' :: digest) = some (name', digest') :=
    rsplitOnce_eq_some.2 ⟨hr, digest_no_at hvalid⟩
  cases hat.symm.trans hat'
  rw [splitOnce_eq_some]
  exact ⟨by simpa using hlocation, (registryOf_fst name).2⟩

theorem nameReference_ok {r name : Text} {digest : Option Text} {reference : AnyReference}
    (h : nameReference r name digest = .ok reference) :
    reference.digest = digest ∧ reference.registry = (registryOf name).1 ∧
      reference.repository = repositoryOf (registryOf name).1 (registryOf name).2 := by
  unfold nameReference at h
  rcases htag : splitTag name with ⟨n, tag⟩
  rw [htag] at h
  dsimp only at h
  have hname : (registryOf name).1 = (registryOf n).1 ∧
      repositoryOf (registryOf name).1 (registryOf name).2 =
        repositoryOf (registryOf n).1 (registryOf n).2 := by
    rcases splitTag_eq htag with ⟨-, rfl⟩ | ⟨t, -, rfl, ht⟩
    · exact ⟨rfl, rfl⟩
    · exact registryOf_tag n ht
  split at h
  · cases h
  · split at h
    · cases h
    · next location hlocation =>
        have hsplit := ociLocation_name (by decide) hlocation
        rw [hsplit] at h
        cases h
        exact ⟨rfl, hname.1.symm, hname.2.symm⟩

/-- A pinned reference is to guestfn what it is to the runtime, where that accepts it. -/
theorem parseAnyReference_pinned {t : Text} {reference : AnyReference} {digest : Text}
    {pinned : OciReference} (h : parseAnyReference t = .ok reference)
    (hdigest : reference.digest = some digest) (hpinned : parseOciReference t = .ok pinned) :
    pinned = { registry := reference.registry
               repository := reference.repository
               digest := digest } := by
  have hlocation := parseOciReference_ok hpinned
  rcases ociLocation_ok hlocation with ⟨name, digest', ht, hvalid, -, -, -, -⟩
  have hat : rsplitOnce '@' t = some (name, digest') :=
    rsplitOnce_eq_some.2 ⟨ht, digest_no_at hvalid⟩
  have hname : nameReference t name (some digest') = .ok reference := by
    unfold parseAnyReference at h
    simpa [hat, hvalid] using h
  rcases nameReference_ok hname with ⟨hsome, hregistry, hrepository⟩
  have heq : digest' = digest := Option.some.inj (hsome.symm.trans hdigest)
  have hsplit := ociLocation_name (digest_no_at hvalid) (ht ▸ hlocation)
  unfold parseOciReference at hpinned
  rw [hlocation, hat] at hpinned
  dsimp only at hpinned
  rw [hsplit] at hpinned
  cases hpinned
  rw [hregistry, hrepository, heq]

end References

end FunctionWasm

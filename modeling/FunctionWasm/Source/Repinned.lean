import Mathlib.Data.List.TakeWhile
import FunctionWasm.Source.AnyReference
import FunctionWasm.Source.Canonical

/-!
# Repinned — what a reference keeps of its text

A reference is a name, a tag and a digest.  Both parsers take it apart, and what a Composition holds
is put together again.

* `bareName` is the name before the tag and the digest, `Recombines` what may be made of it.
* `Agree`, `Kept` and `Repins` are what is expected of the parsers.
* `reference_faithful_iff` says for which texts they do it.
-/

namespace FunctionWasm

/-! ## Names -/

/-- What is before the tag and the digest. -/
def bareName (r : Text) : Text := (splitTag (nameOf r)).1

def tagOf (r : Text) : Option Text := (splitTag (nameOf r)).2

/-- Whether a first component can only be a registry. -/
def IsRegistry (first : Text) : Prop :=
  '.' ∈ first ∨ ':' ∈ first ∨ first = "localhost".toList

instance (first : Text) : Decidable (IsRegistry first) :=
  inferInstanceAs (Decidable (_ ∨ _))

/-- Docker Hub has two names. -/
def aliased (first : Text) : Text :=
  if first = "docker.io".toList then dockerHub else first

/-- A registry and a repository put together are a name, up to the default registry, the alias of
Docker Hub and its prefix `library`. -/
def Recombines (registry repository name : Text) : Prop :=
  ∃ rest : Text,
    ((∃ first : Text, name = first ++ '/' :: rest ∧ registry = aliased first) ∨
        (name = rest ∧ registry = dockerHub)) ∧
      (repository = rest ∨ registry = dockerHub ∧ repository = "library/".toList ++ rest)

/-- The registry and the rest of a name, written out. -/
theorem registryOf_slash {first : Text} (hslash : '/' ∉ first) (rest : Text) :
    registryOf (first ++ '/' :: rest) =
      if IsRegistry first then (aliased first, rest) else (dockerHub, first ++ '/' :: rest) := by
  have hsplit : splitOnce '/' (first ++ '/' :: rest) = some (first, rest) :=
    splitOnce_eq_some.2 ⟨rfl, hslash⟩
  have hchosen : (if '.' ∈ first ∨ ':' ∈ first ∨ first = "localhost".toList then
      (first, rest) else (dockerHub, first ++ '/' :: rest)) =
      if IsRegistry first then (first, rest) else (dockerHub, first ++ '/' :: rest) := rfl
  unfold registryOf
  rw [hsplit]
  dsimp only
  rw [hchosen]
  by_cases hfirst : IsRegistry first
  · rw [if_pos hfirst, if_pos hfirst]
    unfold aliased
    dsimp only
    split <;> rfl
  · rw [if_neg hfirst, if_neg hfirst]
    exact ite_self _

theorem registryOf_plain {name : Text} (hslash : '/' ∉ name) :
    registryOf name = (dockerHub, name) := by
  unfold registryOf
  rw [splitOnce_eq_none.2 hslash]
  exact ite_self _

theorem registryOf_cases (name : Text) :
    (∃ first rest, name = first ++ '/' :: rest ∧ '/' ∉ first ∧ IsRegistry first ∧
        registryOf name = (aliased first, rest)) ∨
      registryOf name = (dockerHub, name) := by
  cases hsplit : splitOnce '/' name with
  | none => exact Or.inr (registryOf_plain (splitOnce_eq_none.1 hsplit))
  | some p =>
      rcases p with ⟨first, rest⟩
      rcases splitOnce_eq_some.1 hsplit with ⟨rfl, hslash⟩
      rw [registryOf_slash hslash]
      by_cases hfirst : IsRegistry first
      · rw [if_pos hfirst]
        exact Or.inl ⟨first, rest, rfl, hslash, hfirst, rfl⟩
      · rw [if_neg hfirst]
        exact Or.inr rfl

theorem isRegistry_hub : IsRegistry dockerHub := Or.inl (by decide)

theorem aliased_hub : aliased dockerHub = dockerHub := if_neg (by decide)

theorem isRegistry_aliased {first : Text} (h : IsRegistry first) : IsRegistry (aliased first) := by
  unfold aliased
  split
  · exact isRegistry_hub
  · exact h

theorem aliased_aliased (first : Text) : aliased (aliased first) = aliased first := by
  by_cases h : first = "docker.io".toList
  · have heq : aliased first = dockerHub := if_pos h
    rw [heq, aliased_hub]
  · have heq : aliased first = first := if_neg h
    rw [heq, heq]

/-- A registry is one, and has its own name. -/
theorem registryOf_registry (name : Text) :
    IsRegistry (registryOf name).1 ∧ aliased (registryOf name).1 = (registryOf name).1 := by
  rcases registryOf_cases name with ⟨first, rest, -, -, hfirst, heq⟩ | heq
  · rw [heq]
    exact ⟨isRegistry_aliased hfirst, aliased_aliased first⟩
  · rw [heq]
    exact ⟨isRegistry_hub, aliased_hub⟩

/-- A registry that is written out is found again. -/
theorem registryOf_append {registry : Text} (hslash : '/' ∉ registry) (h : IsRegistry registry)
    (halias : aliased registry = registry) (rest : Text) :
    registryOf (registry ++ '/' :: rest) = (registry, rest) := by
  rw [registryOf_slash hslash, if_pos h, halias]

theorem colon_not_mem_repositoryOf (registry rest : Text) : ':' ∉ repositoryOf registry rest := by
  have htake : ':' ∉ rest.takeWhile (· ≠ ':') := fun h => by
    have hkept := List.mem_takeWhile_imp h
    simp at hkept
  unfold repositoryOf
  dsimp only
  split
  · rw [List.mem_append]
    rintro (h | h)
    · exact absurd h (by decide)
    · exact htake h
  · exact htake

/-- A repository of Docker Hub has a prefix. -/
theorem slash_mem_repositoryOf (rest : Text) : '/' ∈ repositoryOf dockerHub rest := by
  unfold repositoryOf
  dsimp only
  split
  · exact List.mem_append_left _ (by decide)
  · next h =>
      by_contra hnot
      exact h ⟨rfl, hnot⟩

theorem takeWhile_of_not_mem {t : Text} (h : ':' ∉ t) : t.takeWhile (· ≠ ':') = t := by
  refine List.takeWhile_eq_self_iff.2 fun c hc => ?_
  have hne : c ≠ ':' := fun heq => h (heq ▸ hc)
  simpa using hne

/-- What is written of a tag. -/
def tagText : Option Text → Text
  | some t => ':' :: t
  | none => []

/-- A repository is found again, with any tag. -/
theorem repositoryOf_again (registry rest : Text) (tag : Option Text) :
    repositoryOf registry (repositoryOf registry rest ++ tagText tag) =
      repositoryOf registry rest := by
  have hcolon := colon_not_mem_repositoryOf registry rest
  have htake : (repositoryOf registry rest ++ tagText tag).takeWhile (· ≠ ':') =
      repositoryOf registry rest := by
    cases tag with
    | none => rw [tagText, List.append_nil, takeWhile_of_not_mem hcolon]
    | some t => rw [tagText, takeWhile_tag, takeWhile_of_not_mem hcolon]
  have hprefix : ¬ (registry = dockerHub ∧ '/' ∉ repositoryOf registry rest) := by
    rintro ⟨rfl, hslash⟩
    exact hslash (slash_mem_repositoryOf rest)
  have hunfold : ∀ t : Text, repositoryOf registry t =
      if registry = dockerHub ∧ '/' ∉ t.takeWhile (· ≠ ':') then
        "library/".toList ++ t.takeWhile (· ≠ ':')
      else t.takeWhile (· ≠ ':') := fun t => rfl
  rw [hunfold (_ ++ _), htake, if_neg hprefix]

/-- What the rest of a name keeps of it. -/
theorem mem_of_mem_registryOf {name : Text} {c : Char} :
    (c ∈ (registryOf name).1 → c ∈ name ∨ c ∈ dockerHub) ∧
      (c ∈ (registryOf name).2 → c ∈ name) := by
  rcases registryOf_cases name with ⟨first, rest, hname, -, -, heq⟩ | heq
  · rw [heq, hname]
    refine ⟨fun h => ?_, fun h => by simp [h]⟩
    unfold aliased at h
    split at h
    · exact Or.inr h
    · exact Or.inl (by simp [h])
  · rw [heq]
    exact ⟨Or.inr, id⟩

theorem mem_of_mem_repositoryOf {registry rest : Text} {c : Char}
    (h : c ∈ repositoryOf registry rest) : c ∈ rest ∨ c ∈ "library/".toList := by
  have hmem : c ∈ rest.takeWhile (· ≠ ':') → c ∈ rest := fun h =>
    (List.takeWhile_sublist _).subset h
  unfold repositoryOf at h
  dsimp only at h
  split at h
  · rcases List.mem_append.1 h with h | h
    · exact Or.inr h
    · exact Or.inl (hmem h)
  · exact Or.inl (hmem h)

/-- A name is kept where no colon follows its registry. -/
theorem recombines_iff (name : Text) :
    Recombines (registryOf name).1 (repositoryOf (registryOf name).1 (registryOf name).2) name ↔
      ':' ∉ (registryOf name).2 := by
  constructor
  · rintro ⟨rest, hname, hrepository⟩
    -- the repository is written without a tag
    have hrest : ':' ∉ rest := by
      have hcolon := colon_not_mem_repositoryOf (registryOf name).1 (registryOf name).2
      rcases hrepository with heq | ⟨-, heq⟩
      · rwa [heq] at hcolon
      · rw [heq] at hcolon
        exact fun h => hcolon (List.mem_append_right _ h)
    rcases hname with ⟨first, hname, hregistry⟩ | ⟨hname, -⟩
    · -- the first component is the registry again
      have hslash : '/' ∉ first := by
        have hfst := (registryOf_fst name).2
        rw [hregistry] at hfst
        unfold aliased at hfst
        split at hfst
        · next hdocker =>
            rw [hdocker]
            decide
        · exact hfst
      have hfirst : IsRegistry first := by
        have hreg := (registryOf_registry name).1
        rw [hregistry] at hreg
        unfold aliased at hreg
        split at hreg
        · next hdocker =>
            rw [hdocker]
            exact Or.inl (by decide)
        · exact hreg
      have hsnd : (registryOf name).2 = rest := by
        rw [hname, registryOf_slash hslash, if_pos hfirst]
      rw [hsnd]
      exact hrest
    · intro hmem
      exact hrest (hname ▸ mem_of_mem_registryOf.2 hmem)
  · intro hcolon
    -- with no colon nothing is cut off
    have hrepository : repositoryOf (registryOf name).1 (registryOf name).2 = (registryOf name).2 ∨
        (registryOf name).1 = dockerHub ∧
          repositoryOf (registryOf name).1 (registryOf name).2 =
            "library/".toList ++ (registryOf name).2 := by
      unfold repositoryOf
      rw [takeWhile_of_not_mem hcolon]
      dsimp only
      split
      · next h => exact Or.inr ⟨h.1, rfl⟩
      · exact Or.inl rfl
    refine ⟨(registryOf name).2, ?_, hrepository⟩
    rcases registryOf_cases name with ⟨first, rest, hname, -, -, heq⟩ | heq
    · rw [heq]
      exact Or.inl ⟨first, hname, rfl⟩
    · rw [heq]
      exact Or.inr ⟨rfl, rfl⟩

/-! ## What is accepted -/

/-- A name with a registry and a repository that can be one. -/
structure ValidName (name : Text) : Prop where
  nonempty : name ≠ []
  no_space : name.any isWhitespace = false
  segments : ((repositoryOf (registryOf name).1 (registryOf name).2).splitOn '/').all
    repositorySegmentIsValid = true

/-- The segments of a repository are those of one that is not empty. -/
theorem takeWhile_ne_nil {registry rest : Text}
    (h : ((repositoryOf registry rest).splitOn '/').all repositorySegmentIsValid = true) :
    rest.takeWhile (· ≠ ':') ≠ [] := by
  intro hnil
  unfold repositoryOf at h
  rw [hnil] at h
  dsimp only at h
  split at h
  · exact absurd h (by decide)
  · exact absurd h (by decide)

/-- A name without its tag is as good as one with it. -/
theorem ValidName.untagged {name n : Text} {tag : Option Text} (h : ValidName name)
    (htag : splitTag name = (n, tag)) : ValidName n := by
  rcases splitTag_eq htag with ⟨-, rfl⟩ | ⟨t, -, rfl, ht⟩
  · exact h
  · have hsegments := h.segments
    rw [(registryOf_tag n ht).2] at hsegments
    refine ⟨?_, ?_, hsegments⟩
    · rintro rfl
      exact absurd hsegments (by decide)
    · have hspace := h.no_space
      rw [List.any_append, Bool.or_eq_false_iff] at hspace
      exact hspace.1

/-- The name that a reference is put together from. -/
theorem ValidName.normalized {name : Text} (h : ValidName name) {tag : Option Text}
    (htag : ∀ t ∈ tag, t.any isWhitespace = false) :
    let registry := (registryOf name).1
    let repository := repositoryOf registry (registryOf name).2
    registryOf (registry ++ '/' :: (repository ++ tagText tag)) =
        (registry, repository ++ tagText tag) ∧
      ValidName (registry ++ '/' :: (repository ++ tagText tag)) := by
  intro registry repository
  have hregistry := registryOf_registry name
  have hagain : registryOf (registry ++ '/' :: (repository ++ tagText tag)) =
      (registry, repository ++ tagText tag) :=
    registryOf_append (registryOf_fst name).2 hregistry.1 hregistry.2 _
  have hspaces : ∀ c ∈ name, isWhitespace c = false := fun c hc => by
    have hany := h.no_space
    rw [List.any_eq_false] at hany
    simpa using hany c hc
  have hhub : ∀ c ∈ dockerHub ++ "library/".toList, isWhitespace c = false := by decide
  refine ⟨hagain, ⟨by simp, ?_, ?_⟩⟩
  · rw [List.any_append, List.any_cons, List.any_append, Bool.or_eq_false_iff,
      Bool.or_eq_false_iff, Bool.or_eq_false_iff]
    refine ⟨?_, by decide, ?_, ?_⟩
    · rw [List.any_eq_false]
      intro c hc
      rcases mem_of_mem_registryOf.1 hc with hc | hc
      · simp [hspaces c hc]
      · simp [hhub c (List.mem_append_left _ hc)]
    · rw [List.any_eq_false]
      intro c hc
      rcases mem_of_mem_repositoryOf hc with hc | hc
      · simp [hspaces c (mem_of_mem_registryOf.2 hc)]
      · simp [hhub c (List.mem_append_right _ hc)]
    · cases tag with
      | none => rfl
      | some t =>
          rw [tagText, List.any_cons, htag t rfl]
          decide
  · rw [hagain, repositoryOf_again]
    exact h.segments

/-- A tag is taken off again where the repository has no colon. -/
theorem splitTag_again {registry repository : Text} {tag : Option Text} (hcolon : ':' ∉ repository)
    (htag : ∀ t ∈ tag, '/' ∉ t) :
    splitTag (registry ++ '/' :: (repository ++ tagText tag)) =
      (registry ++ '/' :: repository, tag) := by
  have hbase : ∃ dir base, registry ++ '/' :: repository = dir ++ '/' :: base ∧ '/' ∉ base ∧
      ':' ∉ base := by
    cases hslash : rsplitOnce '/' repository with
    | none => exact ⟨registry, repository, rfl, rsplitOnce_eq_none.1 hslash, hcolon⟩
    | some p =>
        rcases p with ⟨dir, base⟩
        rcases rsplitOnce_eq_some.1 hslash with ⟨rfl, hbase⟩
        refine ⟨registry ++ '/' :: dir, base, by simp, hbase, fun h => hcolon ?_⟩
        exact List.mem_append_right _ (List.mem_cons_of_mem _ h)
  rcases hbase with ⟨dir, base, hname, hslash, hbase⟩
  have htext : '/' ∉ tagText tag := by
    cases tag with
    | none => exact List.not_mem_nil
    | some t =>
        rw [tagText, List.mem_cons]
        rintro (h | h)
        · exact absurd h (by decide)
        · exact htag t rfl h
  have hsplit : rsplitOnce '/' (registry ++ '/' :: (repository ++ tagText tag)) =
      some (dir, base ++ tagText tag) := by
    refine rsplitOnce_eq_some.2 ⟨?_, fun h => ?_⟩
    · rw [← List.cons_append, ← List.append_assoc, hname, List.append_assoc, List.cons_append]
    · rcases List.mem_append.1 h with h | h
      · exact hslash h
      · exact htext h
  unfold splitTag
  rw [hsplit]
  dsimp only
  cases tag with
  | none =>
      rw [tagText, List.append_nil, List.append_nil, splitOnce_eq_none.2 hbase]
  | some t =>
      have hcut : splitOnce ':' (base ++ tagText (some t)) = some (base, t) :=
        splitOnce_eq_some.2 ⟨rfl, hbase⟩
      rw [hcut, hname]
      simp

theorem placeholderDigest_valid : digestIsValid placeholderDigest = true := by decide

theorem pinned_eq (any : AnyReference) (digest : Text) :
    any.pinned digest =
      any.registry ++ '/' :: (any.repository ++ tagText any.tag) ++ '@' :: any.digest.getD digest := by
  unfold AnyReference.pinned
  cases any.tag with
  | none => simp [tagText]
  | some t => simp [tagText]

theorem slash_not_mem_tag {r t : Text} (h : tagOf r = some t) : '/' ∉ t := by
  have hsplit : splitTag (nameOf r) = (bareName r, some t) := Prod.ext rfl h
  rcases splitTag_eq hsplit with ⟨hnone, -⟩ | ⟨t', hsome, -, hslash⟩
  · cases hnone
  · cases hsome
    exact hslash

section References

open Unicode UnicodeTables

variable [UnicodeTables]

theorem ociLocation_of_valid {name digest : Text} (h : ValidName name)
    (hdigest : digestIsValid digest = true) :
    ociLocation (name ++ '@' :: digest) = .ok ((registryOf name).1 ++ "/".toList ++
      repositoryOf (registryOf name).1 (registryOf name).2) := by
  have hat : rsplitOnce '@' (name ++ '@' :: digest) = some (name, digest) :=
    rsplitOnce_eq_some.2 ⟨rfl, digest_no_at hdigest⟩
  have hchecks : ¬ (digestIsValid digest = false ∨ name = [] ∨ name.any isWhitespace = true) := by
    simp [hdigest, h.nonempty, h.no_space]
  unfold ociLocation
  rw [hat]
  dsimp only
  rw [if_neg hchecks, if_neg (takeWhile_ne_nil h.segments), if_pos h.segments]

/-- The runtime accepts valid names with valid digests, and nothing else. -/
theorem parseOciReference_iff {r : Text} {reference : OciReference} :
    parseOciReference r = .ok reference ↔
      ∃ name digest, r = name ++ '@' :: digest ∧ digestIsValid digest = true ∧ ValidName name ∧
        reference = { registry := (registryOf name).1
                      repository := repositoryOf (registryOf name).1 (registryOf name).2
                      digest := digest } := by
  have hforward : ∀ {name digest : Text}, ValidName name → digestIsValid digest = true →
      parseOciReference (name ++ '@' :: digest) =
        .ok ⟨(registryOf name).1, repositoryOf (registryOf name).1 (registryOf name).2, digest⟩ := by
    intro name digest h hdigest
    have hlocation := ociLocation_of_valid h hdigest
    have hsplit := ociLocation_name (digest_no_at hdigest) hlocation
    have hat : rsplitOnce '@' (name ++ '@' :: digest) = some (name, digest) :=
      rsplitOnce_eq_some.2 ⟨rfl, digest_no_at hdigest⟩
    unfold parseOciReference
    rw [hlocation]
    dsimp only
    rw [hsplit, hat]
  constructor
  · intro h
    rcases ociLocation_ok (parseOciReference_ok h) with
      ⟨name, digest, rfl, hdigest, hne, hspace, hsegments, -⟩
    have hvalid : ValidName name := ⟨hne, hspace, hsegments⟩
    rw [hforward hvalid hdigest] at h
    cases h
    exact ⟨name, digest, rfl, hdigest, hvalid, rfl⟩
  · rintro ⟨name, digest, rfl, hdigest, hvalid, rfl⟩
    exact hforward hvalid hdigest

theorem nameReference_iff {r name : Text} {digest : Option Text} {reference : AnyReference} :
    nameReference r name digest = .ok reference ↔
      ValidName (splitTag name).1 ∧
        reference = { registry := (registryOf (splitTag name).1).1
                      repository := repositoryOf (registryOf (splitTag name).1).1
                        (registryOf (splitTag name).1).2
                      tag := (splitTag name).2
                      digest := digest } := by
  unfold nameReference
  rcases splitTag name with ⟨n, tag⟩
  dsimp only
  constructor
  · intro h
    split at h
    · cases h
    · next hchecks =>
        split at h
        · cases h
        · next location hlocation =>
            rw [ociLocation_name (by decide) hlocation] at h
            cases h
            rcases ociLocation_ok hlocation with ⟨n', digest', hr, hdigest, hne, hspace, hsegs, -⟩
            have hat := (rsplitOnce_eq_some.2 ⟨hr, digest_no_at hdigest⟩).symm.trans
              (rsplitOnce_eq_some.2 ⟨rfl, digest_no_at placeholderDigest_valid⟩)
            cases hat
            exact ⟨⟨hne, hspace, hsegs⟩, rfl⟩
  · rintro ⟨h, rfl⟩
    have hchecks : ¬ (n = [] ∨ n.any isWhitespace = true) := by
      simp [h.nonempty, h.no_space]
    have hlocation := ociLocation_of_valid h placeholderDigest_valid
    rw [if_neg hchecks, hlocation]
    dsimp only
    rw [ociLocation_name (by decide) hlocation]

/-- Any reference is a valid name, with any tag and with a valid digest or none. -/
theorem parseAnyReference_ok {r : Text} {reference : AnyReference}
    (h : parseAnyReference r = .ok reference) :
    ValidName (bareName r) ∧ (∀ d ∈ reference.digest, digestIsValid d = true) ∧
      reference.registry = (registryOf (bareName r)).1 ∧
      reference.repository =
        repositoryOf (registryOf (bareName r)).1 (registryOf (bareName r)).2 ∧
      reference.tag = tagOf r := by
  unfold parseAnyReference at h
  unfold bareName tagOf nameOf
  cases hat : rsplitOnce '@' r with
  | none =>
      rw [hat] at h
      rcases nameReference_iff.1 h with ⟨hvalid, rfl⟩
      exact ⟨hvalid, (fun d hd => by cases hd), rfl, rfl, rfl⟩
  | some p =>
      rw [hat] at h
      dsimp only at h
      split at h
      · cases h
      · next hdigest =>
          rcases nameReference_iff.1 h with ⟨hvalid, rfl⟩
          refine ⟨hvalid, fun d hd => ?_, rfl, rfl, rfl⟩
          cases hd
          simpa using hdigest

theorem parseAnyReference_of_digest {name digest : Text} (hdigest : digestIsValid digest = true) :
    parseAnyReference (name ++ '@' :: digest) =
      nameReference (name ++ '@' :: digest) name (some digest) := by
  have hat : rsplitOnce '@' (name ++ '@' :: digest) = some (name, digest) :=
    rsplitOnce_eq_some.2 ⟨rfl, digest_no_at hdigest⟩
  unfold parseAnyReference
  rw [hat]
  dsimp only
  rw [if_neg (by simp [hdigest])]

/-- What the runtime accepts the command line accepts. -/
theorem parseAnyReference_of_parseOciReference {r : Text} {reference : OciReference}
    (h : parseOciReference r = .ok reference) : ∃ any, parseAnyReference r = .ok any := by
  rcases parseOciReference_iff.1 h with ⟨name, digest, rfl, hdigest, hvalid, -⟩
  rw [parseAnyReference_of_digest hdigest]
  exact ⟨_, nameReference_iff.2 ⟨hvalid.untagged rfl, rfl⟩⟩

/-! ## What is expected -/

/-- The parsers agree where both accept. -/
def Agree (r : Text) : Prop :=
  ∀ any pinned, parseAnyReference r = .ok any → parseOciReference r = .ok pinned →
    any.registry = pinned.registry ∧ any.repository = pinned.repository ∧
      any.digest = some pinned.digest

/-- Neither drops anything of the name. -/
def Kept (r : Text) : Prop :=
  (∀ any, parseAnyReference r = .ok any → Recombines any.registry any.repository (bareName r)) ∧
    ∀ pinned, parseOciReference r = .ok pinned →
      Recombines pinned.registry pinned.repository (bareName r)

/-- A reference that is pinned is accepted by both, and gives back what it is made of. -/
def Repins (r : Text) : Prop :=
  ∀ any, parseAnyReference r = .ok any → ∀ digest, digestIsValid digest = true →
    ∃ again pinned, parseAnyReference (any.pinned digest) = .ok again ∧
      parseOciReference (any.pinned digest) = .ok pinned ∧
      again.registry = any.registry ∧ again.repository = any.repository ∧ again.tag = any.tag ∧
      pinned.registry = any.registry ∧ pinned.repository = any.repository

theorem agree (r : Text) : Agree r := by
  intro any pinned hany hpinned
  rcases parseOciReference_iff.1 hpinned with ⟨name, digest, hr, hdigest, -, -⟩
  have hsome : any.digest = some digest := by
    rw [hr, parseAnyReference_of_digest hdigest] at hany
    exact (nameReference_ok hany).1
  have heq := parseAnyReference_pinned hany hsome hpinned
  rw [heq]
  exact ⟨rfl, rfl, hsome⟩

theorem kept_iff (r : Text) :
    Kept r ↔ ((∃ any, parseAnyReference r = .ok any) → ':' ∉ (registryOf (bareName r)).2) := by
  constructor
  · rintro ⟨hkept, -⟩ ⟨any, hany⟩
    rcases parseAnyReference_ok hany with ⟨-, -, hregistry, hrepository, -⟩
    have hrecombines := hkept any hany
    rw [hregistry, hrepository] at hrecombines
    exact (recombines_iff _).1 hrecombines
  · intro hcolon
    refine ⟨fun any hany => ?_, fun pinned hpinned => ?_⟩
    · rcases parseAnyReference_ok hany with ⟨-, -, hregistry, hrepository, -⟩
      rw [hregistry, hrepository]
      exact (recombines_iff _).2 (hcolon ⟨any, hany⟩)
    · rcases parseAnyReference_of_parseOciReference hpinned with ⟨any, hany⟩
      rcases parseAnyReference_ok hany with ⟨-, -, hregistry, hrepository, -⟩
      rcases agree r any pinned hany hpinned with ⟨hfst, hsnd, -⟩
      rw [← hfst, ← hsnd, hregistry, hrepository]
      exact (recombines_iff _).2 (hcolon ⟨any, hany⟩)

theorem repins_iff (r : Text) :
    Repins r ↔
      ((∃ any, parseAnyReference r = .ok any) → ∀ t ∈ tagOf r, t.any isWhitespace = false) := by
  constructor
  · rintro hrepins ⟨any, hany⟩ t ht
    rcases parseAnyReference_ok hany with ⟨-, hvalid, -, -, htag⟩
    rcases hrepins any hany placeholderDigest placeholderDigest_valid with
      ⟨-, pinned, -, hpinned, -⟩
    have hdigest : digestIsValid (any.digest.getD placeholderDigest) = true := by
      cases hown : any.digest with
      | none => exact placeholderDigest_valid
      | some d => exact hvalid d hown
    rcases parseOciReference_iff.1 hpinned with ⟨name, digest, hr, hvalid', hname, -⟩
    rw [pinned_eq] at hr
    have hat := (rsplitOnce_eq_some.2 ⟨hr, digest_no_at hvalid'⟩).symm.trans
      (rsplitOnce_eq_some.2 ⟨rfl, digest_no_at hdigest⟩)
    cases hat
    have hspace := hname.no_space
    rw [htag, ht, List.any_append, List.any_cons, List.any_append, tagText, List.any_cons,
      Bool.or_eq_false_iff, Bool.or_eq_false_iff, Bool.or_eq_false_iff,
      Bool.or_eq_false_iff] at hspace
    exact hspace.2.2.2.2
  · intro hspace any hany digest hdigest
    rcases parseAnyReference_ok hany with ⟨hname, hvalid, hregistry, hrepository, htag⟩
    have hdigest' : digestIsValid (any.digest.getD digest) = true := by
      cases hown : any.digest with
      | none => exact hdigest
      | some d => exact hvalid d hown
    have htags : ∀ t ∈ any.tag, t.any isWhitespace = false := by
      rw [htag]
      exact hspace ⟨any, hany⟩
    have hnormal := hname.normalized htags
    dsimp only at hnormal
    rw [← hrepository, ← hregistry] at hnormal
    have hsplit : splitTag (any.registry ++ '/' :: (any.repository ++ tagText any.tag)) =
        (any.registry ++ '/' :: any.repository, any.tag) := by
      refine splitTag_again ?_ fun t ht => slash_not_mem_tag (htag ▸ ht)
      rw [hrepository]
      exact colon_not_mem_repositoryOf _ _
    -- without its tag the name is normalized, too
    have hnone : ∀ t ∈ (none : Option Text), t.any isWhitespace = false := fun t ht => by cases ht
    have hplain := (hname.normalized hnone).1
    rw [tagText, List.append_nil, ← hrepository, ← hregistry] at hplain
    have hagain : repositoryOf any.registry any.repository = any.repository := by
      have h := repositoryOf_again (registryOf (bareName r)).1 (registryOf (bareName r)).2 none
      rwa [tagText, List.append_nil, ← hrepository, ← hregistry] at h
    have hagain' : repositoryOf any.registry (any.repository ++ tagText any.tag) =
        any.repository := by
      have h := repositoryOf_again (registryOf (bareName r)).1 (registryOf (bareName r)).2 any.tag
      rwa [← hrepository, ← hregistry] at h
    rw [pinned_eq, parseAnyReference_of_digest hdigest']
    refine ⟨_, _, nameReference_iff.2 ⟨hnormal.2.untagged rfl, rfl⟩,
      parseOciReference_iff.2 ⟨_, _, rfl, hdigest', hnormal.2, rfl⟩, ?_⟩
    rw [hsplit, hnormal.1]
    dsimp only
    rw [hplain]
    exact ⟨rfl, hagain, rfl, rfl, hagain'⟩

/-- The parsers agree, keep the name and give back what was pinned: always, where the name is kept
and the tag has no white space. -/
theorem reference_faithful_iff (r : Text) :
    (Agree r ∧ Kept r ∧ Repins r) ↔
      ((∃ any, parseAnyReference r = .ok any) →
        ':' ∉ (registryOf (bareName r)).2 ∧ ∀ t ∈ tagOf r, t.any isWhitespace = false) := by
  constructor
  · rintro ⟨-, hkept, hrepins⟩ hany
    exact ⟨(kept_iff r).1 hkept hany, (repins_iff r).1 hrepins hany⟩
  · intro h
    exact ⟨agree r, (kept_iff r).2 fun hany => (h hany).1, (repins_iff r).2 fun hany => (h hany).2⟩

end References

section Examples

attribute [local instance] asciiTables

def zeros : Text := '@' :: placeholderDigest

/-- A colon in a component before the last one ends the repository, and the white space of a tag is
only seen when the reference is pinned. -/
theorem component_dropped :
    parseOciReference ("ghcr.io/a:b/c".toList ++ zeros) =
        .ok { registry := "ghcr.io".toList, repository := "a".toList, digest := placeholderDigest } ∧
      parseAnyReference ("ghcr.io/a:b/c".toList ++ zeros) =
        .ok { registry := "ghcr.io".toList, repository := "a".toList, tag := none
              digest := some placeholderDigest } ∧
      ¬ Recombines "ghcr.io".toList "a".toList (bareName ("ghcr.io/a:b/c".toList ++ zeros)) ∧
      (∃ any, parseAnyReference "ghcr.io/a/b:v 1".toList = .ok any ∧
        any.pinned placeholderDigest = "ghcr.io/a/b:v 1".toList ++ zeros) ∧
      parseOciReference ("ghcr.io/a/b:v 1".toList ++ zeros) =
        .error (pinnedError ("ghcr.io/a/b:v 1".toList ++ zeros)) := by
  refine ⟨by decide +kernel, by decide +kernel, ?_, ?_, by decide +kernel⟩
  · have hname : bareName ("ghcr.io/a:b/c".toList ++ zeros) = "ghcr.io/a:b/c".toList := by
      decide +kernel
    have hregistry : (registryOf "ghcr.io/a:b/c".toList) = ("ghcr.io".toList, "a:b/c".toList) := by
      decide +kernel
    have hrepository : repositoryOf "ghcr.io".toList "a:b/c".toList = "a".toList := by
      decide +kernel
    intro h
    have hiff := recombines_iff "ghcr.io/a:b/c".toList
    rw [hregistry, hrepository] at hiff
    rw [hname] at h
    exact absurd (hiff.1 h) (by decide)
  · refine ⟨⟨"ghcr.io".toList, "a/b".toList, some "v 1".toList, none⟩, ?_, ?_⟩
    · decide +kernel
    · decide +kernel

end Examples
end FunctionWasm

import FunctionWasm.Foundation.Unicode

/-!
# Location — where a module comes from

* `OciReference` is a parsed reference to a module in a registry, pinned to its manifest;
  `ociLocation` checks a reference and `parseOciReference` parses it.
* `pathClean` normalizes a path lexically, `normalizedPath` says that there is nothing to normalize.
* `httpLocation` checks a URL and returns its scheme, host and path.
* `ociLocation_ok` and `httpLocation_ok` say what was accepted and what it is called.
-/

namespace FunctionWasm

/-- A parsed, normalized OCI digest reference. -/
structure OciReference where
  registry : Text
  repository : Text
  digest : Text
  deriving DecidableEq

/-- The location policies name the module by. -/
def OciReference.location (r : OciReference) : Text :=
  r.registry ++ "/".toList ++ r.repository

/-! ## Paths -/

/-- One segment of a path onto the segments kept so far; `dotdot` of these cannot be taken back. -/
def cleanSegment (rooted : Bool) (st : List Text × Nat) (segment : Text) : List Text × Nat :=
  let (out, dotdot) := st
  if segment = [] ∨ segment = ".".toList then (out, dotdot)
  else if segment = "..".toList then
    if dotdot < out.length then (out.dropLast, dotdot)
    else if rooted then (out, dotdot)
    else (out ++ [segment], out.length + 1)
  else (out ++ [segment], dotdot)

/-- Slashes once, `.` elided, `..` resolved against the element before it. -/
def pathClean (p : Text) : Text :=
  if p = [] then ".".toList
  else
    let rooted := p.head? = some '/'
    let out := ((p.splitOn '/').foldl (cleanSegment rooted) ([], 0)).1
    let joined := ['/'].intercalate out
    if rooted then '/' :: joined
    else if joined = [] then ".".toList
    else joined

/-- Whether a path is its own cleaned form, a trailing slash preserved. -/
def normalizedPath (p : Text) : Bool :=
  if p = [] then true
  else
    let cleaned := pathClean p
    let cleaned :=
      if p.getLast? = some '/' ∧ cleaned ≠ "/".toList then cleaned ++ "/".toList else cleaned
    cleaned = p

/-! ## OCI references -/

def isHexLower (c : Char) : Bool := c.isDigit || ('a' ≤ c && c ≤ 'f')

/-- `sha256:` and 64 lowercase hex digits. -/
def digestIsValid (digest : Text) : Bool :=
  match digest.dropPrefix? "sha256:".toList with
  | some hex => hex.length = 64 && hex.all isHexLower
  | none => false

theorem digestIsValid_eq_true {digest : Text} :
    digestIsValid digest = true ↔
      ∃ hex, digest = "sha256:".toList ++ hex ∧ hex.length = 64 ∧
        ∀ c ∈ hex, isHexLower c = true := by
  unfold digestIsValid
  cases hdrop : digest.dropPrefix? "sha256:".toList with
  | none =>
      refine iff_of_false (by simp) ?_
      rintro ⟨hex, heq, -⟩
      rw [dropPrefix?_eq_some.2 heq] at hdrop
      cases hdrop
  | some hex =>
      have heq := dropPrefix?_eq_some.1 hdrop
      simp only [Bool.and_eq_true, decide_eq_true_eq, List.all_eq_true]
      constructor
      · rintro ⟨hlength, hall⟩
        exact ⟨hex, heq, hlength, hall⟩
      · rintro ⟨hex', heq', hlength, hall⟩
        have hsame : hex' = hex := List.append_cancel_left (heq'.symm.trans heq)
        rw [← hsame]
        exact ⟨hlength, hall⟩

/-- A digest has no character that neither its prefix nor a number has. -/
theorem not_mem_digest {digest : Text} {c : Char} (h : digestIsValid digest = true)
    (hfront : c ∉ "sha256:".toList) (hhex : isHexLower c = false) : c ∉ digest := by
  rcases digestIsValid_eq_true.1 h with ⟨hex, rfl, -, hall⟩
  intro hmem
  rcases List.mem_append.1 hmem with hmem | hmem
  · exact hfront hmem
  · rw [hall c hmem] at hhex
    cases hhex

theorem digest_no_at {digest : Text} (h : digestIsValid digest = true) : '@' ∉ digest :=
  not_mem_digest h (by decide) (by decide)

/-- A lowercase letter or a digit.  The bytes of other than ASCII characters are neither. -/
def isAlnum (c : Char) : Bool := c.isLower || c.isDigit

/-- What follows a run of letters and digits, which is not empty. -/
def alnumRun : Text → Option Text
  | [] => none
  | c :: rest => if isAlnum c then some (rest.dropWhile isAlnum) else none

/-- What follows a separator: `.`, `_`, `__` or dashes. -/
def separator : Text → Option Text
  | '.' :: rest => some rest
  | '_' :: '_' :: rest => some rest
  | '_' :: rest => some rest
  | '-' :: rest => some (rest.dropWhile (· = '-'))
  | _ => none

/-- The rounds of the scan after its first run; each takes something off. -/
def segmentTail : Nat → Text → Bool
  | _, [] => true
  | 0, _ => false
  | n + 1, t =>
      match separator t with
      | none => false
      | some rest =>
          match alnumRun rest with
          | none => false
          | some rest => segmentTail n rest

/-- Runs of letters and digits with separators between them. -/
def repositorySegmentIsValid (s : Text) : Bool :=
  match alnumRun s with
  | none => false
  | some rest => segmentTail s.length rest

def dockerHub : Text := "index.docker.io".toList

/-- The registry of a name and the rest of it: the first component where it can only be one,
otherwise Docker Hub. -/
def registryOf (name : Text) : Text × Text :=
  let (registry, rest) :=
    match splitOnce '/' name with
    | some (first, rest) =>
        if '.' ∈ first ∨ ':' ∈ first ∨ first = "localhost".toList then (first, rest)
        else (dockerHub, name)
    | none => (dockerHub, name)
  if registry = "docker.io".toList then (dockerHub, rest) else (registry, rest)

/-- The repository that the rest of a name is: without its tag, under `library` where it is a
single component of Docker Hub. -/
def repositoryOf (registry rest : Text) : Text :=
  let repo := rest.takeWhile (· ≠ ':')
  if registry = dockerHub ∧ '/' ∉ repo then "library/".toList ++ repo else repo

/-- The registry of a name is not empty and has no slash. -/
theorem registryOf_fst (name : Text) :
    (registryOf name).1 ≠ [] ∧ '/' ∉ (registryOf name).1 := by
  have hhub : dockerHub ≠ [] ∧ '/' ∉ dockerHub := by decide
  have hcut : ∀ p : Text × Text, (p.1 ≠ [] ∧ '/' ∉ p.1) →
      (if p.1 = "docker.io".toList then (dockerHub, p.2) else p).1 ≠ [] ∧
        '/' ∉ (if p.1 = "docker.io".toList then (dockerHub, p.2) else p).1 := by
    intro p hp
    split
    · exact hhub
    · exact hp
  unfold registryOf
  dsimp only
  split
  · next first rest hsplit =>
      split
      · next hfirst =>
          refine hcut (first, rest) ⟨?_, (splitOnce_eq_some.1 hsplit).2⟩
          rintro rfl
          simp at hfirst
      · exact hcut (dockerHub, name) hhub
  · exact hcut (dockerHub, name) hhub

/-- A repository of valid segments does not end in a slash. -/
theorem getLast?_repository {repo : Text}
    (h : (repo.splitOn '/').all repositorySegmentIsValid = true) : repo.getLast? ≠ some '/' := by
  intro hlast
  rcases List.getLast?_eq_some_iff.1 hlast with ⟨front, rfl⟩
  have hnil : [] ∈ (front ++ ['/']).splitOn '/' := by
    rw [List.splitOn_append_cons_self]
    simp
  have hvalid := List.all_eq_true.1 h [] hnil
  simp [repositorySegmentIsValid, alnumRun] at hvalid

section Locations

open Unicode UnicodeTables

variable [UnicodeTables]

def pinnedError (r : Text) : Text :=
  "module.oci.ref ".toList ++ debug r ++ (" must be a reference pinned to its manifest digest " ++
    "(repository@sha256:...); tags are not supported").toList

/-- Checks a reference and returns `registry/repository`. -/
def ociLocation (r : Text) : Except Text Text :=
  match rsplitOnce '@' r with
  | none => .error (pinnedError r)
  | some (name, digest) =>
      if digestIsValid digest = false ∨ name = [] ∨ name.any isWhitespace then
        .error (pinnedError r)
      else
        let (registry, rest) := registryOf name
        if rest.takeWhile (· ≠ ':') = [] then .error (pinnedError r)
        else
          let repo := repositoryOf registry rest
          if (repo.splitOn '/').all repositorySegmentIsValid then
            .ok (registry ++ "/".toList ++ repo)
          else
            .error ("module.oci.ref ".toList ++ debug r ++ ": repository ".toList ++ debug repo ++
              (" is not a valid repository name (lowercase path components, no . or .. or " ++
                "empty ones)").toList)

/-- Parses a reference pinned to its manifest. -/
def parseOciReference (r : Text) : Except Text OciReference :=
  match ociLocation r with
  | .error e => .error e
  | .ok location =>
      match splitOnce '/' location, rsplitOnce '@' r with
      | some (registry, repository), some (_, digest) =>
          .ok { registry := registry, repository := repository, digest := digest }
      -- the source expects both, and `parseOciReference_of_location` that they are there
      | _, _ => .error "a location has a registry".toList

/-! ## URLs -/

/-- What is before the first `/` or `?`. -/
def authorityOf (rest : Text) : Text := rest.takeWhile fun c => c ≠ '/' && c ≠ '?'

/-- What is between the authority and the first `?`. -/
def pathOf (rest : Text) : Text :=
  (rest.dropWhile fun c => c ≠ '/' && c ≠ '?').takeWhile (· ≠ '?')

/-- Checks the URL of a field and returns its scheme, host and path. -/
def httpLocation (field raw : Text) : Except Text Text :=
  match splitOnceText "://".toList raw with
  | none => .error (field ++ " ".toList ++ debug raw ++ " must be an http or https URL".toList)
  | some (scheme, rest) =>
      if scheme ≠ "http".toList ∧ scheme ≠ "https".toList then
        .error (field ++ " ".toList ++ debug raw ++ " must be an http or https URL".toList)
      else if authorityOf rest = [] ∨ '@' ∈ authorityOf rest then
        .error (field ++ " ".toList ++ debug raw ++
          " must name a host and carry no user information".toList)
      else if normalizedPath (pathOf rest) then
        .ok (scheme ++ "://".toList ++ toLowercase (authorityOf rest) ++ pathOf rest)
      else
        .error (field ++ " ".toList ++ debug raw ++
          " must have a normalized path (no . or .. segments, no empty segments)".toList)

/-! ## What was accepted -/

theorem ociLocation_ok {r location : Text} (h : ociLocation r = .ok location) :
    ∃ name digest, r = name ++ '@' :: digest ∧ digestIsValid digest = true ∧ name ≠ [] ∧
      name.any isWhitespace = false ∧
      ((repositoryOf (registryOf name).1 (registryOf name).2).splitOn '/').all
        repositorySegmentIsValid = true ∧
      location = (registryOf name).1 ++ "/".toList ++
        repositoryOf (registryOf name).1 (registryOf name).2 := by
  unfold ociLocation at h
  split at h
  · cases h
  · next name digest hsplit =>
      split at h
      · cases h
      · next hchecks =>
          dsimp only at h
          split at h
          · cases h
          · split at h
            · next hsegments =>
                cases h
                push Not at hchecks
                exact ⟨name, digest, (rsplitOnce_eq_some.1 hsplit).1, by simpa using hchecks.1,
                  hchecks.2.1, by simpa using hchecks.2.2, hsegments, rfl⟩
            · cases h

/-- A URL is accepted when it is an http or https URL with a host, without user information and with
a normalized path. -/
theorem httpLocation_eq_ok {field raw location : Text} :
    httpLocation field raw = .ok location ↔
      ∃ scheme rest, (scheme = "http".toList ∨ scheme = "https".toList) ∧
        raw = scheme ++ "://".toList ++ rest ∧
        authorityOf rest ≠ [] ∧ '@' ∉ authorityOf rest ∧ normalizedPath (pathOf rest) = true ∧
        location = scheme ++ "://".toList ++ toLowercase (authorityOf rest) ++ pathOf rest := by
  constructor
  · intro h
    unfold httpLocation at h
    split at h
    · cases h
    · next scheme rest hsplit =>
        split at h
        · cases h
        · next hscheme =>
            split at h
            · cases h
            · next hauthority =>
                split at h
                · next hpath =>
                    cases h
                    push Not at hauthority
                    exact ⟨scheme, rest, by tauto, splitOnceText_eq hsplit, hauthority.1,
                      hauthority.2, hpath, rfl⟩
                · cases h
  · rintro ⟨scheme, rest, hscheme, rfl, hhost, huser, hpath, rfl⟩
    have hsplit : splitOnceText "://".toList (scheme ++ "://".toList ++ rest) =
        some (scheme, rest) := by
      rcases hscheme with rfl | rfl <;> simp [splitOnceText]
    have hweb : ¬ (scheme ≠ "http".toList ∧ scheme ≠ "https".toList) := by tauto
    simp only [httpLocation, hsplit]
    rw [if_neg hweb, if_neg (by tauto), if_pos hpath]

theorem ociLocation_last {r location : Text} (h : ociLocation r = .ok location) :
    location.getLast? ≠ some '/' := by
  rcases ociLocation_ok h with ⟨name, -, -, -, -, -, hsegments, rfl⟩
  have hrepo : repositoryOf (registryOf name).1 (registryOf name).2 ≠ [] := by
    intro hnil
    simp [hnil, repositorySegmentIsValid, alnumRun] at hsegments
  rw [List.getLast?_append_of_ne_nil _ hrepo]
  exact getLast?_repository hsegments

/-- A reference parses exactly when it has a location, and names it. -/
theorem parseOciReference_of_location {r location : Text} (h : ociLocation r = .ok location) :
    ∃ reference, parseOciReference r = .ok reference ∧ reference.location = location := by
  rcases ociLocation_ok h with ⟨name, digest, hr, hdigest, -, -, -, hlocation⟩
  have hslash : splitOnce '/' location = some ((registryOf name).1,
      repositoryOf (registryOf name).1 (registryOf name).2) := by
    rw [splitOnce_eq_some]
    exact ⟨by simpa using hlocation, (registryOf_fst name).2⟩
  cases hat : rsplitOnce '@' r with
  | none => simp [ociLocation, hat] at h
  | some p =>
      refine ⟨⟨(registryOf name).1, repositoryOf (registryOf name).1 (registryOf name).2, p.2⟩,
        ?_, hlocation.symm⟩
      simp only [parseOciReference, h, hslash, hat]

theorem parseOciReference_ok {r : Text} {reference : OciReference}
    (h : parseOciReference r = .ok reference) : ociLocation r = .ok reference.location := by
  cases hlocation : ociLocation r with
  | error e => simp [parseOciReference, hlocation] at h
  | ok location =>
      rcases parseOciReference_of_location hlocation with ⟨reference', hparse, rfl⟩
      rw [hparse] at h
      cases h
      rfl

end Locations
end FunctionWasm

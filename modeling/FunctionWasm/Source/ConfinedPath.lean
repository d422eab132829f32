import Mathlib.Data.List.Induction
import FunctionWasm.Foundation.Disk
import FunctionWasm.Source.Resolver

/-!
# ConfinedPath — files under the module directory

A Path source names a file relative to the module directory.  Whether the path stays there is decided
on its text, with a running depth.

* `Place` is where a path leads lexically, `place` reads it segment by segment.
* `confinedPath` is the check that is made, `depthOf` its loop.
* `depthOf_place` relates the depth to the place, `confinedPath_spec` says what is accepted.
* `resolvePath` resolves a Path source, `resolvePath_inside` says that both of its files are inside.
-/

namespace FunctionWasm

/-! ## Where a path leads -/

/-- A place as it is reached from a directory: how many levels above it, and the names below that,
the last one first. -/
structure Place where
  above : Nat
  names : List Text
  deriving DecidableEq

namespace Place

def start : Place := ⟨0, []⟩

/-- Follows one segment of a path. -/
def enter (p : Place) (segment : Text) : Place :=
  if segment = [] ∨ segment = ['.'] then p
  else if segment = ['.', '.'] then
    match p.names with
    | [] => { p with above := p.above + 1 }
    | _ :: names => { p with names := names }
  else { p with names := segment :: p.names }

/-- What was left is not entered again. -/
theorem above_le_enter (p : Place) (segment : Text) : p.above ≤ (p.enter segment).above := by
  unfold enter
  split
  · exact Nat.le_refl _
  · split
    · split
      · exact Nat.le_succ _
      · exact Nat.le_refl _
    · exact Nat.le_refl _

end Place

/-- Follows the segments of a path. -/
def place (segments : List Text) : Place := segments.foldl Place.enter Place.start

theorem place_snoc (segments : List Text) (segment : Text) :
    place (segments ++ [segment]) = (place segments).enter segment := by
  rw [place, List.foldl_append, List.foldl_cons, List.foldl_nil, ← place]

/-- A place that is left at some prefix is left. -/
theorem above_le_place {front segments : List Text} (h : front <+: segments) :
    (place front).above ≤ (place segments).above := by
  rcases h with ⟨rest, rfl⟩
  induction rest using List.reverseRecOn with
  | nil => exact Nat.le_of_eq (by rw [List.append_nil])
  | append_singleton rest segment ih =>
      rw [← List.append_assoc, place_snoc]
      exact Nat.le_trans ih (Place.above_le_enter _ _)

/-- A path that never leaves the directory that it starts from, at any prefix. -/
def StaysInside (path : Text) : Prop :=
  ∀ front, front <+: path.splitOn '/' → (place front).above = 0

theorem staysInside_iff (path : Text) :
    StaysInside path ↔ (place (path.splitOn '/')).above = 0 := by
  constructor
  · intro h
    exact h _ (List.prefix_refl _)
  · intro h front hfront
    exact Nat.le_zero.1 (h ▸ above_le_place hfront)

instance (path : Text) : Decidable (StaysInside path) :=
  decidable_of_iff _ (staysInside_iff path).symm

/-! ## The check -/

/-- The components that a path is read in. -/
inductive PathComponent where
  | rootDir
  | curDir
  | parentDir
  | normal (name : Text)
  deriving DecidableEq

def componentOf (name : Text) : PathComponent :=
  if name = ['.', '.'] then .parentDir else .normal name

/-- `Path::components`: empty components and `.` are left out, but for a `.` at the beginning. -/
def pathComponents (path : Text) : List PathComponent :=
  let named := (components path).map componentOf
  if path.head? = some '/' then .rootDir :: named
  else if (path.splitOn '/').head? = some ['.'] then .curDir :: named
  else named

/-- The running depth, and whether the path has escaped. -/
def depthStep (st : Int × Bool) : PathComponent → Int × Bool
  | .normal _ => (st.1 + 1, st.2)
  | .parentDir => (st.1 - 1, st.2 || decide (st.1 - 1 < 0))
  | .curDir => st
  | .rootDir => (st.1, true)

def depthOf (path : List PathComponent) : Int × Bool := path.foldl depthStep (0, false)

section Check

open UnicodeTables

variable [UnicodeTables]

/-- Resolves a path under the module directory; the field is named in its errors. -/
def confinedPath (dir : Option Text) (field rel : Text) : Except Text Text :=
  match dir with
  | none =>
      .error (field ++ " is refused: the function was started without --module-dir".toList)
  | some dir =>
      if rel.head? = some '/' then
        .error (field ++ " ".toList ++ debug rel ++
          " must be relative to the module directory".toList)
      else if (depthOf (pathComponents rel)).2 then
        .error (field ++ " ".toList ++ debug rel ++ " escapes the module directory".toList)
      else .ok (joinPath dir rel)

end Check

/-! ## The depth and the place -/

/-- A depth goes with a place: it is the number of names, unless the directory was left, and whether
it was is known. -/
structure DepthOf (st : Int × Bool) (p : Place) : Prop where
  escaped : st.2 = true ↔ 0 < p.above
  depth : p.above = 0 → st.1 = p.names.length

theorem DepthOf.step {st : Int × Bool} {p : Place} (h : DepthOf st p) {name : Text}
    (hname : name ≠ [] ∧ name ≠ ['.']) : DepthOf (depthStep st (componentOf name)) (p.enter name) := by
  have hskip : ¬ (name = [] ∨ name = ['.']) := by simpa using hname
  unfold componentOf Place.enter
  rw [if_neg hskip]
  by_cases hparent : name = ['.', '.']
  · rw [if_pos hparent, if_pos hparent]
    cases hnames : p.names with
    | nil =>
        refine ⟨⟨fun _ => Nat.succ_pos _, fun _ => ?_⟩, fun habove => nomatch habove⟩
        rcases Nat.eq_zero_or_pos p.above with hzero | hpos
        · have hdepth := h.depth hzero
          rw [hnames] at hdepth
          simp [depthStep, hdepth]
        · simp [depthStep, h.escaped.2 hpos]
    | cons last names =>
        refine ⟨?_, fun habove => ?_⟩
        · rcases Nat.eq_zero_or_pos p.above with hzero | hpos
          · have hinside : st.2 = false := by
              rw [← Bool.not_eq_true, h.escaped, hzero]
              exact Nat.lt_irrefl 0
            have hdepth := h.depth hzero
            rw [hnames, List.length_cons] at hdepth
            have hdeep : ¬ st.1 - 1 < 0 := by omega
            simp [depthStep, hinside, hdeep, hzero]
          · simp [depthStep, h.escaped.2 hpos, hpos]
        · have hdepth := h.depth habove
          rw [hnames, List.length_cons] at hdepth
          change st.1 - 1 = (names.length : Int)
          omega
  · rw [if_neg hparent, if_neg hparent]
    refine ⟨h.escaped, fun habove => ?_⟩
    have hdepth := h.depth habove
    change st.1 + 1 = ((name :: p.names).length : Int)
    rw [List.length_cons, hdepth]
    rfl

/-- Segments that are no components lead nowhere. -/
theorem enter_of_skipped (p : Place) {segment : Text} (h : segment = [] ∨ segment = ['.']) :
    p.enter segment = p := if_pos h

theorem depth_of_segments (segments : List Text) :
    DepthOf (depthOf ((segments.filter fun c => c ≠ [] ∧ c ≠ ['.']).map componentOf))
      (place segments) := by
  induction segments using List.reverseRecOn with
  | nil => exact ⟨by simp [depthOf, place, Place.start], fun _ => rfl⟩
  | append_singleton segments segment ih =>
      rw [place_snoc, List.filter_append, List.map_append]
      by_cases hname : segment ≠ [] ∧ segment ≠ ['.']
      · have hkept : [segment].filter (fun c => c ≠ [] ∧ c ≠ ['.']) = [segment] := by
          simp [hname]
        rw [hkept, List.map_cons, List.map_nil, depthOf, List.foldl_append, List.foldl_cons,
          List.foldl_nil, ← depthOf]
        exact ih.step hname
      · have hskip : segment = [] ∨ segment = ['.'] := by
          by_contra hnone
          push Not at hnone
          exact hname hnone
        have hdropped : [segment].filter (fun c => c ≠ [] ∧ c ≠ ['.']) = [] := by
          simpa using hname
        rw [hdropped, List.map_nil, List.append_nil, enter_of_skipped _ hskip]
        exact ih

/-- The depth of a relative path is that of the place it leads to. -/
theorem depthOf_place {rel : Text} (h : rel.head? ≠ some '/') :
    DepthOf (depthOf (pathComponents rel)) (place (rel.splitOn '/')) := by
  have hnamed := depth_of_segments (rel.splitOn '/')
  unfold pathComponents
  dsimp only
  rw [if_neg h]
  split
  · exact hnamed
  · exact hnamed

section Check

open UnicodeTables

variable [UnicodeTables]

omit [UnicodeTables] in
theorem escapes_iff {rel : Text} (hrelative : rel.head? ≠ some '/') :
    (depthOf (pathComponents rel)).2 = true ↔ ¬ StaysInside rel := by
  rw [staysInside_iff, (depthOf_place hrelative).escaped, Nat.pos_iff_ne_zero]

theorem confinedPath_eq_ok {dir field rel full : Text} :
    confinedPath (some dir) field rel = .ok full ↔
      rel.head? ≠ some '/' ∧ StaysInside rel ∧ full = joinPath dir rel := by
  unfold confinedPath
  dsimp only
  by_cases habsolute : rel.head? = some '/'
  · rw [if_pos habsolute]
    exact ⟨(fun h => by cases h), fun h => absurd habsolute h.1⟩
  · rw [if_neg habsolute]
    by_cases hstays : StaysInside rel
    · rw [if_neg fun h => (escapes_iff habsolute).1 h hstays]
      constructor
      · intro h
        cases h
        exact ⟨habsolute, hstays, rfl⟩
      · rintro ⟨-, -, rfl⟩
        rfl
    · rw [if_pos ((escapes_iff habsolute).2 hstays)]
      exact ⟨(fun h => by cases h), fun h => absurd h.2.1 hstays⟩

/-- An absolute path is refused, and of the relative ones those that leave the module directory at
some prefix; any other is joined to the directory as it is. -/
theorem confinedPath_spec (dir field rel : Text) :
    confinedPath (some dir) field rel =
      if rel.head? = some '/' then
        .error (field ++ " ".toList ++ debug rel ++
          " must be relative to the module directory".toList)
      else if StaysInside rel then .ok (joinPath dir rel)
      else .error (field ++ " ".toList ++ debug rel ++ " escapes the module directory".toList) := by
  unfold confinedPath
  dsimp only
  by_cases habsolute : rel.head? = some '/'
  · rw [if_pos habsolute, if_pos habsolute]
  · rw [if_neg habsolute, if_neg habsolute]
    by_cases hstays : StaysInside rel
    · rw [if_pos hstays, if_neg fun h => (escapes_iff habsolute).1 h hstays]
    · rw [if_neg hstays, if_pos ((escapes_iff habsolute).2 hstays)]

/-- Where the manifest of a Path source is. -/
def pathManifest (dir : Option Text) (manifestRel : Text) : Except Text ManifestSource :=
  if manifestRel = [] then .ok .none
  else (confinedPath dir "module.manifestPath".toList manifestRel).map ManifestSource.pathFile

/-- Resolves a Path source; the digest of a file is the resolver's. -/
def resolvePath (dir : Option Text) (fileDigest : Text → Except Text Text) (rel manifestRel : Text) :
    Except Text Resolved := do
  let full ← confinedPath dir "module.path".toList rel
  let digest ← fileDigest full
  let manifest ← pathManifest dir manifestRel
  return { digest := digest
           description := "module file ".toList ++ rel
           source := .path full
           manifest := manifest }

/-- Both files that a Path source stands for are under the module directory. -/
theorem resolvePath_inside {dir : Text} {fileDigest : Text → Except Text Text}
    {rel manifestRel : Text} {resolved : Resolved}
    (h : resolvePath (some dir) fileDigest rel manifestRel = .ok resolved) :
    (resolved.source = .path (joinPath dir rel) ∧ StaysInside rel) ∧
      (manifestRel = [] ∧ resolved.manifest = .none ∨
        resolved.manifest = .pathFile (joinPath dir manifestRel) ∧ StaysInside manifestRel) := by
  unfold resolvePath at h
  rcases bind_eq_ok.1 h with ⟨full, hfull, h⟩
  rcases bind_eq_ok.1 h with ⟨digest, -, h⟩
  rcases bind_eq_ok.1 h with ⟨manifest, hmanifest, h⟩
  cases h
  rcases confinedPath_eq_ok.1 hfull with ⟨-, hinside, rfl⟩
  refine ⟨⟨rfl, hinside⟩, ?_⟩
  unfold pathManifest at hmanifest
  split at hmanifest
  · next hnone =>
      cases hmanifest
      exact Or.inl ⟨hnone, rfl⟩
  · cases hread : confinedPath (some dir) "module.manifestPath".toList manifestRel with
    | error e =>
        rw [hread] at hmanifest
        cases hmanifest
    | ok full' =>
        rw [hread] at hmanifest
        cases hmanifest
        rcases confinedPath_eq_ok.1 hread with ⟨-, hinside', rfl⟩
        exact Or.inr ⟨rfl, hinside'⟩

end Check

example : StaysInside "a/./..//b/../c".toList ∧ ¬ StaysInside "a/../../a/b".toList := by
  decide

end FunctionWasm

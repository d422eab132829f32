import FunctionWasm.Foundation.DotSegments
import FunctionWasm.Foundation.WebUrl
import FunctionWasm.Source.Location

/-!
# CleanPath — the cleaned form of a path, and which paths are their own

* `segmentKind` says what a segment of a path does: `..` goes up, `.` and the empty one do nothing.
* `cleanSegment_stacked` says that the loop of `pathClean` keeps the stack of `DotSegments.resolve`,
  and in `dotdot` how many steps up are on it.
* `pathClean_eq` is `pathClean` in these terms, and `pathClean_idem` says that once is enough.
* `normalizedPath_iff` says which rooted paths are their own cleaned form: a `NamedPath`.
* `path_clean_exact` puts them together.
-/

namespace FunctionWasm

open DotSegments

def segmentKind (segment : Text) : SegmentKind :=
  if segment = [] ∨ segment = ".".toList then .skipped
  else if segment = "..".toList then .up
  else .name

/-- A path that starts at the root. -/
def isRooted (p : Text) : Bool := p.head? = some '/'

/-- Segments as a path; a relative path of none is `.`. -/
def pathText (rooted : Bool) (segments : List Text) : Text :=
  if rooted then '/' :: ['/'].intercalate segments
  else if segments = [] then ".".toList
  else ['/'].intercalate segments

/-! ## The loop -/

theorem cleanSegment_stacked {rooted : Bool} {out : List Text} {dotdot : Nat}
    (h : Stacked segmentKind rooted dotdot out) (segment : Text) :
    (cleanSegment rooted (out, dotdot) segment).1 = push segmentKind rooted out segment ∧
      Stacked segmentKind rooted (cleanSegment rooted (out, dotdot) segment).2
        (push segmentKind rooted out segment) := by
  unfold cleanSegment
  dsimp only
  split
  · next hskipped =>
      have hkind : segmentKind segment = .skipped := if_pos hskipped
      rw [push_skipped hkind]
      exact ⟨rfl, h⟩
  next hkept =>
  split
  · next hup =>
      have hkind : segmentKind segment = .up := by
        unfold segmentKind
        rw [if_neg hkept, if_pos hup]
      split
      · next hnames =>
          obtain ⟨hstacked, hpush⟩ := h.parent hnames hkind
          rw [hpush]
          exact ⟨rfl, hstacked⟩
      next hnone =>
      split
      · next hrooted =>
          -- nothing is on a rooted stack that has no names
          have hnil : out = [] := by
            rw [h.root hrooted] at hnone
            exact List.eq_nil_of_length_eq_zero (by omega)
          subst hnil
          rw [push_root hkind hrooted]
          exact ⟨rfl, h⟩
      · next hrelative =>
          obtain ⟨hstacked, hpush⟩ := h.up (Nat.not_lt.1 hnone) hkind (by simpa using hrelative)
          rw [hpush]
          exact ⟨rfl, hstacked⟩
  · next hname =>
      have hkind : segmentKind segment = .name := by
        unfold segmentKind
        rw [if_neg hkept, if_neg hname]
      rw [push_name hkind]
      exact ⟨rfl, h.name hkind⟩

theorem foldl_cleanSegment {rooted : Bool} (segments : List Text) {out : List Text} {dotdot : Nat}
    (h : Stacked segmentKind rooted dotdot out) :
    (segments.foldl (cleanSegment rooted) (out, dotdot)).1 =
        segments.foldl (push segmentKind rooted) out ∧
      Stacked segmentKind rooted (segments.foldl (cleanSegment rooted) (out, dotdot)).2
        (segments.foldl (push segmentKind rooted) out) := by
  induction segments generalizing out dotdot with
  | nil => exact ⟨rfl, h⟩
  | cons segment rest ih =>
      obtain ⟨hout, hstacked⟩ := cleanSegment_stacked h segment
      rw [List.foldl_cons, List.foldl_cons]
      have hnext := ih hstacked
      rw [← hout] at hnext ⊢
      exact hnext

/-! ## The cleaned form -/

/-- The segments of the cleaned form. -/
def cleanSegments (rooted : Bool) (p : Text) : List Text :=
  resolve segmentKind rooted (p.splitOn '/')

theorem cleanSegments_proper {rooted : Bool} {p t : Text} (h : t ∈ cleanSegments rooted p) :
    t ≠ [] ∧ '/' ∉ t := by
  obtain ⟨hmem, hkept⟩ := mem_resolve h
  refine ⟨?_, fun hslash => (Web.mem_splitOn hmem hslash).2 rfl⟩
  rintro rfl
  exact hkept rfl

/-- A rooted path has no steps up left. -/
theorem cleanSegments_names {p t : Text} (h : t ∈ cleanSegments true p) :
    segmentKind t = .name := by
  have hstart : Stacked segmentKind true 0 [] := stacked_nil
  have hstacked := (foldl_cleanSegment (p.splitOn '/') hstart).2
  have hnames := hstacked.names
  rw [hstacked.root rfl, List.drop_zero] at hnames
  exact hnames t h

/-- A path of segments that are not empty starts with none of the slashes between them. -/
theorem intercalate_head {segments : List Text} (h : ∀ t ∈ segments, t ≠ [] ∧ '/' ∉ t) :
    (['/'].intercalate segments = [] ↔ segments = []) ∧
      (['/'].intercalate segments).head? ≠ some '/' := by
  cases segments with
  | nil => exact ⟨iff_of_true rfl rfl, by simp⟩
  | cons t rest =>
      obtain ⟨hne, hslash⟩ := h t List.mem_cons_self
      obtain ⟨c, t, rfl⟩ := List.exists_cons_of_ne_nil hne
      have hc : c ≠ '/' := fun heq => hslash (heq ▸ List.mem_cons_self)
      have hhead : ∃ tail, ['/'].intercalate ((c :: t) :: rest) = c :: tail := by
        cases rest with
        | nil => exact ⟨t, List.intercalate_singleton⟩
        | cons u rest => exact ⟨_, List.intercalate_cons_cons⟩
      obtain ⟨tail, htail⟩ := hhead
      rw [htail]
      exact ⟨iff_of_false (List.cons_ne_nil _ _) (List.cons_ne_nil _ _), by simpa using hc⟩

theorem pathClean_eq (p : Text) :
    pathClean p = pathText (isRooted p) (cleanSegments (isRooted p) p) := by
  by_cases hnil : p = []
  · subst hnil
    rfl
  have hstart : Stacked segmentKind (isRooted p) 0 [] := stacked_nil
  have hloop := (foldl_cleanSegment (p.splitOn '/') hstart).1
  have hproper : ∀ t ∈ cleanSegments (isRooted p) p, t ≠ [] ∧ '/' ∉ t :=
    fun _ => cleanSegments_proper
  have hjoined := (intercalate_head hproper).1
  unfold pathClean
  rw [if_neg hnil]
  unfold pathText
  unfold cleanSegments resolve at hjoined ⊢
  rw [← hloop] at hjoined ⊢
  unfold isRooted at hjoined ⊢
  simp only [hjoined, decide_eq_true_eq]

/-- The slash at the root is no segment. -/
theorem cleanSegments_slash (rest : Text) :
    cleanSegments true ('/' :: rest) = cleanSegments true rest := by
  have hsplit : ('/' :: rest).splitOn '/' = [] :: rest.splitOn '/' :=
    List.splitOn_append_cons_self [] _
  unfold cleanSegments resolve
  rw [hsplit, List.foldl_cons, push_skipped (by rfl)]

/-- Segments as a path are the path's segments. -/
theorem cleanSegments_pathText {rooted : Bool} {segments : List Text}
    (h : ∀ t ∈ segments, t ≠ [] ∧ '/' ∉ t) (hself : resolve segmentKind rooted segments = segments) :
    isRooted (pathText rooted segments) = rooted ∧
      cleanSegments rooted (pathText rooted segments) = segments := by
  have hjoined : cleanSegments rooted (['/'].intercalate segments) = segments := by
    unfold cleanSegments
    by_cases hnil : segments = []
    · subst hnil
      rfl
    · rw [List.splitOn_intercalate '/' (fun t ht => (h t ht).2) hnil, hself]
  cases rooted with
  | true =>
      refine ⟨by simp [isRooted, pathText], ?_⟩
      unfold pathText
      rw [if_pos rfl, cleanSegments_slash, hjoined]
  | false =>
      unfold pathText
      rw [if_neg Bool.false_ne_true]
      by_cases hnil : segments = []
      · subst hnil
        exact ⟨rfl, by decide⟩
      · rw [if_neg hnil]
        exact ⟨decide_eq_false (intercalate_head h).2, hjoined⟩

theorem pathClean_idem (p : Text) : pathClean (pathClean p) = pathClean p := by
  have hproper : ∀ t ∈ cleanSegments (isRooted p) p, t ≠ [] ∧ '/' ∉ t :=
    fun _ => cleanSegments_proper
  obtain ⟨hrooted, hsegments⟩ := cleanSegments_pathText hproper (resolve_resolve _)
  calc pathClean (pathClean p)
      = pathClean (pathText (isRooted p) (cleanSegments (isRooted p) p)) := by rw [pathClean_eq p]
    _ = pathText (isRooted p) (cleanSegments (isRooted p) p) := by
        rw [pathClean_eq, hrooted, hsegments]
    _ = pathClean p := (pathClean_eq p).symm

/-! ## Rooted paths that are their own cleaned form -/

theorem splitOn_inj {s t : Text} (h : s.splitOn '/' = t.splitOn '/') : s = t :=
  calc s = ['/'].intercalate (s.splitOn '/') := (List.intercalate_splitOn '/').symm
    _ = ['/'].intercalate (t.splitOn '/') := by rw [h]
    _ = t := List.intercalate_splitOn '/'

theorem splitOn_slash (t : Text) : (t ++ ['/']).splitOn '/' = t.splitOn '/' ++ [[]] :=
  List.splitOn_append_cons_self t []

theorem segmentKind_name {segment : Text} :
    segmentKind segment = .name ↔
      segment ≠ [] ∧ segment ≠ ".".toList ∧ segment ≠ "..".toList := by
  unfold segmentKind
  by_cases hskipped : segment = [] ∨ segment = ".".toList
  · rw [if_pos hskipped]
    refine iff_of_false (by simp) ?_
    rintro ⟨hempty, hdot, -⟩
    exact hskipped.elim hempty hdot
  · rw [if_neg hskipped]
    by_cases hup : segment = "..".toList
    · rw [if_pos hup]
      exact iff_of_false (by simp) fun h => h.2.2 hup
    · rw [if_neg hup]
      exact iff_of_true rfl ⟨fun h => hskipped (.inl h), fun h => hskipped (.inr h), hup⟩

/-- The segments are names, but for an empty last one. -/
def NamedPath (rest : Text) : Prop :=
  ∃ names : List Text, (∀ t ∈ names, segmentKind t = .name) ∧
    (rest.splitOn '/' = names ∨ rest.splitOn '/' = names ++ [[]])

theorem namedPath_iff {rest : Text} :
    NamedPath rest ↔
      (∀ s ∈ rest.splitOn '/', s ≠ ".".toList ∧ s ≠ "..".toList) ∧
        ∀ s ∈ (rest.splitOn '/').dropLast, s ≠ [] := by
  constructor
  · rintro ⟨names, hnames, hsplit⟩
    have hname : ∀ s ∈ names, s ≠ [] ∧ s ≠ ".".toList ∧ s ≠ "..".toList :=
      fun s hs => segmentKind_name.1 (hnames s hs)
    rcases hsplit with hsplit | hsplit
    · rw [hsplit]
      exact ⟨fun s hs => (hname s hs).2, fun s hs => (hname s (List.dropLast_subset _ hs)).1⟩
    · rw [hsplit, List.dropLast_concat]
      refine ⟨?_, fun s hs => (hname s hs).1⟩
      intro s hs
      rcases List.mem_append.1 hs with hs | hs
      · exact (hname s hs).2
      · rw [List.mem_singleton.1 hs]
        decide
  · rintro ⟨hdots, hempty⟩
    have hlast := List.dropLast_append_getLast (List.splitOn_ne_nil '/' rest)
    have hfront : ∀ t ∈ (rest.splitOn '/').dropLast, segmentKind t = .name := fun t ht =>
      segmentKind_name.2 ⟨hempty t ht, hdots t (List.dropLast_subset _ ht)⟩
    by_cases hslash : (rest.splitOn '/').getLast (List.splitOn_ne_nil '/' rest) = []
    · exact ⟨_, hfront, .inr (by rw [← hslash, hlast])⟩
    · refine ⟨rest.splitOn '/', fun t ht => ?_, .inl rfl⟩
      rw [← hlast] at ht
      rcases List.mem_append.1 ht with ht | ht
      · exact hfront t ht
      · rw [List.mem_singleton.1 ht]
        exact segmentKind_name.2 ⟨hslash, hdots _ (List.getLast_mem _)⟩

/-- A named path is kept, segment by segment. -/
theorem cleanSegments_named {rest : Text} {names : List Text}
    (hnames : ∀ t ∈ names, segmentKind t = .name)
    (hsplit : rest.splitOn '/' = names ∨ rest.splitOn '/' = names ++ [[]]) :
    cleanSegments true rest = names := by
  have hkept : names.foldl (push segmentKind true) [] = names := foldl_names hnames []
  unfold cleanSegments resolve
  rcases hsplit with hsplit | hsplit
  · rw [hsplit, hkept]
  · have hempty : push segmentKind true names [] = names := push_skipped rfl
    rw [hsplit, List.foldl_append, hkept]
    exact hempty

theorem normalizedPath_iff {rest : Text} : normalizedPath ('/' :: rest) = true ↔ NamedPath rest := by
  have hclean : pathClean ('/' :: rest) = '/' :: ['/'].intercalate (cleanSegments true rest) := by
    have hrooted : isRooted ('/' :: rest) = true := rfl
    rw [pathClean_eq, hrooted, cleanSegments_slash]
    rfl
  have hproper : ∀ t ∈ cleanSegments true rest, t ≠ [] ∧ '/' ∉ t := fun t => cleanSegments_proper
  have hjoined := List.splitOn_intercalate '/' fun t ht => (hproper t ht).2
  unfold normalizedPath
  rw [if_neg (List.cons_ne_nil _ _), hclean]
  dsimp only
  rw [decide_eq_true_eq]
  constructor
  · intro h
    refine ⟨cleanSegments true rest, fun t => cleanSegments_names, ?_⟩
    split at h
    · next hslash =>
        -- the slash at the end was put back, which it is not on the root
        have hnames : cleanSegments true rest ≠ [] := fun hnil => hslash.2 (by rw [hnil]; rfl)
        have hrest : ['/'].intercalate (cleanSegments true rest) ++ ['/'] = rest :=
          (List.cons.inj h).2
        refine .inr ?_
        calc rest.splitOn '/'
            = (['/'].intercalate (cleanSegments true rest) ++ ['/']).splitOn '/' := by rw [hrest]
          _ = cleanSegments true rest ++ [[]] := by rw [splitOn_slash, hjoined hnames]
    · have hrest : ['/'].intercalate (cleanSegments true rest) = rest := (List.cons.inj h).2
      by_cases hnil : cleanSegments true rest = []
      · rw [hnil] at hrest ⊢
        exact .inr (by rw [← hrest]; rfl)
      · refine .inl ?_
        calc rest.splitOn '/'
            = (['/'].intercalate (cleanSegments true rest)).splitOn '/' := by rw [hrest]
          _ = cleanSegments true rest := hjoined hnil
  · rintro ⟨names, hnames, hsplit⟩
    rw [cleanSegments_named hnames hsplit] at hjoined hproper ⊢
    rcases hsplit with hsplit | hsplit
    · -- no name is empty, so there is no slash at the end
      have hrest : rest = ['/'].intercalate names := by
        rw [← hsplit, List.intercalate_splitOn]
      have hnone : ([] : Text) ∉ rest.splitOn '/' := by
        rw [hsplit]
        exact fun hmem => (hproper [] hmem).1 rfl
      have hlast : ('/' :: rest).getLast? ≠ some '/' := by
        intro hslash
        obtain ⟨front, heq⟩ := List.getLast?_eq_some_iff.1 hslash
        cases front with
        | nil =>
            obtain rfl := (List.cons.inj heq).2
            exact hnone (by simp)
        | cons c front =>
            have hend : rest = front ++ ['/'] := (List.cons.inj heq).2
            rw [hend, splitOn_slash] at hnone
            exact hnone (List.mem_append_right _ List.mem_cons_self)
      rw [if_neg fun h => hlast h.1, hrest]
    · -- an empty last segment is the slash at the end, or the root itself
      by_cases hnil : names = []
      · subst hnil
        have hrest : rest = [] := splitOn_inj hsplit
        rw [hrest, if_neg fun h => h.2 rfl]
        rfl
      · have hrest : rest = ['/'].intercalate names ++ ['/'] := by
          refine splitOn_inj ?_
          rw [hsplit, splitOn_slash, hjoined hnil]
        have hslash : ('/' :: rest).getLast? = some '/' := by
          rw [hrest, ← List.cons_append, List.getLast?_concat]
        have hmore : '/' :: ['/'].intercalate names ≠ "/".toList := fun heq =>
          hnil ((intercalate_head hproper).1.1 (List.cons.inj heq).2)
        rw [if_pos ⟨hslash, hmore⟩, hrest]
        rfl

/-- Cleaning a path twice is cleaning it once; the cleaned form is what removals end in, in whatever
order; and a rooted path is its own cleaned form when its segments are names, but for an empty last
one. -/
theorem path_clean_exact :
    (∀ p, pathClean (pathClean p) = pathClean p) ∧
      (∀ p, ∃ out, (∀ out', Cleaned segmentKind (isRooted p) (p.splitOn '/') out' ↔ out' = out) ∧
        pathClean p = pathText (isRooted p) out) ∧
      ∀ rest, normalizedPath ('/' :: rest) = true ↔
        (∀ s ∈ rest.splitOn '/', s ≠ ".".toList ∧ s ≠ "..".toList) ∧
          ∀ s ∈ (rest.splitOn '/').dropLast, s ≠ [] := by
  refine ⟨pathClean_idem, ?_, fun rest => normalizedPath_iff.trans namedPath_iff⟩
  intro p
  exact ⟨cleanSegments (isRooted p) p, fun out' => cleaned_iff, pathClean_eq p⟩

example : pathClean "../../a/./b/..//c/".toList = "../../a/c".toList := by decide

end FunctionWasm

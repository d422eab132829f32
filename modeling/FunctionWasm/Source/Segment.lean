import Mathlib.Computability.Language
import Mathlib.Data.List.TakeWhile
import FunctionWasm.Foundation.Checks
import FunctionWasm.Foundation.Machine
import FunctionWasm.Foundation.Utf8
import FunctionWasm.Source.Location

/-!
# Segment — the components of a repository's name

A component of a repository's name is recognized by hand, with a cursor over its bytes.

* `repositorySegments` is the grammar: runs of lowercase letters and digits with one separator
  between two of them.
* `SegmentScan.scan` is the recognizer, with every index into the bytes checked and every loop
  bounded.
* `repositorySegmentIsValid_iff` says that what is left of a component, taken apart character by
  character, is in the grammar; `SegmentScan.scan_textBytes` that the cursor takes it apart so.
* `segment_scan_exact` is the recognizer against the grammar.
-/

namespace FunctionWasm

open scoped Computability

/-! ## The grammar -/

/-- Runs of lowercase letters and digits. -/
def alnumRuns : Language Char :=
  {t | t ≠ [] ∧ ∀ c ∈ t, 'a' ≤ c ∧ c ≤ 'z' ∨ '0' ≤ c ∧ c ≤ '9'}

/-- `.`, `_`, `__` and one or more dashes. -/
def separators : Language Char :=
  {t | t = ['.'] ∨ t = ['_'] ∨ t = ['_', '_'] ∨ ∃ n, t = List.replicate (n + 1) '-'}

def repositorySegments : Language Char :=
  alnumRuns * (separators * alnumRuns)∗

theorem isAlnum_iff {c : Char} : isAlnum c = true ↔ 'a' ≤ c ∧ c ≤ 'z' ∨ '0' ≤ c ∧ c ≤ '9' := by
  unfold isAlnum Char.isDigit
  rw [Bool.or_eq_true, Unicode.isLower_iff, Bool.and_eq_true, decide_eq_true_eq, decide_eq_true_eq]
  exact Iff.rfl

theorem mem_alnumRuns {t : Text} : t ∈ alnumRuns ↔ t ≠ [] ∧ ∀ c ∈ t, isAlnum c = true := by
  simp only [isAlnum_iff]
  exact Iff.rfl

/-- What is read off as a run is one. -/
theorem alnumRun_sound {t rest : Text} (h : alnumRun t = some rest) :
    rest = t.dropWhile isAlnum ∧ ∃ run ∈ alnumRuns, t = run ++ rest := by
  cases t with
  | nil => cases h
  | cons c t =>
      simp only [alnumRun] at h
      split at h
      · next hc =>
          cases h
          refine ⟨(List.dropWhile_cons_of_pos hc).symm, c :: t.takeWhile isAlnum, ?_, by simp⟩
          refine mem_alnumRuns.2 ⟨List.cons_ne_nil _ _, ?_⟩
          intro d hd
          rcases List.mem_cons.1 hd with rfl | hd
          · exact hc
          · exact List.mem_takeWhile_imp hd
      · cases h

/-- A run is read off whole when what follows it is no letter and no digit. -/
theorem alnumRun_complete {run rest : Text} (hrun : run ∈ alnumRuns)
    (hrest : ∀ c ∈ rest.head?, isAlnum c = false) : alnumRun (run ++ rest) = some rest := by
  obtain ⟨hne, hall⟩ := mem_alnumRuns.1 hrun
  obtain ⟨c, run, rfl⟩ := List.exists_cons_of_ne_nil hne
  have hstop : rest.dropWhile isAlnum = rest := by
    cases rest with
    | nil => rfl
    | cons d rest => exact List.dropWhile_cons_of_neg (by simp [hrest d rfl])
  have hdrop : (run ++ rest).dropWhile isAlnum = rest := by
    rw [List.dropWhile_append_of_pos fun d hd => hall d (List.mem_cons_of_mem _ hd), hstop]
  simp only [List.cons_append, alnumRun, hall c List.mem_cons_self, if_true, hdrop]

theorem separator_sound {t rest : Text} (h : separator t = some rest) :
    ∃ sep ∈ separators, t = sep ++ rest := by
  unfold separator at h
  split at h
  · cases h
    exact ⟨['.'], .inl rfl, rfl⟩
  · cases h
    exact ⟨['_', '_'], .inr (.inr (.inl rfl)), rfl⟩
  · cases h
    exact ⟨['_'], .inr (.inl rfl), rfl⟩
  · next dashes =>
      cases h
      have hdashes : dashes.takeWhile (· = '-') =
          List.replicate (dashes.takeWhile (· = '-')).length '-' := by
        refine List.eq_replicate_of_mem fun c hc => ?_
        simpa using List.mem_takeWhile_imp hc
      have hsep : '-' :: dashes.takeWhile (· = '-') ∈ separators :=
        .inr (.inr (.inr ⟨(dashes.takeWhile (· = '-')).length, by
          rw [List.replicate_succ, ← hdashes]⟩))
      exact ⟨_, hsep, by simp⟩
  · cases h

/-- A separator is read off whole when a run follows it. -/
theorem separator_complete {sep rest : Text} (hsep : sep ∈ separators)
    (hrest : ∃ c tail, rest = c :: tail ∧ isAlnum c = true) :
    separator (sep ++ rest) = some rest := by
  obtain ⟨c, tail, rfl, hc⟩ := hrest
  have hunderscore : c ≠ '_' := by
    rintro rfl
    exact absurd hc (by decide)
  have hdash : c ≠ '-' := by
    rintro rfl
    exact absurd hc (by decide)
  rcases hsep with rfl | rfl | rfl | ⟨n, rfl⟩
  · rfl
  · simp [separator, hunderscore]
  · rfl
  · have hstop : (c :: tail).dropWhile (· = '-') = c :: tail :=
      List.dropWhile_cons_of_neg (by simp [hdash])
    have hdrop : (List.replicate n '-' ++ c :: tail).dropWhile (· = '-') = c :: tail := by
      rw [List.dropWhile_append_of_pos fun d hd => by simp [List.eq_of_mem_replicate hd], hstop]
    rw [List.replicate_succ, List.cons_append]
    exact congrArg some hdrop

/-- A separator and a run take something off the front. -/
theorem rest_shorter {t left rest : Text} (hseparator : separator t = some left)
    (hread : alnumRun left = some rest) : rest <:+ t ∧ rest.length < t.length := by
  obtain ⟨sep, -, rfl⟩ := separator_sound hseparator
  obtain ⟨-, run, hrun, rfl⟩ := alnumRun_sound hread
  have hpos := List.length_pos_of_ne_nil (mem_alnumRuns.1 hrun).1
  refine ⟨(List.suffix_append run rest).trans (List.suffix_append sep _), ?_⟩
  simp only [List.length_append]
  omega

/-- The rest of a segment is empty or a separator, a run and the rest. -/
theorem mem_segmentRest {t : Text} :
    t ∈ (separators * alnumRuns)∗ ↔
      t = [] ∨ ∃ sep ∈ separators, ∃ run ∈ alnumRuns, ∃ rest ∈ (separators * alnumRuns)∗,
        t = sep ++ (run ++ rest) := by
  rw [Language.mem_kstar]
  constructor
  · rintro ⟨pieces, rfl, hpieces⟩
    cases pieces with
    | nil => exact .inl rfl
    | cons piece pieces =>
        obtain ⟨hpiece, hrest⟩ := List.forall_mem_cons.1 hpieces
        obtain ⟨sep, hsep, run, hrun, rfl⟩ := Language.mem_mul.1 hpiece
        exact .inr ⟨sep, hsep, run, hrun, pieces.flatten, Language.join_mem_kstar hrest,
          List.append_assoc sep run _⟩
  · rintro (rfl | ⟨sep, hsep, run, hrun, rest, ⟨pieces, rfl, hpieces⟩, rfl⟩)
    · exact ⟨[], rfl, fun _ h => nomatch h⟩
    · refine ⟨(sep ++ run) :: pieces, (List.append_assoc sep run _).symm, ?_⟩
      exact List.forall_mem_cons.2 ⟨Language.append_mem_mul hsep hrun, hpieces⟩

/-- What may follow a run is no letter and no digit. -/
theorem head_segmentRest {t : Text} (h : t ∈ (separators * alnumRuns)∗) :
    ∀ c ∈ t.head?, isAlnum c = false := by
  rcases mem_segmentRest.1 h with rfl | ⟨sep, hsep, run, -, rest, -, rfl⟩
  · exact fun _ h => nomatch h
  · rcases hsep with rfl | rfl | rfl | ⟨n, rfl⟩
    all_goals simp [List.replicate_succ]; decide

theorem segmentTail_iff {n : Nat} {t : Text} (h : t.length ≤ n) :
    segmentTail n t = true ↔ t ∈ (separators * alnumRuns)∗ := by
  -- on the length: every round reads a separator and a run, neither of them empty
  induction n generalizing t with
  | zero =>
      rw [List.eq_nil_of_length_eq_zero (Nat.le_zero.1 h)]
      exact iff_of_true rfl (Language.nil_mem_kstar _)
  | succ n ih =>
      cases t with
      | nil => exact iff_of_true rfl (Language.nil_mem_kstar _)
      | cons c t =>
          rw [mem_segmentRest]
          constructor
          · intro htail
            simp only [segmentTail] at htail
            split at htail
            · cases htail
            next rest hseparator =>
            split at htail
            · cases htail
            next rest' hread =>
            obtain ⟨sep, hsep, heq⟩ := separator_sound hseparator
            obtain ⟨-, run, hrun, hrest⟩ := alnumRun_sound hread
            rw [hrest] at heq
            have hshorter : rest'.length ≤ n :=
              Nat.le_of_lt_succ (Nat.lt_of_lt_of_le (rest_shorter hseparator hread).2 h)
            exact .inr ⟨sep, hsep, run, hrun, rest', (ih hshorter).1 htail, heq⟩
          · rintro (hnil | ⟨sep, hsep, run, hrun, rest, hrest, heq⟩)
            · cases hnil
            obtain ⟨hne, hall⟩ := mem_alnumRuns.1 hrun
            have hshorter : rest.length ≤ n := by
              have hlength := congrArg List.length heq
              have hpos := List.length_pos_of_ne_nil hne
              simp at hlength h
              omega
            -- what follows the separator is of the alphabet, so it reads no further
            have hstart : ∃ d tail, run ++ rest = d :: tail ∧ isAlnum d = true := by
              obtain ⟨d, run, rfl⟩ := List.exists_cons_of_ne_nil hne
              exact ⟨d, run ++ rest, rfl, hall d List.mem_cons_self⟩
            rw [segmentTail, heq, separator_complete hsep hstart]
            · simp only [alnumRun_complete hrun (head_segmentRest hrest)]
              exact (ih hshorter).2 hrest
            · exact fun hnil => nomatch hnil

/-- The recognizer, character by character, and the grammar. -/
theorem repositorySegmentIsValid_iff {s : Text} :
    repositorySegmentIsValid s = true ↔ s ∈ repositorySegments := by
  unfold repositorySegmentIsValid repositorySegments
  rw [Language.mem_mul]
  constructor
  · intro h
    split at h
    · cases h
    next rest hread =>
    obtain ⟨-, run, hrun, heq⟩ := alnumRun_sound hread
    exact ⟨run, hrun, rest, (segmentTail_iff (by simp [heq])).1 h, heq.symm⟩
  · rintro ⟨run, hrun, rest, hrest, rfl⟩
    rw [alnumRun_complete hrun (head_segmentRest hrest)]
    exact (segmentTail_iff (by simp)).2 hrest

/-! ## The cursor -/

namespace SegmentScan

/-- `b[i]`, which panics past the end. -/
def byteAt (b : Bytes) (i : Nat) : Checked UInt8 :=
  match b[i]? with
  | some c => .ok c
  | none => .error .outOfRange

/-- `alnum`, of one byte. -/
def alnum (c : UInt8) : Bool := (97 ≤ c && c ≤ 122) || (48 ≤ c && c ≤ 57)

/-- `while i < b.len() && p(b[i])`, which moves the cursor on by one; in so many rounds. -/
def skipWhile (b : Bytes) (p : UInt8 → Bool) : Nat → Nat → Checked Nat
  | 0, _ => .error .diverges
  | rounds + 1, i =>
      if i < b.length then do
        if p (← byteAt b i) then skipWhile b p rounds (i + 1) else return i
      else return i

/-- `run`: where the cursor stops, and whether it has moved. -/
def run (b : Bytes) (i : Nat) : Checked (Nat × Bool) := do
  let stop ← skipWhile b alnum (b.length + 1) i
  return (stop, i < stop)

/-- The cursor after a separator; none where there is no separator. -/
def separator (b : Bytes) (i : Nat) : Checked (Option Nat) := do
  let c ← byteAt b i
  if c = 46 then return some (i + 1)
  else if c = 95 then
    if i + 1 < b.length then
      if (← byteAt b (i + 1)) = 95 then return some (i + 2) else return some (i + 1)
    else return some (i + 1)
  else if c = 45 then return some (← skipWhile b (· = 45) (b.length + 1) i)
  else return none

/-- One round of the scan: a separator and a run. -/
def round (b : Bytes) (i : Nat) : Checked (Option Nat) := do
  match ← separator b i with
  | none => return none
  | some i =>
      let (stop, moved) ← run b i
      return if moved then some stop else none

def rounds (b : Bytes) : Nat → Nat → Checked Bool
  | 0, _ => .error .diverges
  | n + 1, i =>
      if i < b.length then do
        match ← round b i with
        | none => return false
        | some i => rounds b n i
      else return true

/-- `repository_segment_is_valid` on the bytes of a component. -/
def scan (b : Bytes) : Checked Bool := do
  let (i, moved) ← run b 0
  if moved then rounds b (b.length + 1) i else return false

/-! ## What any bytes do -/

theorem byteAt_of_lt {b : Bytes} {i : Nat} (h : i < b.length) : byteAt b i = .ok b[i] := by
  unfold byteAt
  rw [List.getElem?_eq_getElem h]

/-- A loop over the bytes stays within them and ends, given rounds for each that is left. -/
theorem skipWhile_bounds {b : Bytes} {p : UInt8 → Bool} {n i : Nat} (hi : i ≤ b.length)
    (hn : b.length - i < n) : ∃ j, skipWhile b p n i = .ok j ∧ i ≤ j ∧ j ≤ b.length := by
  induction n generalizing i with
  | zero => omega
  | succ n ih =>
      unfold skipWhile
      by_cases hlt : i < b.length
      · rw [if_pos hlt, byteAt_of_lt hlt, ok_bind]
        split
        · obtain ⟨j, hj, hle, hbound⟩ := ih (i := i + 1) hlt (by omega)
          exact ⟨j, hj, by omega, hbound⟩
        · exact ⟨i, rfl, Nat.le_refl i, hi⟩
      · rw [if_neg hlt]
        exact ⟨i, rfl, Nat.le_refl i, hi⟩

theorem run_bounds {b : Bytes} {i : Nat} (hi : i ≤ b.length) :
    ∃ j, run b i = .ok (j, decide (i < j)) ∧ i ≤ j ∧ j ≤ b.length := by
  obtain ⟨j, hj, hbounds⟩ := skipWhile_bounds (p := alnum) (n := b.length + 1) hi (by omega)
  exact ⟨j, by rw [run, hj]; rfl, hbounds⟩

/-- A separator takes at least one byte, and only bytes that are there. -/
theorem separator_bounds {b : Bytes} {i : Nat} (hi : i < b.length) :
    ∃ next, separator b i = .ok next ∧ ∀ j ∈ next, i < j ∧ j ≤ b.length := by
  unfold separator
  rw [byteAt_of_lt hi, ok_bind]
  split
  · exact ⟨some (i + 1), rfl, fun j hj => by cases hj; omega⟩
  split
  · split
    · next hnext =>
        rw [byteAt_of_lt hnext, ok_bind]
        split
        · exact ⟨some (i + 2), rfl, fun j hj => by cases hj; omega⟩
        · exact ⟨some (i + 1), rfl, fun j hj => by cases hj; omega⟩
    · exact ⟨some (i + 1), rfl, fun j hj => by cases hj; omega⟩
  split
  · next hdash =>
      -- the first round of the loop takes the dash that was read
      have hfirst : skipWhile b (· = 45) (b.length + 1) i =
          skipWhile b (· = 45) b.length (i + 1) := by
        rw [skipWhile, if_pos hi, byteAt_of_lt hi, ok_bind, if_pos (decide_eq_true hdash)]
      obtain ⟨j, hj, hle, hbound⟩ := skipWhile_bounds (p := (· = 45)) (n := b.length) hi (by omega)
      refine ⟨some j, ?_, ?_⟩
      · rw [hfirst, hj]
        rfl
      · rintro k hk
        cases hk
        omega
  · exact ⟨none, rfl, fun j hj => nomatch hj⟩

/-- Every round ends, indexes only bytes that are there and moves the cursor on. -/
theorem round_bounds {b : Bytes} {i : Nat} (hi : i < b.length) :
    ∃ next, round b i = .ok next ∧ ∀ j ∈ next, i < j ∧ j ≤ b.length := by
  obtain ⟨next, hnext, hbounds⟩ := separator_bounds hi
  unfold round
  rw [hnext, ok_bind]
  cases next with
  | none => exact ⟨none, rfl, fun j hj => nomatch hj⟩
  | some k =>
      have hk := hbounds k rfl
      obtain ⟨stop, hrun, hle, hstop⟩ := run_bounds hk.2
      dsimp only
      rw [hrun, ok_bind]
      refine ⟨_, rfl, ?_⟩
      intro j hj
      split at hj
      · cases hj
        omega
      · cases hj

/-! ## What text does -/

/-- Where the rest of a text starts in its bytes. -/
def cursor (s rest : Text) : Nat := (textBytes s).length - (textBytes rest).length

theorem cursor_append (front rest : Text) :
    cursor (front ++ rest) rest = (textBytes front).length := by
  unfold cursor
  rw [textBytes_append, List.length_append]
  omega

/-- A test of a byte that only ASCII characters pass, and each as it should. -/
def Reads (p : UInt8 → Bool) (q : Char → Bool) : Prop :=
  ∀ c : Char, p (leadByte c) = q c ∧ (q c = true → c.toNat < 0x80)

theorem reads_of_ascii {p : UInt8 → Bool} {q : Char → Bool}
    (hsmall : ∀ c : Char, c.toNat < 0x80 → p (UInt8.ofNat c.toNat) = q c)
    (hlarge : ∀ b : UInt8, 0x80 ≤ b.toNat → p b = false)
    (hascii : ∀ c : Char, q c = true → c.toNat < 0x80) : Reads p q := by
  intro c
  refine ⟨?_, hascii c⟩
  by_cases hc : c.toNat < 0x80
  · rw [(leadByte_ascii hc).1, hsmall c hc]
  · have hfalse : q c = false := Bool.eq_false_iff.2 fun hq => hc (hascii c hq)
    rw [hfalse, hlarge _ (leadByte_large (Nat.not_lt.1 hc))]

theorem isAlnum_iff_toNat {c : Char} :
    isAlnum c = true ↔ 97 ≤ c.toNat ∧ c.toNat ≤ 122 ∨ 48 ≤ c.toNat ∧ c.toNat ≤ 57 :=
  isAlnum_iff

theorem alnum_iff {b : UInt8} :
    alnum b = true ↔ 97 ≤ b.toNat ∧ b.toNat ≤ 122 ∨ 48 ≤ b.toNat ∧ b.toNat ≤ 57 := by
  simp [alnum, UInt8.le_iff_toNat_le]

theorem toNat_ofNat_ascii {n : Nat} (h : n < 0x80) : (UInt8.ofNat n).toNat = n := by
  simp
  omega

theorem reads_alnum : Reads alnum isAlnum := by
  refine reads_of_ascii ?_ ?_ ?_
  · intro c hc
    rw [Bool.eq_iff_iff, alnum_iff, isAlnum_iff_toNat, toNat_ofNat_ascii hc]
  · intro b hb
    rw [← Bool.not_eq_true, alnum_iff]
    omega
  · intro c hc
    rw [isAlnum_iff_toNat] at hc
    omega

theorem reads_char {d : Char} (hd : d.toNat < 0x80) :
    Reads (· = UInt8.ofNat d.toNat) (· = d) := by
  refine reads_of_ascii ?_ ?_ ?_
  · intro c hc
    rw [Bool.eq_iff_iff, decide_eq_true_eq, decide_eq_true_eq, ← UInt8.toNat_inj,
      toNat_ofNat_ascii hc, toNat_ofNat_ascii hd]
    exact Char.toNat_inj
  · intro b hb
    rw [decide_eq_false_iff_not, ← UInt8.toNat_inj, toNat_ofNat_ascii hd]
    omega
  · intro c hc
    rw [of_decide_eq_true hc]
    exact hd

theorem leadByte_eq_iff {c d : Char} (hd : d.toNat < 0x80) :
    leadByte c = UInt8.ofNat d.toNat ↔ c = d :=
  decide_eq_decide.1 (reads_char hd c).1

/-- The byte at the cursor is the first one of the rest. -/
theorem byteAt_cursor {s rest : Text} {c : Char} (h : c :: rest <:+ s) :
    cursor s (c :: rest) < (textBytes s).length ∧
      byteAt (textBytes s) (cursor s (c :: rest)) = .ok (leadByte c) := by
  obtain ⟨front, rfl⟩ := h
  rw [cursor_append, textBytes_append, textBytes_cons]
  refine ⟨by simp, ?_⟩
  simp [byteAt]

/-- An ASCII character moves the cursor by one. -/
theorem cursor_ascii {s rest : Text} {c : Char} (h : c :: rest <:+ s) (hc : c.toNat < 0x80) :
    cursor s rest = cursor s (c :: rest) + 1 := by
  obtain ⟨front, rfl⟩ := h
  have hsplit : front ++ c :: rest = (front ++ [c]) ++ rest := by simp
  have hone : textBytes [c] = [leadByte c] := by
    simpa [textBytes] using (leadByte_ascii hc).2
  rw [cursor_append, hsplit, cursor_append, textBytes_append, hone]
  simp

theorem cursor_nil (s : Text) : cursor s [] = (textBytes s).length := rfl

theorem skipWhile_cursor {p : UInt8 → Bool} {q : Char → Bool} (hpq : Reads p q) {s rest : Text}
    (h : rest <:+ s) {n : Nat} (hn : rest.length < n) :
    skipWhile (textBytes s) p n (cursor s rest) = .ok (cursor s (rest.dropWhile q)) := by
  induction rest generalizing n with
  | nil =>
      obtain ⟨n, rfl⟩ := Nat.exists_eq_add_one_of_ne_zero (Nat.ne_of_gt hn)
      rw [skipWhile, cursor_nil, if_neg (Nat.lt_irrefl _)]
      rfl
  | cons c rest ih =>
      obtain ⟨n, rfl⟩ := Nat.exists_eq_add_one_of_ne_zero (Nat.ne_of_gt (Nat.zero_lt_of_lt hn))
      obtain ⟨hlt, hbyte⟩ := byteAt_cursor h
      rw [skipWhile, if_pos hlt, hbyte, ok_bind, (hpq c).1]
      cases hq : q c with
      | true =>
          have hrest : rest <:+ s := (List.suffix_cons c rest).trans h
          rw [if_pos rfl, ← cursor_ascii h ((hpq c).2 hq), ih hrest (by simpa using hn),
            List.dropWhile_cons_of_pos hq]
      | false =>
          rw [if_neg Bool.false_ne_true, List.dropWhile_cons_of_neg (by simp [hq])]
          rfl

theorem length_le_bytes (t : Text) : t.length ≤ (textBytes t).length := by
  induction t with
  | nil => exact Nat.le_refl 0
  | cons c t ih =>
      rw [textBytes_cons]
      simp
      omega

theorem suffix_length_le {s rest : Text} (h : rest <:+ s) :
    rest.length ≤ (textBytes s).length :=
  Nat.le_trans h.length_le (length_le_bytes s)

theorem cursor_mono {s rest : Text} {c : Char} (h : c :: rest <:+ s) {t : Text}
    (ht : t <:+ rest) : cursor s (c :: rest) < cursor s t := by
  obtain ⟨middle, rfl⟩ := ht
  obtain ⟨front, rfl⟩ := h
  have hsplit : front ++ c :: (middle ++ t) = (front ++ c :: middle) ++ t := by simp
  rw [cursor_append, hsplit, cursor_append, textBytes_append, textBytes_cons]
  simp

/-- The cursor moves when there is a run, and to its end. -/
theorem run_cursor {s rest : Text} (h : rest <:+ s) :
    run (textBytes s) (cursor s rest) =
      .ok (cursor s (rest.dropWhile isAlnum), (alnumRun rest).isSome) := by
  have hrounds := Nat.lt_succ_of_le (suffix_length_le h)
  rw [run, skipWhile_cursor reads_alnum h hrounds]
  refine congrArg (fun moved => Except.ok (_, moved)) ?_
  cases rest with
  | nil => simp [alnumRun]
  | cons c rest =>
      cases hc : isAlnum c with
      | true =>
          rw [List.dropWhile_cons_of_pos hc, alnumRun, if_pos hc]
          exact decide_eq_true (cursor_mono h (List.dropWhile_suffix _))
      | false =>
          rw [List.dropWhile_cons_of_neg (by simp [hc]), alnumRun, if_neg (by simp [hc])]
          exact decide_eq_false (Nat.lt_irrefl _)

theorem separator_cursor {s rest : Text} {c : Char} (h : c :: rest <:+ s) :
    separator (textBytes s) (cursor s (c :: rest)) =
      .ok ((FunctionWasm.separator (c :: rest)).map (cursor s)) := by
  obtain ⟨hlt, hbyte⟩ := byteAt_cursor h
  have hrest : rest <:+ s := (List.suffix_cons c rest).trans h
  have hunderscore : ∀ d : Char, leadByte d = 95 ↔ d = '_' :=
    fun d => leadByte_eq_iff (d := '_') (by decide)
  have hstep : c.toNat < 0x80 → cursor s (c :: rest) + 1 = cursor s rest :=
    fun hc => (cursor_ascii h hc).symm
  rw [separator, hbyte, ok_bind]
  -- a dot, one or two underscores, any number of dashes
  by_cases hdot : c = '.'
  · have hbyte : leadByte c = 46 := (leadByte_eq_iff (d := '.') (by decide)).2 hdot
    subst hdot
    rw [if_pos hbyte, hstep (by decide)]
    rfl
  have hnodot : leadByte c ≠ 46 := fun hc => hdot ((leadByte_eq_iff (d := '.') (by decide)).1 hc)
  rw [if_neg hnodot]
  by_cases hone : c = '_'
  · rw [if_pos ((hunderscore c).2 hone)]
    subst hone
    rw [hstep (by decide)]
    cases rest with
    | nil =>
        rw [cursor_nil, if_neg (Nat.lt_irrefl _)]
        rfl
    | cons d rest =>
        obtain ⟨hlt', hbyte'⟩ := byteAt_cursor hrest
        rw [if_pos hlt', hbyte', ok_bind]
        by_cases htwo : d = '_'
        · subst htwo
          have hfirst := cursor_ascii h (by decide)
          have hsecond := cursor_ascii hrest (by decide)
          rw [if_pos ((hunderscore '_').2 rfl)]
          exact congrArg (fun i => Except.ok (some i)) (by omega)
        · rw [if_neg (fun hd => htwo ((hunderscore d).1 hd))]
          -- one underscore, and what follows it stays
          have hread : FunctionWasm.separator ('_' :: d :: rest) = some (d :: rest) := by
            simp [FunctionWasm.separator, htwo]
          rw [hread]
          rfl
  rw [if_neg fun hc => hone ((hunderscore c).1 hc)]
  by_cases hdash : c = '-'
  · have hbyte : leadByte c = 45 := (leadByte_eq_iff (d := '-') (by decide)).2 hdash
    -- a dash takes no more rounds than there are characters left
    have hrounds := Nat.lt_succ_of_le (suffix_length_le h)
    have hreads : Reads (· = 45) (· = '-') := reads_char (d := '-') (by decide)
    rw [if_pos hbyte, skipWhile_cursor hreads h hrounds]
    subst hdash
    rfl
  · have hnodash : leadByte c ≠ 45 :=
      fun hc => hdash ((leadByte_eq_iff (d := '-') (by decide)).1 hc)
    have hnone : FunctionWasm.separator (c :: rest) = none := by
      simp [FunctionWasm.separator, hdot, hone, hdash]
    rw [if_neg hnodash, hnone]
    rfl

theorem round_cursor {s rest : Text} {c : Char} (h : c :: rest <:+ s) :
    round (textBytes s) (cursor s (c :: rest)) =
      .ok (((FunctionWasm.separator (c :: rest)).bind alnumRun).map (cursor s)) := by
  rw [round, separator_cursor h, ok_bind]
  cases hsep : FunctionWasm.separator (c :: rest) with
  | none => rfl
  | some left =>
      obtain ⟨sep, -, heq⟩ := separator_sound hsep
      have hleft : left <:+ s := (List.suffix_append sep left).trans (heq ▸ h)
      simp only [Option.map_some, Option.bind_some]
      rw [run_cursor hleft, ok_bind]
      cases hrun : alnumRun left with
      | none => rfl
      | some rest' =>
          rw [(alnumRun_sound hrun).1]
          rfl

theorem rounds_cursor {s rest : Text} (h : rest <:+ s) {n : Nat} (hn : rest.length ≤ n) :
    rounds (textBytes s) (n + 1) (cursor s rest) = .ok (segmentTail n rest) := by
  induction n generalizing rest with
  | zero =>
      obtain rfl := List.eq_nil_of_length_eq_zero (Nat.le_zero.1 hn)
      rw [rounds, cursor_nil, if_neg (Nat.lt_irrefl _)]
      rfl
  | succ n ih =>
      cases rest with
      | nil =>
          rw [rounds, cursor_nil, if_neg (Nat.lt_irrefl _)]
          rfl
      | cons c rest =>
          rw [rounds, if_pos (byteAt_cursor h).1, round_cursor h, ok_bind, segmentTail]
          · cases hsep : FunctionWasm.separator (c :: rest) with
            | none => rfl
            | some left =>
                cases hrun : alnumRun left with
                | none =>
                    simp only [Option.bind_some, hrun]
                    rfl
                | some rest' =>
                    obtain ⟨hsuffix, hshorter⟩ := rest_shorter hsep hrun
                    simp only [Option.bind_some, hrun]
                    exact ih (hsuffix.trans h) (Nat.le_of_lt_succ (Nat.lt_of_lt_of_le hshorter hn))
          · exact fun hnil => nomatch hnil

/-- On text the recognizer answers, and as the model without a cursor does. -/
theorem scan_textBytes (s : Text) : scan (textBytes s) = .ok (repositorySegmentIsValid s) := by
  have hstart : cursor s s = 0 := Nat.sub_self _
  have hrun := run_cursor (List.suffix_refl s)
  rw [hstart] at hrun
  rw [scan, hrun, ok_bind, repositorySegmentIsValid]
  cases hread : alnumRun s with
  | none => rfl
  | some rest =>
      obtain ⟨hdrop, run, -, hsplit⟩ := alnumRun_sound hread
      have hrest : rest <:+ s := ⟨run, hsplit.symm⟩
      have hrounds := rounds_cursor hrest (suffix_length_le hrest)
      -- the two bounds on the rounds come to the same
      have hsame : segmentTail (textBytes s).length rest = segmentTail s.length rest := by
        rw [Bool.eq_iff_iff, segmentTail_iff (suffix_length_le hrest),
          segmentTail_iff hrest.length_le]
      rw [hdrop] at hrounds hsame ⊢
      exact hrounds.trans (congrArg Except.ok hsame)

/-- The recognizer accepts the grammar; it indexes no byte that is not there, and every round of it
moves the cursor on. -/
theorem segment_scan_exact (s : Text) :
    (∃ valid, scan (textBytes s) = .ok valid ∧ (valid = true ↔ s ∈ repositorySegments)) ∧
      ∀ i < (textBytes s).length, ∃ next, round (textBytes s) i = .ok next ∧
        ∀ j ∈ next, i < j ∧ j ≤ (textBytes s).length :=
  ⟨⟨_, scan_textBytes s, repositorySegmentIsValid_iff⟩, fun _ hi => round_bounds hi⟩

/-- The round after the first letter of `a-b` takes the dash and the other letter. -/
theorem segment_scan_sample :
    round (textBytes "a-b".toList) 1 = .ok (some 3) ∧ 1 < 3 ∧ 3 ≤ (textBytes "a-b".toList).length := by
  obtain ⟨next, hnext, hbounds⟩ := (segment_scan_exact "a-b".toList).2 1 (by decide)
  have hround : round (textBytes "a-b".toList) 1 = .ok (some 3) := by decide
  rw [hround] at hnext
  obtain rfl := Except.ok.inj hnext
  exact ⟨hround, hbounds 3 rfl⟩

end SegmentScan

end FunctionWasm

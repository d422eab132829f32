import FunctionWasm.Foundation.Text

/-!
# Unicode — lower case and the quoted form of a text

Lower case is character by character, but for a capital sigma, whose lower case depends on whether
it ends its word.

* `toLowercase` is `str::to_lowercase` over the tables of `UnicodeTables`.
* `mem_toLowercase` says that it neither makes nor takes ASCII characters that are not letters.

The tables and the quoting are a library; its laws are what Unicode states of ASCII characters.
-/

namespace FunctionWasm

def isAscii (c : Char) : Bool := c.toNat < 128

class UnicodeTables where
  /-- `char::to_lowercase`. -/
  lowerChar : Char → Text
  cased : Char → Bool
  caseIgnorable : Char → Bool
  /-- `{:?}` of a string. -/
  debug : Text → Text
  lowerChar_ascii : ∀ c, isAscii c → lowerChar c = [c.toLower]
  lowerChar_ne_nil : ∀ c, lowerChar c ≠ []
  /-- What is not ASCII has no ASCII in its lower case but letters. -/
  lowerChar_other : ∀ c, isAscii c = false → ∀ d ∈ lowerChar c, isAscii d → d.isAlpha

namespace Unicode

open UnicodeTables

variable [UnicodeTables]

def capitalSigma : Char := 'Σ'

/-- Whether a capital sigma between `before` and `after` ends its word. -/
def finalSigma (before after : Text) : Bool :=
  ((before.reverse.dropWhile caseIgnorable).head?.any cased) &&
    !((after.dropWhile caseIgnorable).head?.any cased)

/-- One character in its place. -/
def lowerIn (before : Text) (c : Char) (after : Text) : Text :=
  if c = capitalSigma then [if finalSigma before after then 'ς' else 'σ'] else lowerChar c

def lowerFrom (before : Text) : Text → Text
  | [] => []
  | c :: after => lowerIn before c after ++ lowerFrom (before ++ [c]) after

/-- `str::to_lowercase`. -/
def toLowercase (t : Text) : Text := lowerFrom [] t

/-! ## ASCII characters that are not letters -/

/-- A character that lower case neither makes nor takes. -/
def isMark (c : Char) : Bool := isAscii c && !c.isAlpha

omit [UnicodeTables] in
theorem isAlpha_eq (c : Char) : c.isAlpha = (c.isUpper || c.isLower) := rfl

omit [UnicodeTables] in
theorem isUpper_iff {c : Char} : c.isUpper = true ↔ 'A'.val ≤ c.val ∧ c.val ≤ 'Z'.val := by
  show decide _ = true ↔ _
  rw [decide_eq_true_eq]

omit [UnicodeTables] in
theorem isLower_iff {c : Char} : c.isLower = true ↔ 'a'.val ≤ c.val ∧ c.val ≤ 'z'.val := by
  show (decide _ && decide _) = true ↔ _
  rw [Bool.and_eq_true, decide_eq_true_eq, decide_eq_true_eq]

omit [UnicodeTables] in
theorem toLower_eq_self {c : Char} (h : c.isAlpha = false) : c.toLower = c := by
  have hupper : ¬ c.isUpper = true := by
    intro hupper
    simp [isAlpha_eq, hupper] at h
  rw [isUpper_iff] at hupper
  unfold Char.toLower
  split
  · next hrange => exact absurd ⟨hrange.1, hrange.2⟩ hupper
  · rfl

omit [UnicodeTables] in
theorem isAlpha_iff {c : Char} : c.isAlpha = true ↔
    (65 ≤ c.toNat ∧ c.toNat ≤ 90) ∨ (97 ≤ c.toNat ∧ c.toNat ≤ 122) := by
  simp only [isAlpha_eq, Bool.or_eq_true, isUpper_iff, isLower_iff, UInt32.le_iff_toNat_le]
  exact Iff.rfl

omit [UnicodeTables] in
theorem isAscii_of_isAlpha {c : Char} (h : c.isAlpha = true) : isAscii c = true := by
  have hrange := isAlpha_iff.1 h
  simp only [isAscii, decide_eq_true_eq]
  omega

omit [UnicodeTables] in
theorem isAlpha_toLower {c : Char} (h : c.isAlpha = true) : c.toLower.isAlpha = true := by
  unfold Char.toLower
  split
  · next hrange =>
      have hlo : 65 ≤ c.val.toNat := UInt32.le_iff_toNat_le.1 hrange.1
      have hhi : c.val.toNat ≤ 90 := UInt32.le_iff_toNat_le.1 hrange.2
      have hval : (c.val + ('a'.val - 'A'.val)).toNat = c.val.toNat + 32 := by
        have hgap : ('a'.val - 'A'.val).toNat = 32 := rfl
        rw [UInt32.toNat_add, hgap]
        exact Nat.mod_eq_of_lt (by omega)
      -- a capital is moved onto the small letters
      rw [isAlpha_iff]
      refine .inr ?_
      show 97 ≤ (c.val + ('a'.val - 'A'.val)).toNat ∧ (c.val + ('a'.val - 'A'.val)).toNat ≤ 122
      omega
  · exact h

omit [UnicodeTables] in
theorem toLower_eq_mark {c d : Char} (hd : isMark d = true) : c.toLower = d ↔ c = d := by
  simp only [isMark, Bool.and_eq_true, Bool.not_eq_true'] at hd
  by_cases hc : c.isAlpha = true
  · -- a letter stays a letter
    have hlower := isAlpha_toLower hc
    constructor
    · rintro rfl
      simp [hd.2] at hlower
    · rintro rfl
      simp [hd.2] at hc
  · rw [toLower_eq_self (by simpa using hc)]

theorem count_lowerIn {c d : Char} {before after : Text} (hd : isMark d = true) :
    (lowerIn before c after).count d = if c = d then 1 else 0 := by
  have hmark := hd
  simp only [isMark, Bool.and_eq_true, Bool.not_eq_true'] at hmark
  have hsigma : ∀ s : Char, isAscii s = false → s ≠ d := by
    rintro s hs rfl
    simp [hs] at hmark
  unfold lowerIn
  split
  · next hc =>
      subst hc
      have hlower : (if finalSigma before after then 'ς' else 'σ') ≠ d := by
        split <;> exact hsigma _ (by decide)
      rw [List.count_singleton, if_neg (by simpa using hlower),
        if_neg (hsigma capitalSigma (by decide))]
  · by_cases hc : isAscii c = true
    · rw [lowerChar_ascii c hc, List.count_singleton]
      simp [toLower_eq_mark hd]
    · have hother : d ∉ lowerChar c := by
        intro hmem
        have halpha := lowerChar_other c (by simpa using hc) d hmem hmark.1
        simp [hmark.2] at halpha
      have hne : c ≠ d := by
        rintro rfl
        exact hc hmark.1
      rw [List.count_eq_zero_of_not_mem hother, if_neg hne]

theorem count_lowerFrom {d : Char} (hd : isMark d = true) (before t : Text) :
    (lowerFrom before t).count d = t.count d := by
  induction t generalizing before with
  | nil => rfl
  | cons c after ih =>
      rw [lowerFrom, List.count_append, ih, count_lowerIn hd, List.count_cons]
      simp [Nat.add_comm]

theorem count_toLowercase {d : Char} (hd : isMark d = true) (t : Text) :
    (toLowercase t).count d = t.count d :=
  count_lowerFrom hd [] t

theorem mem_toLowercase {d : Char} (hd : isMark d = true) {t : Text} :
    d ∈ toLowercase t ↔ d ∈ t := by
  rw [← List.count_pos_iff, ← List.count_pos_iff, count_toLowercase hd]

theorem toLowercase_eq_nil {t : Text} : toLowercase t = [] ↔ t = [] := by
  cases t with
  | nil => simp [toLowercase, lowerFrom]
  | cons c after =>
      have hne : lowerIn [] c after ≠ [] := by
        unfold lowerIn
        split
        · simp
        · exact lowerChar_ne_nil c
      simp [toLowercase, lowerFrom, hne]

end Unicode

/-- Tables that know ASCII only: every other character is its own lower case. -/
@[reducible] def asciiTables : UnicodeTables where
  lowerChar c := [c.toLower]
  cased := Char.isAlpha
  caseIgnorable _ := false
  debug t := "\"".toList ++ t ++ "\"".toList
  lowerChar_ascii _ _ := rfl
  lowerChar_ne_nil _ := by simp
  lowerChar_other c hc d hd hascii := by
    rcases Bool.eq_false_or_eq_true c.isAlpha with halpha | halpha
    · simp [Unicode.isAscii_of_isAlpha halpha] at hc
    · rw [Unicode.toLower_eq_self halpha, List.mem_singleton] at hd
      simp [hd, hc] at hascii

end FunctionWasm

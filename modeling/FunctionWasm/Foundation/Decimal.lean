import Mathlib.Algebra.Order.Floor.Semifield
import Mathlib.Data.Rat.Floor
import FunctionWasm.Foundation.Machine
import FunctionWasm.Foundation.Text

/-!
# Decimal — decimal numbers in text and how machine words scale them

A number with a fraction is scaled by a whole unit in words of 128 bits: its digits after the point
are read as an integer, multiplied by the unit and divided by the power of ten.

* `readWord` reads an unsigned integer below a bound.
* `Numeral` is such a number as it is written, `Numeral.value` what it stands for.
* `Numeral.scale` is the computation, with the rounding of the division as a parameter.
* `Numeral.scale_of_fits` says what comes of it, `Numeral.scale_overflows` when a word is left;
  `Numeral.floor_value_mul` and `Numeral.ceil_value_mul` that this is the exact product, rounded.
-/

namespace FunctionWasm

/-! ## Integers -/

def digitsValue (t : Text) : Nat :=
  Nat.ofDigitChars 10 t 0

def stripPlus : Text → Text
  | '+' :: rest => rest
  | t => t

/-- `str::parse` of an unsigned integer type, which takes a plus sign before the digits. -/
def readWord (bound : Nat) (t : Text) : Option Nat :=
  let digits := stripPlus t
  if digits ≠ [] ∧ digits.all Char.isDigit ∧ digitsValue digits < bound then
    some (digitsValue digits)
  else none

def decimalText (n : Nat) : Text :=
  Nat.toDigits 10 n

theorem toString_decimal (n : Nat) : (toString n).toList = decimalText n :=
  Nat.toList_repr

theorem decimalText_digit {n : Nat} {c : Char} (hc : c ∈ decimalText n) : c.isDigit = true :=
  Nat.isDigit_of_mem_toDigits (by decide) (by decide) hc

theorem decimalText_ne_nil (n : Nat) : decimalText n ≠ [] :=
  Nat.toDigits_ne_nil

theorem digitsValue_decimalText (n : Nat) : digitsValue (decimalText n) = n :=
  Nat.ofDigitChars_ten_toDigits

theorem digitsValue_append (s t : Text) :
    digitsValue (s ++ t) = 10 ^ t.length * digitsValue s + digitsValue t := by
  unfold digitsValue
  rw [Nat.ofDigitChars_append, Nat.ofDigitChars_eq_ofDigitChars_zero]

theorem stripPlus_digits {t : Text} (h : ∀ c ∈ t, c.isDigit = true) : stripPlus t = t := by
  unfold stripPlus
  split
  · next rest => exact absurd (h '+' (by simp)) (by decide)
  · rfl

/-- Without a sign the digits are all that is read. -/
theorem readWord_digits {bound : Nat} {t : Text} (hne : t ≠ []) (h : ∀ c ∈ t, c.isDigit = true)
    (hlt : digitsValue t < bound) : readWord bound t = some (digitsValue t) := by
  unfold readWord
  rw [stripPlus_digits h]
  exact if_pos ⟨hne, List.all_eq_true.2 h, hlt⟩

theorem readWord_lt {bound n : Nat} {t : Text} (h : readWord bound t = some n) : n < bound := by
  unfold readWord at h
  dsimp only at h
  split at h
  · next hread =>
      cases h
      exact hread.2.2
  · cases h

theorem readWord_decimalText {bound n : Nat} (h : n < bound) :
    readWord bound (decimalText n) = some n := by
  have hvalue : digitsValue (decimalText n) = n := digitsValue_decimalText n
  have hread := readWord_digits (decimalText_ne_nil n) (fun _ => decimalText_digit)
    (hvalue.symm ▸ h)
  rwa [hvalue] at hread

theorem readWord_decimalText_of_le {bound n : Nat} (h : bound ≤ n) :
    readWord bound (decimalText n) = none := by
  have hvalue : digitsValue (decimalText n) = n := digitsValue_decimalText n
  unfold readWord
  rw [stripPlus_digits fun _ => decimalText_digit]
  exact if_neg fun hread => absurd (hvalue ▸ hread.2.2) (Nat.not_lt.2 h)

/-! ## Numbers with a fraction -/

/-- The digits before the point and after it. -/
structure Numeral where
  whole : Text
  fraction : Text
  deriving DecidableEq

/-- The characters of a number. -/
def isNumeral (c : Char) : Bool :=
  c.isDigit || c = '.'

namespace Numeral

/-- What is before the first point and what is after it. -/
def ofText (number : Text) : Numeral :=
  match splitOnce '.' number with
  | none => ⟨number, []⟩
  | some (w, f) => ⟨w, f⟩

/-- One of the two is there. -/
def read (number : Text) : Option Numeral :=
  let n := ofText number
  if n.whole = [] ∧ n.fraction = [] then none else some n

def wordBound : Nat := 2 ^ 128

/-- The digits before the point; there may be none. -/
def wholeWord (n : Numeral) : Option Nat :=
  if n.whole = [] then some 0 else readWord wordBound n.whole

/-- The number of digits after the point as it is passed on: the low 32 bits of it. -/
def places (n : Numeral) : Nat :=
  n.fraction.length % 2 ^ 32

/-- The digits after the point, scaled: only this product is not checked. -/
def scaleFraction (b : Build) (divide : Nat → Nat → Nat) (n : Numeral) (unit : Nat) :
    Checked (Option Nat) :=
  if n.fraction = [] then .ok (some 0)
  else
    match readWord wordBound n.fraction with
    | none => .ok none
    | some f =>
        if wordBound ≤ 10 ^ n.places then .ok none
        else do return some (divide (← b.mul 128 f unit) (10 ^ n.places))

/-- `base` and the number times the unit; `none` where a checked step fails. -/
def scale (b : Build) (divide : Nat → Nat → Nat) (base : Nat) (n : Numeral) (unit : Nat) :
    Checked (Option Nat) :=
  match n.wholeWord with
  | none => .ok none
  | some whole =>
      if wordBound ≤ base + whole * unit then .ok none
      else do
        match ← n.scaleFraction b divide unit with
        | none => return none
        | some part =>
            if wordBound ≤ base + whole * unit + part then return none
            else return some (base + whole * unit + part)

/-! ## Reading -/

/-- No signs. -/
def Plain (n : Numeral) : Prop :=
  ∀ c ∈ n.whole ++ n.fraction, isNumeral c = true

theorem ofText_plain {number : Text} (h : ∀ c ∈ number, isNumeral c = true) :
    (ofText number).Plain := by
  unfold ofText Plain
  split
  · simpa using h
  · next w f hsplit =>
      rw [(splitOnce_eq_some.1 hsplit).1] at h
      intro c hc
      apply h
      simp only [List.mem_append, List.mem_cons] at hc ⊢
      tauto

theorem read_plain {number : Text} {n : Numeral} (h : read number = some n)
    (hnumber : ∀ c ∈ number, isNumeral c = true) : n.Plain := by
  unfold read at h
  dsimp only at h
  split at h
  · cases h
  · cases h
    exact ofText_plain hnumber

theorem point_not_digit {t : Text} (h : ∀ c ∈ t, c.isDigit = true) : '.' ∉ t := by
  intro hmem
  exact absurd (h '.' hmem) (by decide)

theorem read_whole {t : Text} (hne : t ≠ []) (h : ∀ c ∈ t, c.isDigit = true) :
    read t = some ⟨t, []⟩ := by
  have hsplit : splitOnce '.' t = none := splitOnce_eq_none.2 (point_not_digit h)
  simp [read, ofText, hsplit, hne]

theorem read_point {w : Text} (f : Text) (hne : w ≠ []) (h : ∀ c ∈ w, c.isDigit = true) :
    read (w ++ '.' :: f) = some ⟨w, f⟩ := by
  have hsplit : splitOnce '.' (w ++ '.' :: f) = some (w, f) :=
    splitOnce_eq_some.2 ⟨rfl, point_not_digit h⟩
  simp [read, ofText, hsplit, hne]

/-! ## What is computed -/

/-- Digits only, and numbers and a power of ten that words hold. -/
def Readable (n : Numeral) : Prop :=
  ((∀ c ∈ n.whole, c.isDigit = true) ∧ ∀ c ∈ n.fraction, c.isDigit = true) ∧
    digitsValue n.whole < wordBound ∧ digitsValue n.fraction < wordBound ∧
      10 ^ n.places < wordBound

instance (n : Numeral) : Decidable n.Readable :=
  inferInstanceAs (Decidable (_ ∧ _))

theorem readWord_plain {bound : Nat} {t : Text} (hne : t ≠ [])
    (hplain : ∀ c ∈ t, isNumeral c = true) :
    readWord bound t =
      if (∀ c ∈ t, c.isDigit = true) ∧ digitsValue t < bound then some (digitsValue t)
      else none := by
  have hstrip : stripPlus t = t := by
    unfold stripPlus
    split
    · next rest => exact absurd (hplain '+' (by simp)) (by decide)
    · rfl
  unfold readWord
  rw [hstrip]
  simp [hne]

theorem wholeWord_plain {n : Numeral} (h : n.Plain) :
    n.wholeWord =
      if (∀ c ∈ n.whole, c.isDigit = true) ∧ digitsValue n.whole < wordBound then
        some (digitsValue n.whole)
      else none := by
  unfold wholeWord
  by_cases hwhole : n.whole = []
  · simp [hwhole, digitsValue, wordBound]
  · rw [if_neg hwhole]
    exact readWord_plain hwhole fun c hc => h c (List.mem_append_left _ hc)

variable {b : Build} {divide : Nat → Nat → Nat}

theorem scaleFraction_plain {n : Numeral} (h : n.Plain) (hzero : ∀ d, divide 0 d = 0)
    (unit : Nat) :
    n.scaleFraction b divide unit =
      if (∀ c ∈ n.fraction, c.isDigit = true) ∧ digitsValue n.fraction < wordBound ∧
          10 ^ n.places < wordBound then
        (b.mul 128 (digitsValue n.fraction) unit).map fun part =>
          some (divide part (10 ^ n.places))
      else .ok none := by
  unfold scaleFraction
  by_cases hfraction : n.fraction = []
  · have hnone : digitsValue n.fraction = 0 := by
      rw [hfraction]
      rfl
    have hmul : b.mul 128 (digitsValue n.fraction) unit = .ok 0 := by
      rw [hnone, Build.mul_of_lt (by simp), Nat.zero_mul]
    have hread : (∀ c ∈ n.fraction, c.isDigit = true) ∧ digitsValue n.fraction < wordBound ∧
        10 ^ n.places < wordBound := by
      rw [hnone]
      simp [hfraction, places, wordBound]
    rw [if_pos hfraction, if_pos hread, hmul, Except.map, hzero]
  · rw [if_neg hfraction,
      readWord_plain hfraction fun c hc => h c (List.mem_append_right _ hc)]
    by_cases hdigits : (∀ c ∈ n.fraction, c.isDigit = true) ∧ digitsValue n.fraction < wordBound
    · rw [if_pos hdigits]
      by_cases hpow : 10 ^ n.places < wordBound
      · rw [if_pos ⟨hdigits.1, hdigits.2, hpow⟩]
        dsimp only
        rw [if_neg (Nat.not_le.2 hpow)]
        cases b.mul 128 (digitsValue n.fraction) unit <;> rfl
      · rw [if_neg fun hread => hpow hread.2.2]
        exact if_pos (Nat.not_lt.1 hpow)
    · rw [if_neg hdigits, if_neg fun hread => hdigits ⟨hread.1, hread.2.1⟩]

/-- Everything is checked but one product. -/
theorem scale_eq {n : Numeral} (h : n.Plain) (hzero : ∀ d, divide 0 d = 0) (base unit : Nat) :
    n.scale b divide base unit =
      if n.Readable ∧ base + digitsValue n.whole * unit < wordBound then
        (b.mul 128 (digitsValue n.fraction) unit).map fun part =>
          let total := base + digitsValue n.whole * unit + divide part (10 ^ n.places)
          if total < wordBound then some total else none
      else .ok none := by
  unfold scale
  rw [wholeWord_plain h]
  by_cases hwhole : (∀ c ∈ n.whole, c.isDigit = true) ∧ digitsValue n.whole < wordBound
  · rw [if_pos hwhole]
    dsimp only
    by_cases hbase : base + digitsValue n.whole * unit < wordBound
    · rw [if_neg (Nat.not_le.2 hbase), scaleFraction_plain h hzero]
      by_cases hfraction : (∀ c ∈ n.fraction, c.isDigit = true) ∧
          digitsValue n.fraction < wordBound ∧ 10 ^ n.places < wordBound
      · rw [if_pos hfraction,
          if_pos ⟨⟨⟨hwhole.1, hfraction.1⟩, hwhole.2, hfraction.2⟩, hbase⟩]
        cases b.mul 128 (digitsValue n.fraction) unit with
        | error e => rfl
        | ok part =>
            by_cases htotal :
                base + digitsValue n.whole * unit + divide part (10 ^ n.places) < wordBound
            · simp [Except.map, bind, Except.bind, htotal, Nat.not_le.2 htotal, pure, Except.pure]
            · simp [Except.map, bind, Except.bind, htotal, Nat.not_lt.1 htotal, pure, Except.pure]
      · rw [if_neg hfraction, if_neg fun hread => hfraction ⟨hread.1.1.2, hread.1.2.2⟩]
        rfl
    · rw [if_pos (Nat.not_lt.1 hbase), if_neg fun hread => hbase hread.2]
  · rw [if_neg hwhole, if_neg fun hread => hwhole ⟨hread.1.1.1, hread.1.2.1⟩]

/-- The product that is not checked leaves its word. -/
def Overflows (base : Nat) (n : Numeral) (unit : Nat) : Prop :=
  n.Readable ∧ base + digitsValue n.whole * unit < wordBound ∧
    wordBound ≤ digitsValue n.fraction * unit

/-- What is added up where it does not. -/
def sum (divide : Nat → Nat → Nat) (base : Nat) (n : Numeral) (unit : Nat) : Nat :=
  base + digitsValue n.whole * unit + divide (digitsValue n.fraction * unit) (10 ^ n.places)

theorem scale_of_fits {n : Numeral} (h : n.Plain) (hzero : ∀ d, divide 0 d = 0) {base unit : Nat}
    (hfits : ¬ Overflows base n unit) :
    n.scale b divide base unit =
      .ok (if n.Readable ∧ n.sum divide base unit < wordBound then some (n.sum divide base unit)
        else none) := by
  rw [scale_eq h hzero]
  by_cases hread : n.Readable ∧ base + digitsValue n.whole * unit < wordBound
  · have hmul : b.mul 128 (digitsValue n.fraction) unit = .ok (digitsValue n.fraction * unit) :=
      Build.mul_of_lt (Nat.lt_of_not_le fun hle => hfits ⟨hread.1, hread.2, hle⟩)
    rw [if_pos hread, hmul]
    simp only [Except.map, hread.1, true_and]
    rfl
  · have hnot : ¬ (n.Readable ∧ n.sum divide base unit < wordBound) := by
      rintro ⟨hreadable, hlt⟩
      exact hread ⟨hreadable, lt_of_le_of_lt (Nat.le_add_right _ _) hlt⟩
    rw [if_neg hread, if_neg hnot]

theorem scale_overflows {n : Numeral} (h : n.Plain) (hzero : ∀ d, divide 0 d = 0)
    {base unit : Nat} (hover : Overflows base n unit) :
    n.scale ⟨true⟩ divide base unit = .error .overflow := by
  have hmul : Build.mul ⟨true⟩ 128 (digitsValue n.fraction) unit = .error .overflow :=
    if_neg (Nat.not_lt.2 hover.2.2)
  rw [scale_eq h hzero, if_pos ⟨hover.1, hover.2.1⟩, hmul]
  rfl

/-! ## What is stated -/

def value (n : Numeral) : ℚ :=
  digitsValue n.whole + digitsValue n.fraction / (10 : ℚ) ^ n.fraction.length

/-- The quotient rounded up, as `div_ceil` has it. -/
def ceilDiv (x d : Nat) : Nat :=
  x / d + if x % d = 0 then 0 else 1

theorem value_mul (n : Numeral) (unit : Nat) :
    n.value * unit = ((digitsValue n.whole * unit : ℕ) : ℚ) +
      ((digitsValue n.fraction * unit : ℕ) : ℚ) / ((10 ^ n.fraction.length : ℕ) : ℚ) := by
  unfold value
  push_cast
  ring

/-- The number times the unit, without what is less than one. -/
theorem floor_value_mul (n : Numeral) (unit : Nat) :
    ⌊n.value * unit⌋₊ = digitsValue n.whole * unit +
      digitsValue n.fraction * unit / 10 ^ n.fraction.length := by
  rw [value_mul, add_comm, Nat.floor_add_natCast (by positivity), Nat.floor_div_eq_div,
    Nat.add_comm]

theorem ceil_div_eq (x : Nat) {d : Nat} (hd : 0 < d) : ⌈(x : ℚ) / d⌉₊ = ceilDiv x d := by
  have hq : (0 : ℚ) < d := by exact_mod_cast hd
  have hdiv := Nat.div_add_mod x d
  have hmod := Nat.mod_lt x hd
  unfold ceilDiv
  apply le_antisymm
  · -- the quotient is at most the rounded one
    rw [Nat.ceil_le, div_le_iff₀ hq]
    norm_cast
    split
    · next hzero => rw [Nat.add_zero, Nat.mul_comm]; omega
    · next hpos => rw [Nat.add_mul, Nat.mul_comm (x / d)]; omega
  · split
    · next hzero =>
        rw [Nat.add_zero, ← Nat.floor_div_eq_div (K := ℚ)]
        exact Nat.floor_le_ceil _
    · next hpos =>
        rw [Nat.succ_le_iff, Nat.lt_ceil, lt_div_iff₀ hq]
        norm_cast
        rw [Nat.mul_comm]
        omega

/-- The number times the unit, rounded up. -/
theorem ceil_value_mul (n : Numeral) (unit : Nat) :
    ⌈n.value * unit⌉₊ = digitsValue n.whole * unit +
      ceilDiv (digitsValue n.fraction * unit) (10 ^ n.fraction.length) := by
  have hpow : 0 < 10 ^ n.fraction.length := Nat.pow_pos (by decide)
  rw [value_mul, add_comm, Nat.ceil_add_natCast (by positivity), ceil_div_eq _ hpow,
    Nat.add_comm]

/-- No word is as large as a power of ten with that many zeros. -/
theorem wordBound_le_pow {k : Nat} (h : 2 ^ 32 ≤ k) : wordBound ≤ 10 ^ k := by
  have hfew : wordBound ≤ 10 ^ 39 := by decide
  exact hfew.trans (Nat.pow_le_pow_right (by decide) (by omega))

end Numeral
end FunctionWasm

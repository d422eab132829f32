import Mathlib.Data.List.TakeWhile
import FunctionWasm.Foundation.Decimal

/-!
# Quantity — byte counts as Kubernetes writes them

The Input's memory limit is a quantity: a sign, a decimal number and a suffix that multiplies it.

* `Quantity.parse` reads a quantity, rounding a fraction of a byte up.
* `Quantity.formatBinarySi` prints a byte count with the largest suffix that divides it.
* `Quantity.quantity_exact_iff` says which texts are refused or read exactly, in every build, and
  that what is printed is read back.
-/

namespace FunctionWasm
namespace Quantity

def binary : List (Text × Nat) :=
  [("Ki".toList, 10), ("Mi".toList, 20), ("Gi".toList, 30), ("Ti".toList, 40), ("Pi".toList, 50),
    ("Ei".toList, 60)]

def decimal : List (Text × Nat) :=
  [("k".toList, 1000), ("M".toList, 1000000), ("G".toList, 1000000000),
    ("T".toList, 1000000000000), ("P".toList, 1000000000000000),
    ("E".toList, 1000000000000000000)]

/-- The multiplier that a suffix stands for. -/
def scaleOf (suffix : Text) : Option Nat :=
  if suffix = [] then some 1
  else
    match binary.lookup suffix with
    | some shift => some (2 ^ shift)
    | none => decimal.lookup suffix

/-- What a quantity states. -/
structure Stated where
  negative : Bool
  number : Numeral
  scale : Nat
  deriving DecidableEq

def withSign : Text → Bool × Text
  | '-' :: rest => (true, rest)
  | '+' :: rest => (false, rest)
  | t => (false, t)

def read (s : Text) : Option Stated :=
  let (negative, rest) := withSign s
  let number := rest.takeWhile isNumeral
  if number = [] then none
  else
    match scaleOf (rest.dropWhile isNumeral), Numeral.read number with
    | some scale, some n => some ⟨negative, n, scale⟩
    | _, _ => none

def refusal (debug : Text → Text) (s : Text) : Text :=
  "cannot parse quantity ".toList ++ debug s

def Stated.signed (q : Stated) (magnitude : Nat) : Int :=
  if q.negative then -magnitude else magnitude

/-- The magnitude has to fit a signed word. -/
def Stated.answer (q : Stated) (refused : Text) : Option Nat → Except Text Int
  | none => .error refused
  | some value => if 2 ^ 127 ≤ value then .error refused else .ok (q.signed value)

/-- A negative quantity is read, for its reader to refuse.  `debug` is how a text is quoted in an
error. -/
def parse (debug : Text → Text) (b : Build) (s : Text) : Checked (Except Text Int) :=
  match read s with
  | none => .ok (.error (refusal debug s))
  | some q =>
      (q.number.scale b Numeral.ceilDiv 0 q.scale).map (q.answer (refusal debug s))

/-- The largest binary suffix that divides evenly, else plain bytes. -/
def formatBinarySi (bytes : Nat) : Text :=
  match binary.reverse.find? fun e => 2 ^ e.2 ≤ bytes ∧ bytes % 2 ^ e.2 = 0 with
  | some (suffix, shift) => decimalText (bytes / 2 ^ shift) ++ suffix
  | none => decimalText bytes

example : formatBinarySi (512 * 2 ^ 20) = "512Mi".toList := by decide

/-! ## Exactness -/

/-- The stated number times its multiplier, the magnitude rounded up to a whole byte. -/
def Stated.amount (q : Stated) : Int :=
  q.signed ⌈q.number.value * q.scale⌉₊

/-- One answer in every build: a refusal, or the amount that is stated. -/
def ReadsExactly (debug : Text → Text) (s : Text) : Prop :=
  ∃ r, (∀ b, parse debug b s = .ok r) ∧
    ∀ v, r = .ok v → ∃ q, read s = some q ∧ v = q.amount

/-- The digits before the point times the multiplier. -/
def Stated.whole (q : Stated) : Nat :=
  digitsValue q.number.whole * q.scale

/-- Those after it, as an integer. -/
def Stated.part (q : Stated) : Nat :=
  digitsValue q.number.fraction * q.scale

/-- The digits after the point times the multiplier stay in a word, and the power of ten is theirs:
there are fewer than `2 ^ 32` of them, or nothing above one byte comes of the smaller power, or too
much of it all.  Where a number before that is too large this is not asked. -/
def Stated.Fits (q : Stated) : Prop :=
  q.number.Readable → q.whole < 2 ^ 128 →
    q.part < 2 ^ 128 ∧
      (q.number.fraction.length < 2 ^ 32 ∨ q.part ≤ 10 ^ q.number.places ∨
        2 ^ 127 ≤ q.whole + Numeral.ceilDiv q.part (10 ^ q.number.places))

theorem ceilDiv_zero (d : Nat) : Numeral.ceilDiv 0 d = 0 := by
  simp [Numeral.ceilDiv]

theorem read_number_plain {s : Text} {q : Stated} (h : read s = some q) : q.number.Plain := by
  unfold read at h
  dsimp only at h
  split at h
  · cases h
  · split at h
    · next scale n hscale hnumber =>
        cases h
        exact Numeral.read_plain hnumber fun c hc => List.mem_takeWhile_imp hc
    · cases h

/-- The whole bytes that are added up. -/
def Stated.bytes (q : Stated) : Nat :=
  q.whole + Numeral.ceilDiv q.part (10 ^ q.number.places)

theorem sum_eq_bytes (q : Stated) : q.number.sum Numeral.ceilDiv 0 q.scale = q.bytes := by
  unfold Numeral.sum
  rw [Nat.zero_add]
  rfl

theorem signed_inj {q : Stated} {x y : Nat} (h : q.signed x = q.signed y) : x = y := by
  unfold Stated.signed at h
  split at h <;> omega

theorem parse_of_fits {debug : Text → Text} {b : Build} {s : Text} {q : Stated}
    (hread : read s = some q) (hfits : ¬ Numeral.Overflows 0 q.number q.scale) :
    parse debug b s =
      .ok (if q.number.Readable ∧ q.bytes < 2 ^ 127 then .ok (q.signed q.bytes)
        else .error (refusal debug s)) := by
  have hscale := Numeral.scale_of_fits (b := b) (read_number_plain hread) ceilDiv_zero hfits
  rw [sum_eq_bytes] at hscale
  unfold parse
  rw [hread]
  dsimp only
  rw [hscale, Except.map]
  by_cases hreadable : q.number.Readable ∧ q.bytes < Numeral.wordBound
  · rw [if_pos hreadable, Stated.answer]
    by_cases hsmall : q.bytes < 2 ^ 127
    · rw [if_neg (Nat.not_le.2 hsmall), if_pos ⟨hreadable.1, hsmall⟩]
    · have hnot : ¬ (q.number.Readable ∧ q.bytes < 2 ^ 127) := fun h => hsmall h.2
      rw [if_pos (Nat.not_lt.1 hsmall), if_neg hnot]
  · have hnot : ¬ (q.number.Readable ∧ q.bytes < 2 ^ 127) := by
      rintro ⟨hdigits, hlt⟩
      exact hreadable ⟨hdigits, lt_trans hlt (by decide)⟩
    rw [if_neg hreadable, if_neg hnot, Stated.answer]

theorem parse_overflows {debug : Text → Text} {s : Text} {q : Stated} (hread : read s = some q)
    (hover : Numeral.Overflows 0 q.number q.scale) : parse debug ⟨true⟩ s = .error .overflow := by
  unfold parse
  rw [hread]
  dsimp only
  rw [Numeral.scale_overflows (read_number_plain hread) ceilDiv_zero hover]
  rfl

/-! ## Rounding up -/

theorem ceilDiv_of_le {x d : Nat} (hx : 0 < x) (h : x ≤ d) : Numeral.ceilDiv x d = 1 := by
  unfold Numeral.ceilDiv
  rcases Nat.lt_or_eq_of_le h with hlt | rfl
  · rw [Nat.div_eq_of_lt hlt, Nat.mod_eq_of_lt hlt, if_neg (by omega)]
  · rw [Nat.div_self hx, Nat.mod_self, if_pos rfl]

theorem two_le_ceilDiv {x d : Nat} (hd : 0 < d) (h : d < x) : 2 ≤ Numeral.ceilDiv x d := by
  have hdiv := Nat.div_add_mod x d
  have hone : 1 ≤ x / d := (Nat.one_le_div_iff hd).2 h.le
  unfold Numeral.ceilDiv
  split
  · next hzero =>
      -- an exact quotient of a larger number is not one
      by_contra hsmall
      have hquot : x / d = 1 := by omega
      rw [hquot, hzero] at hdiv
      omega
  · omega

theorem places_le (n : Numeral) : n.places ≤ n.fraction.length :=
  Nat.mod_le _ _

theorem pow_pos_ten (k : Nat) : 0 < 10 ^ k :=
  Nat.pow_pos (by decide)

/-- What is added up is the exact amount, rounded up, where the text fits and is read. -/
theorem bytes_of_fits {q : Stated} (hfits : q.Fits) (hread : q.number.Readable)
    (hsmall : q.bytes < 2 ^ 127) : q.bytes = ⌈q.number.value * q.scale⌉₊ := by
  have hwhole : q.whole < 2 ^ 128 :=
    lt_of_le_of_lt (Nat.le_add_right _ _) (lt_trans hsmall (by decide))
  rw [Numeral.ceil_value_mul]
  change q.whole + _ = q.whole + Numeral.ceilDiv q.part _
  congr 1
  rcases (hfits hread hwhole).2 with hshort | hbyte | hlarge
  · rw [Numeral.places, Nat.mod_eq_of_lt hshort]
  · rcases Nat.eq_zero_or_pos q.part with hzero | hpos
    · rw [hzero, ceilDiv_zero, ceilDiv_zero]
    · have hpow : 10 ^ q.number.places ≤ 10 ^ q.number.fraction.length :=
        Nat.pow_le_pow_right (by decide) (places_le _)
      rw [ceilDiv_of_le hpos hbyte, ceilDiv_of_le hpos (hbyte.trans hpow)]
  · exact absurd hlarge (Nat.not_le.2 hsmall)

theorem reads_of_fits {debug : Text → Text} {s : Text} (h : ∀ q, read s = some q → q.Fits) :
    ReadsExactly debug s := by
  cases hread : read s with
  | none =>
      refine ⟨.error (refusal debug s), fun b => ?_, fun v hv => nomatch hv⟩
      unfold parse
      rw [hread]
  | some q =>
      have hfits : ¬ Numeral.Overflows 0 q.number q.scale := by
        rintro ⟨hreadable, hwhole, hlarge⟩
        rw [Nat.zero_add] at hwhole
        exact absurd (h q hread hreadable hwhole).1 (Nat.not_lt.2 hlarge)
      refine ⟨_, fun b => parse_of_fits hread hfits, fun v hv => ⟨q, hread, ?_⟩⟩
      split at hv
      · next hok =>
          cases hv
          rw [bytes_of_fits (h q hread) hok.1 hok.2]
          rfl
      · cases hv

theorem fits_of_reads {debug : Text → Text} {s : Text} (h : ReadsExactly debug s) {q : Stated}
    (hread : read s = some q) : q.Fits := by
  rcases h with ⟨r, hr, hexact⟩
  intro hreadable hwhole
  have hpart : q.part < 2 ^ 128 := by
    by_contra hlarge
    have hfault : parse debug ⟨true⟩ s = .error .overflow := parse_overflows hread
      ⟨hreadable, by rw [Nat.zero_add]; exact hwhole, Nat.not_lt.1 hlarge⟩
    cases hfault.symm.trans (hr ⟨true⟩)
  refine ⟨hpart, ?_⟩
  by_contra hnone
  rcases not_or.1 hnone with ⟨hlong, hnone⟩
  rcases not_or.1 hnone with ⟨hbytes, hsmall⟩
  have hfits : ¬ Numeral.Overflows 0 q.number q.scale := fun hover =>
    absurd hpart (Nat.not_lt.2 hover.2.2)
  have hanswer := hr ⟨true⟩
  rw [parse_of_fits hread hfits, if_pos ⟨hreadable, Nat.not_le.1 hsmall⟩] at hanswer
  rcases hexact _ (Except.ok.inj hanswer).symm with ⟨q', hq', hamount⟩
  cases hread.symm.trans hq'
  -- read exactly, the part would come to one byte at most
  have hmagnitude : q.bytes = ⌈q.number.value * q.scale⌉₊ := signed_inj hamount
  rw [Numeral.ceil_value_mul] at hmagnitude
  have hceil : Numeral.ceilDiv q.part (10 ^ q.number.places) =
      Numeral.ceilDiv q.part (10 ^ q.number.fraction.length) := Nat.add_left_cancel hmagnitude
  have hpos : 0 < q.part := lt_of_le_of_lt (Nat.zero_le _) (Nat.not_le.1 hbytes)
  have hone : Numeral.ceilDiv q.part (10 ^ q.number.fraction.length) = 1 :=
    ceilDiv_of_le hpos (hpart.le.trans (Numeral.wordBound_le_pow (Nat.not_lt.1 hlong)))
  have htwo := two_le_ceilDiv (pow_pos_ten _) (Nat.not_le.1 hbytes)
  omega

/-! ## What is printed -/

theorem withSign_decimalText (n : Nat) (t : Text) :
    withSign (decimalText n ++ t) = (false, decimalText n ++ t) := by
  cases hdigits : decimalText n with
  | nil => exact absurd hdigits (decimalText_ne_nil n)
  | cons c rest =>
      have hc : c.isDigit = true := decimalText_digit (n := n) (by rw [hdigits]; simp)
      unfold withSign
      split
      · next heq =>
          cases heq
          exact absurd hc (by decide)
      · next heq =>
          cases heq
          exact absurd hc (by decide)
      · rfl

theorem takeWhile_decimalText (n : Nat) {suffix : Text}
    (hsuffix : ∀ c ∈ suffix.head?, isNumeral c = false) :
    (decimalText n ++ suffix).takeWhile isNumeral = decimalText n ∧
      (decimalText n ++ suffix).dropWhile isNumeral = suffix := by
  have hdigits : ∀ c ∈ decimalText n, isNumeral c = true := fun c hc => by
    simp [isNumeral, decimalText_digit hc]
  rw [List.takeWhile_append_of_pos hdigits, List.dropWhile_append_of_pos hdigits]
  cases suffix with
  | nil => simp
  | cons c rest =>
      have hc : isNumeral c = false := hsuffix c (by simp)
      simp [hc]

/-- A whole number with a suffix is read as that many units. -/
theorem parse_printed {debug : Text → Text} {b : Build} {n unit : Nat} {suffix : Text}
    (hscale : scaleOf suffix = some unit) (hsuffix : ∀ c ∈ suffix.head?, isNumeral c = false)
    (hunit : 0 < unit) (hsmall : n * unit < 2 ^ 127) :
    parse debug b (decimalText n ++ suffix) = .ok (.ok (n * unit : Nat)) := by
  rcases takeWhile_decimalText n hsuffix with ⟨htake, hdrop⟩
  have hread : read (decimalText n ++ suffix) =
      some ⟨false, ⟨decimalText n, []⟩, unit⟩ := by
    unfold read
    rw [withSign_decimalText]
    dsimp only
    rw [htake, hdrop, hscale, Numeral.read_whole (decimalText_ne_nil n) fun c => decimalText_digit]
    exact if_neg (decimalText_ne_nil n)
  have hle : n ≤ n * unit := Nat.le_mul_of_pos_right n hunit
  have hvalue : digitsValue (decimalText n) = n := digitsValue_decimalText n
  have hnone : digitsValue [] = 0 := rfl
  have hfits : ¬ Numeral.Overflows 0 ⟨decimalText n, []⟩ unit := by
    rintro ⟨-, -, hlarge⟩
    simp [hnone, Numeral.wordBound] at hlarge
  have hreadable : Numeral.Readable ⟨decimalText n, []⟩ := by
    refine ⟨⟨fun c => decimalText_digit, fun c hc => absurd hc List.not_mem_nil⟩, ?_, ?_, ?_⟩
    · rw [hvalue, Numeral.wordBound]
      omega
    · rw [hnone]
      decide
    · have hplaces : Numeral.places ⟨decimalText n, []⟩ = 0 := rfl
      rw [hplaces]
      decide
  have hbytes : Stated.bytes ⟨false, ⟨decimalText n, []⟩, unit⟩ = n * unit := by
    simp [Stated.bytes, Stated.whole, Stated.part, hvalue, hnone, ceilDiv_zero]
  rw [parse_of_fits hread hfits, hbytes, if_pos ⟨hreadable, hsmall⟩]
  rfl

theorem parse_formatBinarySi (debug : Text → Text) (b : Build) (bytes : UInt64) :
    parse debug b (formatBinarySi bytes.toNat) = .ok (.ok bytes.toNat) := by
  have hbound : bytes.toNat < 2 ^ 64 := bytes.toNat_lt
  unfold formatBinarySi
  split
  · next suffix shift hfind =>
      have hmem := List.mem_reverse.1 (List.mem_of_find?_eq_some hfind)
      have hdivides : bytes.toNat % 2 ^ shift = 0 := by
        have hholds := List.find?_some hfind
        simp only [decide_eq_true_eq] at hholds
        exact hholds.2
      have hback : bytes.toNat / 2 ^ shift * 2 ^ shift = bytes.toNat :=
        Nat.div_mul_cancel (Nat.dvd_of_mod_eq_zero hdivides)
      have hsuffix : scaleOf suffix = some (2 ^ shift) ∧
          ∀ c ∈ suffix.head?, isNumeral c = false := by
        have hall : ∀ e ∈ binary, scaleOf e.1 = some (2 ^ e.2) ∧
            ∀ c ∈ e.1.head?, isNumeral c = false := by decide
        exact hall _ hmem
      rw [parse_printed hsuffix.1 hsuffix.2 (Nat.two_pow_pos _) (by rw [hback]; omega), hback]
  · have hread := @parse_printed debug b bytes.toNat 1 [] rfl (fun c hc => nomatch hc) (by decide)
      (by omega)
    rw [List.append_nil, Nat.mul_one] at hread
    exact hread

/-- Which texts are refused or read exactly; and every byte count that is printed is read back. -/
theorem quantity_exact_iff (debug : Text → Text) :
    (∀ s, ReadsExactly debug s ↔ ∀ q, read s = some q → q.Fits) ∧
      ∀ (b : Build) (bytes : UInt64),
        parse debug b (formatBinarySi bytes.toNat) = .ok (.ok bytes.toNat) :=
  ⟨fun _ => ⟨fun h _ hread => fits_of_reads h hread, reads_of_fits⟩, parse_formatBinarySi debug⟩

/-- Thirty-eight nines after the point, in units of 1024. -/
theorem long_fraction_wraps :
    parse id ⟨false⟩ "0.99999999999999999999999999999999999999Ki".toList = .ok (.ok 4) ∧
      ¬ ReadsExactly id "0.99999999999999999999999999999999999999Ki".toList := by
  constructor
  · decide +kernel
  · intro h
    have hfits := fits_of_reads h
      (q := ⟨false, ⟨['0'], List.replicate 38 '9'⟩, 1024⟩) (by decide +kernel)
    have hpart := (hfits (by decide +kernel) (by decide +kernel)).1
    exact absurd hpart (by decide +kernel)

end Quantity
end FunctionWasm

import Mathlib.Algebra.Order.BigOperators.Group.List
import Mathlib.Data.List.TakeWhile
import FunctionWasm.Cache.ModuleCache
import FunctionWasm.Foundation.Decimal

/-!
# Duration — durations in the compact unit syntax

A duration is a sequence of decimal numbers with units.  It is read term by term into nanoseconds,
each term with its fraction cut off.

* `Duration.readTerm` takes one term off a text, `Duration.parse` adds up all of them.
* `Duration.run` is the sum over a list of terms that have been read.
* `Duration.duration_exact_iff` says which texts are refused or read exactly, in every build, and
  that what `Duration.format` prints is read back.
-/

namespace FunctionWasm
namespace Duration

def units : List (Text × Nat) :=
  [("ns".toList, 1), ("us".toList, 1000), ("µs".toList, 1000), ("μs".toList, 1000),
    ("ms".toList, 1000000), ("s".toList, 1000000000), ("m".toList, 60000000000),
    ("h".toList, 3600000000000)]

/-- A number and the nanoseconds of its unit. -/
structure Term where
  number : Numeral
  scale : Nat
  deriving DecidableEq

/-- The first term of a text and what follows it. -/
def readTerm (rest : Text) : Option (Term × Text) :=
  let number := rest.takeWhile isNumeral
  let unitRest := rest.dropWhile isNumeral
  -- a unit is everything up to the next digit, a point included
  let unit := unitRest.takeWhile fun c => !c.isDigit
  if number = [] ∨ unit = [] then none
  else
    match units.lookup unit, Numeral.read number with
    | some scale, some n => some (⟨n, scale⟩, unitRest.dropWhile fun c => !c.isDigit)
    | _, _ => none

/-- The loop over the terms.  Each takes at least one character, so the length of the text is fuel
enough. -/
def parseLoop (b : Build) : Nat → Nat → Text → Checked (Option Nat)
  | _, total, [] => .ok (some total)
  | 0, _, _ :: _ => .ok none
  | fuel + 1, total, rest =>
      match readTerm rest with
      | none => .ok none
      | some (t, next) => do
          match ← t.number.scale b (· / ·) total t.scale with
          | none => return none
          | some total => parseLoop b fuel total next

def refusal (debug : Text → Text) (s : Text) : Text :=
  "invalid duration ".toList ++ debug s

/-- The total has to fit 64 bits. -/
def answer (refused : Text) : Option Nat → Except Text Nat
  | none => .error refused
  | some total => if total < 2 ^ 64 then .ok total else .error refused

/-- `debug` is how a text is quoted in an error. -/
def parse (debug : Text → Text) (b : Build) (s : Text) : Checked (Except Text Nat) :=
  if s = [] then .ok (.error (refusal debug s))
  else (parseLoop b s.length 0 s).map (answer (refusal debug s))

/-! ## Terms -/

/-- The terms that a text begins with, and whether it ends with them. -/
def readTerms : Nat → Text → List Term × Bool
  | _, [] => ([], true)
  | 0, _ :: _ => ([], false)
  | fuel + 1, rest =>
      match readTerm rest with
      | none => ([], false)
      | some (t, next) => (t :: (readTerms fuel next).1, (readTerms fuel next).2)

/-- The sum over terms, refused at the end where they are not the whole text. -/
def run (b : Build) (complete : Bool) : Nat → List Term → Checked (Option Nat)
  | total, [] => .ok (if complete then some total else none)
  | total, t :: ts => do
      match ← t.number.scale b (· / ·) total t.scale with
      | none => return none
      | some total => run b complete total ts

theorem readTerms_of_readTerm {fuel : Nat} {c : Char} {rest next : Text} {t : Term}
    (h : readTerm (c :: rest) = some (t, next)) :
    readTerms (fuel + 1) (c :: rest) =
      (t :: (readTerms fuel next).1, (readTerms fuel next).2) := by
  unfold readTerms
  rw [h]
  cases fuel <;> cases next <;> rfl

theorem parseLoop_eq_run (b : Build) (fuel total : Nat) (rest : Text) :
    parseLoop b fuel total rest = run b (readTerms fuel rest).2 total (readTerms fuel rest).1 := by
  induction fuel generalizing total rest with
  | zero =>
      cases rest with
      | nil => rfl
      | cons c rest => rfl
  | succ fuel ih =>
      cases rest with
      | nil => rfl
      | cons c rest =>
          unfold parseLoop readTerms
          cases readTerm (c :: rest) with
          | none => rfl
          | some read =>
              rcases read with ⟨t, next⟩
              dsimp only
              unfold run
              congr 1
              funext total
              cases total with
              | none => rfl
              | some total => exact ih total next

theorem readTerm_plain {rest next : Text} {t : Term} (h : readTerm rest = some (t, next)) :
    t.number.Plain := by
  unfold readTerm at h
  dsimp only at h
  split at h
  · cases h
  · split at h
    · next scale n hscale hnumber =>
        cases h
        exact Numeral.read_plain hnumber fun c hc => List.mem_takeWhile_imp hc
    · cases h

theorem readTerms_plain {fuel : Nat} {rest : Text} {t : Term}
    (h : t ∈ (readTerms fuel rest).1) : t.number.Plain := by
  induction fuel generalizing rest with
  | zero => cases rest <;> cases h
  | succ fuel ih =>
      cases rest with
      | nil => cases h
      | cons c rest =>
          unfold readTerms at h
          split at h
          · cases h
          · next t' next hread =>
              rcases List.mem_cons.1 h with rfl | hmem
              · exact readTerm_plain hread
              · exact ih hmem

/-- What a term adds. -/
def Term.added (t : Term) : Nat :=
  digitsValue t.number.whole * t.scale +
    digitsValue t.number.fraction * t.scale / 10 ^ t.number.places

theorem sum_eq_added (total : Nat) (t : Term) :
    t.number.sum (· / ·) total t.scale = total + t.added := by
  unfold Numeral.sum Term.added
  exact Nat.add_assoc _ _ _

/-- The number times the unit, the fraction of a nanosecond cut off. -/
def Term.amount (t : Term) : Nat :=
  ⌊t.number.value * t.scale⌋₊

theorem amount_le_added (t : Term) : t.amount ≤ t.added := by
  unfold Term.amount Term.added
  rw [Numeral.floor_value_mul]
  apply Nat.add_le_add_left
  apply Nat.div_le_div_left _ (Nat.pow_pos (by decide))
  exact Nat.pow_le_pow_right (by decide) (Nat.mod_le _ _)

/-! ## The sum -/

/-- No product that is reached leaves its word. -/
def Fits : Nat → List Term → Prop
  | _, [] => True
  | total, t :: ts =>
      ¬ Numeral.Overflows total t.number t.scale ∧
        (t.number.Readable → total + t.added < 2 ^ 128 → Fits (total + t.added) ts)

def total (ts : List Term) : Nat :=
  (ts.map Term.added).sum

@[simp] theorem total_cons (t : Term) (ts : List Term) : total (t :: ts) = t.added + total ts :=
  rfl

theorem run_cons_of_fits {b : Build} {complete : Bool} {start : Nat} {t : Term} {ts : List Term}
    (hplain : t.number.Plain) (hfits : ¬ Numeral.Overflows start t.number t.scale) :
    run b complete start (t :: ts) =
      if t.number.Readable ∧ start + t.added < 2 ^ 128 then run b complete (start + t.added) ts
      else .ok none := by
  have hzero : ∀ n, (· / · : Nat → Nat → Nat) 0 n = 0 := Nat.zero_div
  have hscale := Numeral.scale_of_fits (b := b) hplain hzero hfits
  rw [sum_eq_added] at hscale
  rw [run, hscale]
  split
  · next hread => exact (if_pos hread).symm
  · next hread => exact (if_neg hread).symm

theorem run_of_fits {b : Build} {complete : Bool} {start : Nat} {ts : List Term}
    (hplain : ∀ t ∈ ts, t.number.Plain) (hstart : start < 2 ^ 128) (hfits : Fits start ts) :
    run b complete start ts =
      .ok (if complete = true ∧ (∀ t ∈ ts, t.number.Readable) ∧ start + total ts < 2 ^ 128 then
        some (start + total ts) else none) := by
  induction ts generalizing start with
  | nil =>
      have hsum : start + total [] = start := Nat.add_zero start
      have hnone : (complete = true ∧ (∀ t ∈ ([] : List Term), t.number.Readable) ∧
          start < 2 ^ 128) ↔ complete = true :=
        ⟨And.left, fun h => ⟨h, by simp, hstart⟩⟩
      rw [run, hsum]
      simp only [hnone]
  | cons t ts ih =>
      rw [run_cons_of_fits (hplain t (by simp)) hfits.1]
      have hsum : start + total (t :: ts) = start + t.added + total ts := by
        rw [total_cons, Nat.add_assoc]
      by_cases hread : t.number.Readable ∧ start + t.added < 2 ^ 128
      · rw [if_pos hread, ih (fun u hu => hplain u (List.mem_cons_of_mem _ hu)) hread.2
          (hfits.2 hread.1 hread.2), hsum]
        simp [hread.1]
      · have hnot : ¬ (complete = true ∧ (∀ u ∈ t :: ts, u.number.Readable) ∧
            start + total (t :: ts) < 2 ^ 128) := by
          rintro ⟨-, hreadable, hlt⟩
          exact hread ⟨hreadable t (by simp), by omega⟩
        rw [if_neg hread, if_neg hnot]

/-- A reached product that leaves its word stops a build with overflow checks. -/
theorem run_overflows {complete : Bool} {start : Nat} {ts : List Term}
    (hplain : ∀ t ∈ ts, t.number.Plain) (hover : ¬ Fits start ts) :
    run ⟨true⟩ complete start ts = .error .overflow := by
  induction ts generalizing start with
  | nil => exact absurd trivial hover
  | cons t ts ih =>
      by_cases hhead : Numeral.Overflows start t.number t.scale
      · rw [run, Numeral.scale_overflows (hplain t (by simp)) Nat.zero_div hhead]
        rfl
      · have hrest : t.number.Readable ∧ start + t.added < 2 ^ 128 ∧ ¬ Fits (start + t.added) ts := by
          by_contra hnone
          refine hover ⟨hhead, fun hreadable hlt => ?_⟩
          by_contra hfits
          exact hnone ⟨hreadable, hlt, hfits⟩
        rw [run_cons_of_fits (hplain t (by simp)) hhead, if_pos ⟨hrest.1, hrest.2.1⟩]
        exact ih (fun u hu => hplain u (List.mem_cons_of_mem _ hu)) hrest.2.2

/-- Where all terms are added up, none of their products leaves its word. -/
theorem product_lt_of_fits {start : Nat} {ts : List Term} (hfits : Fits start ts)
    (hread : ∀ t ∈ ts, t.number.Readable) (hsum : start + total ts < 2 ^ 128) {t : Term}
    (ht : t ∈ ts) : digitsValue t.number.fraction * t.scale < 2 ^ 128 := by
  induction ts generalizing start with
  | nil => cases ht
  | cons u ts ih =>
      rw [total_cons, ← Nat.add_assoc] at hsum
      have hadded : start + u.added < 2 ^ 128 := by omega
      rcases List.mem_cons.1 ht with rfl | hmem
      · have hwhole : start + digitsValue t.number.whole * t.scale < 2 ^ 128 := by
          have hle : digitsValue t.number.whole * t.scale ≤ t.added := Nat.le_add_right _ _
          change _ < 2 ^ 128
          omega
        by_contra hlarge
        exact hfits.1 ⟨hread t (by simp), hwhole, Nat.not_lt.1 hlarge⟩
      · exact ih (hfits.2 (hread u (by simp)) hadded)
          (fun v hv => hread v (List.mem_cons_of_mem _ hv)) hsum hmem

/-! ## Exactness -/

/-- The terms of a text that is nothing but terms. -/
def termsOf (s : Text) : Option (List Term) :=
  if s ≠ [] ∧ (readTerms s.length s).2 then some (readTerms s.length s).1 else none

/-- One answer in every build: a refusal, or the sum of what the terms state. -/
def ReadsExactly (debug : Text → Text) (s : Text) : Prop :=
  ∃ r, (∀ b, parse debug b s = .ok r) ∧
    ∀ v, r = .ok v → ∃ ts, termsOf s = some ts ∧ v = (ts.map Term.amount).sum

/-- The power of ten is that of the digits after the point: there are fewer than `2 ^ 32` of them,
or nothing comes of the smaller power. -/
def Term.Cut (t : Term) : Prop :=
  t.number.fraction.length < 2 ^ 32 ∨
    digitsValue t.number.fraction * t.scale < 10 ^ t.number.places

theorem added_eq_amount {t : Term} (hcut : t.Cut) : t.added = t.amount := by
  unfold Term.added Term.amount
  rw [Numeral.floor_value_mul]
  congr 1
  rcases hcut with hshort | hnone
  · rw [Numeral.places, Nat.mod_eq_of_lt hshort]
  · have hpow : 10 ^ t.number.places ≤ 10 ^ t.number.fraction.length :=
      Nat.pow_le_pow_right (by decide) (Nat.mod_le _ _)
    rw [Nat.div_eq_of_lt hnone, Nat.div_eq_of_lt (hnone.trans_le hpow)]

theorem cut_of_added_eq {t : Term}
    (hlt : digitsValue t.number.fraction * t.scale < 2 ^ 128) (h : t.added = t.amount) :
    t.Cut := by
  by_cases hshort : t.number.fraction.length < 2 ^ 32
  · exact .inl hshort
  · -- the exact quotient by so large a power is nothing
    right
    have hexact : digitsValue t.number.fraction * t.scale / 10 ^ t.number.fraction.length = 0 :=
      Nat.div_eq_of_lt (hlt.trans_le (Numeral.wordBound_le_pow (Nat.not_lt.1 hshort)))
    unfold Term.added Term.amount at h
    rw [Numeral.floor_value_mul, hexact] at h
    exact (Nat.div_eq_zero_iff_lt (Nat.pow_pos (by decide))).1 (Nat.add_left_cancel h)

/-- Sums of larger terms are equal only where all terms are. -/
theorem eq_of_sum_eq {ts : List Term} (h : total ts = (ts.map Term.amount).sum) {t : Term}
    (ht : t ∈ ts) : t.added = t.amount := by
  have hle : ∀ us : List Term, (us.map Term.amount).sum ≤ total us := by
    intro us
    exact List.sum_le_sum fun u _ => amount_le_added u
  induction ts with
  | nil => cases ht
  | cons u ts ih =>
      rw [total_cons, List.map_cons, List.sum_cons] at h
      have hhead := amount_le_added u
      have htail := hle ts
      rcases List.mem_cons.1 ht with rfl | hmem
      · omega
      · exact ih (by omega) hmem

/-- No product that is reached leaves its word; and where the text is all terms that are read and
add up to less than `2 ^ 64`, each fraction is cut by its own power of ten. -/
def Exact (s : Text) : Prop :=
  Fits 0 (readTerms s.length s).1 ∧
    ∀ ts, termsOf s = some ts → (∀ t ∈ ts, t.number.Readable) → total ts < 2 ^ 64 →
      ∀ t ∈ ts, t.Cut

theorem parse_of_fits {debug : Text → Text} {b : Build} {s : Text}
    (hfits : Fits 0 (readTerms s.length s).1) :
    parse debug b s =
      .ok (match termsOf s with
        | none => .error (refusal debug s)
        | some ts =>
            if (∀ t ∈ ts, t.number.Readable) ∧ total ts < 2 ^ 64 then .ok (total ts)
            else .error (refusal debug s)) := by
  unfold parse termsOf
  by_cases hempty : s = []
  · simp [hempty]
  · rw [if_neg hempty, parseLoop_eq_run,
      run_of_fits (fun t ht => readTerms_plain ht) (by decide) hfits, Nat.zero_add, Except.map]
    by_cases hcomplete : (readTerms s.length s).2 = true
    · have hterms : s ≠ [] ∧ (readTerms s.length s).2 = true := ⟨hempty, hcomplete⟩
      rw [if_pos hterms]
      dsimp only
      by_cases hread : ∀ t ∈ (readTerms s.length s).1, t.number.Readable
      · by_cases hsmall : total (readTerms s.length s).1 < 2 ^ 64
        · rw [if_pos ⟨hcomplete, hread, lt_trans hsmall (by decide)⟩, if_pos ⟨hread, hsmall⟩,
            answer, if_pos hsmall]
        · rw [if_neg fun h : _ ∧ total _ < 2 ^ 64 => hsmall h.2]
          split
          · rw [answer, if_neg hsmall]
          · rfl
      · rw [if_neg fun h : _ ∧ _ ∧ _ => hread h.2.1, if_neg fun h : _ ∧ _ => hread h.1]
        rfl
    · rw [if_neg fun h : _ ∧ _ => hcomplete h.1, if_neg fun h : _ ∧ _ => hcomplete h.2]
      rfl

theorem parse_overflows {debug : Text → Text} {s : Text}
    (hover : ¬ Fits 0 (readTerms s.length s).1) : parse debug ⟨true⟩ s = .error .overflow := by
  have hne : s ≠ [] := by
    rintro rfl
    exact hover trivial
  unfold parse
  rw [if_neg hne, parseLoop_eq_run, run_overflows (fun t ht => readTerms_plain ht) hover]
  rfl

theorem reads_iff_exact (debug : Text → Text) (s : Text) : ReadsExactly debug s ↔ Exact s := by
  constructor
  · rintro ⟨r, hr, hexact⟩
    have hfits : Fits 0 (readTerms s.length s).1 := by
      by_contra hover
      -- a sum that does not fit stops a build that checks overflow
      have hstop : parse debug ⟨true⟩ s = .error .overflow := parse_overflows hover
      cases hstop.symm.trans (hr ⟨true⟩)
    refine ⟨hfits, fun ts hts hread hsmall t ht => ?_⟩
    have hanswer := hr ⟨true⟩
    rw [parse_of_fits hfits, hts] at hanswer
    dsimp only at hanswer
    rw [if_pos ⟨hread, hsmall⟩] at hanswer
    rcases hexact _ (Except.ok.inj hanswer).symm with ⟨ts', hts', hsum⟩
    cases hts.symm.trans hts'
    -- the terms of the text are the ones that were read
    have hterms : ts = (readTerms s.length s).1 := by
      unfold termsOf at hts
      split at hts
      · exact (Option.some.inj hts).symm
      · cases hts
    have hword : 0 + total ts < 2 ^ 128 := by omega
    exact cut_of_added_eq (product_lt_of_fits (hterms ▸ hfits) hread hword ht)
      (eq_of_sum_eq hsum ht)
  · rintro ⟨hfits, hcut⟩
    refine ⟨_, fun b => parse_of_fits hfits, fun v hv => ?_⟩
    split at hv
    · cases hv
    · next ts hts =>
        split at hv
        · next hok =>
            cases hv
            refine ⟨ts, hts, ?_⟩
            unfold total
            congr 1
            exact List.map_congr_left fun t ht =>
              added_eq_amount (hcut ts hts hok.1 hok.2 t ht)
        · cases hv

/-! ## What is printed -/

/-- A text that is read as one term, which adds up to an amount without leaving a word. -/
structure Printed (text : Text) (t : Term) (amount : Nat) : Prop where
  read : ∀ next : Text, (∀ c ∈ next.head?, c.isDigit = true) →
    readTerm (text ++ next) = some (t, next)
  head : ∃ c rest, text = c :: rest ∧ c.isDigit = true
  readable : t.number.Readable
  product : digitsValue t.number.fraction * t.scale < 2 ^ 128
  added : t.added = amount

theorem units_spec : ∀ e ∈ units, e.1 ≠ [] ∧ (∀ c ∈ e.1, (!c.isDigit) = true) ∧
    (∀ c ∈ e.1.head?, isNumeral c = false) ∧ units.lookup e.1 = some e.2 := by
  decide

/-- A number and a unit are read up to the next number. -/
theorem readTerm_number {number unit next : Text} {n : Numeral} {scale : Nat}
    (hne : number ≠ []) (hnumber : ∀ c ∈ number, isNumeral c = true)
    (hread : Numeral.read number = some n) (hunit : (unit, scale) ∈ units)
    (hnext : ∀ c ∈ next.head?, c.isDigit = true) :
    readTerm (number ++ unit ++ next) = some (⟨n, scale⟩, next) := by
  rcases units_spec _ hunit with ⟨hunitNe, hnone, hhead, hlookup⟩
  have hstart : ∀ c ∈ (unit ++ next).head?, isNumeral c = false := by
    rwa [List.head?_append_of_ne_nil _ hunitNe]
  have hsplit : (number ++ unit ++ next).takeWhile isNumeral = number ∧
      (number ++ unit ++ next).dropWhile isNumeral = unit ++ next := by
    rw [List.append_assoc, List.takeWhile_append_of_pos hnumber,
      List.dropWhile_append_of_pos hnumber]
    cases hrest : unit ++ next with
    | nil => simp
    | cons c rest =>
        have hc : isNumeral c = false := hstart c (by rw [hrest]; rfl)
        simp [hc]
  have hend : (unit ++ next).takeWhile (fun c => !c.isDigit) = unit ∧
      (unit ++ next).dropWhile (fun c => !c.isDigit) = next := by
    rw [List.takeWhile_append_of_pos hnone, List.dropWhile_append_of_pos hnone]
    cases next with
    | nil => simp
    | cons c rest =>
        have hc : c.isDigit = true := hnext c rfl
        simp [hc]
  unfold readTerm
  dsimp only
  rw [hsplit.1, hsplit.2, hend.1, hend.2, hlookup, hread]
  exact if_neg fun h => h.elim hne hunitNe

theorem decimalText_head (n : Nat) (t : Text) :
    ∃ c rest, decimalText n ++ t = c :: rest ∧ c.isDigit = true := by
  cases hdigits : decimalText n with
  | nil => exact absurd hdigits (decimalText_ne_nil n)
  | cons c rest =>
      exact ⟨c, rest ++ t, rfl, decimalText_digit (n := n) (by rw [hdigits]; simp)⟩

theorem decimalText_numeral {n : Nat} {c : Char} (hc : c ∈ decimalText n) :
    isNumeral c = true := by
  simp [isNumeral, decimalText_digit hc]

theorem readable_whole {n : Nat} (h : n < 2 ^ 128) : Numeral.Readable ⟨decimalText n, []⟩ := by
  have hvalue : digitsValue (decimalText n) = n := digitsValue_decimalText n
  have hplaces : Numeral.places ⟨decimalText n, []⟩ = 0 := rfl
  have hnone : digitsValue [] < Numeral.wordBound := by decide
  refine ⟨⟨fun c => decimalText_digit, fun c hc => nomatch hc⟩, ?_, hnone, ?_⟩
  · rwa [hvalue]
  · rw [hplaces]
    decide

/-- A whole number of units. -/
theorem printed_whole {n scale : Nat} {unit : Text} (hunit : (unit, scale) ∈ units)
    (h : n < 2 ^ 128) : ∃ t, Printed (decimalText n ++ unit) t (n * scale) := by
  have hvalue : digitsValue (decimalText n) = n := digitsValue_decimalText n
  have hnone : digitsValue [] = 0 := rfl
  refine ⟨⟨⟨decimalText n, []⟩, scale⟩, ⟨fun next hnext => ?_, decimalText_head n unit,
    readable_whole h, ?_, ?_⟩⟩
  · exact readTerm_number (decimalText_ne_nil n) (fun c => decimalText_numeral)
      (Numeral.read_whole (decimalText_ne_nil n) fun c => decimalText_digit) hunit hnext
  · simp [hnone]
  · simp [Term.added, hvalue, hnone]

/-! ### Fractions -/

/-- The digits of a remainder, padded and trimmed. -/
def fractionText (rem places : Nat) : Text :=
  ((decimalText rem).leftpad places '0').rdropWhile (· = '0')

theorem digitsValue_zeros (k : Nat) : digitsValue (List.replicate k '0') = 0 := by
  unfold digitsValue
  simp

/-- Trimming takes zeros off the end: as many digits are left as the power of ten that is lost
leaves. -/
theorem fractionText_spec {rem d : Nat} (hrem : rem < 10 ^ d) (hpos : 0 < d) :
    (∀ c ∈ fractionText rem d, c.isDigit = true) ∧
      ∃ k, (fractionText rem d).length + k = d ∧ 10 ^ k * digitsValue (fractionText rem d) = rem := by
  have hlen : (decimalText rem).length ≤ d :=
    (Nat.length_toDigits_le_iff (by decide) hpos).2 hrem
  have hpadLen : ((decimalText rem).leftpad d '0').length = d := by
    simp [List.leftpad]
    omega
  have hpadValue : digitsValue ((decimalText rem).leftpad d '0') = rem := by
    rw [List.leftpad, digitsValue_append, digitsValue_zeros, digitsValue_decimalText, Nat.mul_zero,
      Nat.zero_add]
  have hpadDigits : ∀ c ∈ (decimalText rem).leftpad d '0', c.isDigit = true := by
    intro c hc
    rcases List.mem_append.1 hc with hzero | hdigit
    · rw [List.eq_of_mem_replicate hzero]
      rfl
    · exact decimalText_digit hdigit
  -- the padded digits are what is kept and the zeros that are trimmed
  have hsplit := List.rdropWhile_append_rtakeWhile (p := (· = '0'))
    (l := (decimalText rem).leftpad d '0')
  have hzeros : ((decimalText rem).leftpad d '0').rtakeWhile (· = '0') =
      List.replicate (((decimalText rem).leftpad d '0').rtakeWhile (· = '0')).length '0' :=
    List.eq_replicate_of_mem fun c hc => by simpa using List.mem_rtakeWhile_imp hc
  refine ⟨fun c hc => hpadDigits c ((List.rdropWhile_prefix _ _).subset hc),
    (((decimalText rem).leftpad d '0').rtakeWhile (· = '0')).length, ?_, ?_⟩
  · rw [← List.length_append]
    exact (congrArg List.length hsplit).trans hpadLen
  · rw [hzeros] at hsplit
    have hvalue := congrArg digitsValue hsplit
    rw [digitsValue_append, digitsValue_zeros, hpadValue, List.length_replicate,
      Nat.add_zero] at hvalue
    exact hvalue

theorem frac_eq {ns unit d : Nat} (hunit : unit = 10 ^ d) :
    frac ns unit =
      if ns % unit = 0 then decimalText (ns / unit)
      else decimalText (ns / unit) ++ '.' :: fractionText (ns % unit) d := by
  have hlog : Nat.log 10 unit = d := by
    rw [hunit, Nat.log_pow (by decide)]
  unfold frac
  simp only [toString_decimal, hlog]
  rfl

/-- The digits that are left are scaled back to the remainder. -/
theorem fractionText_scaled {rem d : Nat} (hrem : rem < 10 ^ d) (hpos : 0 < d) :
    digitsValue (fractionText rem d) * 10 ^ d = rem * 10 ^ (fractionText rem d).length := by
  rcases fractionText_spec hrem hpos with ⟨-, k, hlen, hvalue⟩
  calc digitsValue (fractionText rem d) * 10 ^ d
      = digitsValue (fractionText rem d) * 10 ^ ((fractionText rem d).length + k) := by rw [hlen]
    _ = 10 ^ k * digitsValue (fractionText rem d) * 10 ^ (fractionText rem d).length := by
        rw [Nat.pow_add]
        ring
    _ = rem * 10 ^ (fractionText rem d).length := by rw [hvalue]

/-- Any number of units with a fraction of up to nine digits. -/
theorem printed_fraction {w rem d : Nat} {name : Text} (hd : d ≤ 9) (hpos : 0 < d)
    (hrem : rem < 10 ^ d) (hname : (name, 10 ^ d) ∈ units) (hw : w < 2 ^ 128) :
    ∃ t, Printed (decimalText w ++ '.' :: fractionText rem d ++ name) t (w * 10 ^ d + rem) := by
  rcases fractionText_spec hrem hpos with ⟨hdigits, k, hlen, hvalue⟩
  -- at most nine digits, so the count of places does not wrap
  have hshort : (fractionText rem d).length < 2 ^ 32 := by omega
  have hplaces : Numeral.places ⟨decimalText w, fractionText rem d⟩ =
      (fractionText rem d).length := Nat.mod_eq_of_lt hshort
  have hwhole : digitsValue (decimalText w) = w := digitsValue_decimalText w
  have hunit : 10 ^ d ≤ 10 ^ 9 := Nat.pow_le_pow_right (by decide) hd
  have hfraction : digitsValue (fractionText rem d) ≤ 10 ^ 9 := by
    calc digitsValue (fractionText rem d) ≤ 10 ^ k * digitsValue (fractionText rem d) :=
          Nat.le_mul_of_pos_left _ (Nat.pow_pos (by decide))
      _ ≤ 10 ^ 9 := by omega
  refine ⟨⟨⟨decimalText w, fractionText rem d⟩, 10 ^ d⟩,
    ⟨fun next hnext => ?_, ?_, ⟨⟨fun c => decimalText_digit, hdigits⟩, ?_, ?_, ?_⟩, ?_, ?_⟩⟩
  · refine readTerm_number (by simp) (fun c hc => ?_)
      (Numeral.read_point _ (decimalText_ne_nil _) fun c => decimalText_digit) hname hnext
    rcases List.mem_append.1 hc with hc | hc
    · exact decimalText_numeral hc
    · rcases List.mem_cons.1 hc with rfl | hc
      · rfl
      · simp [isNumeral, hdigits c hc]
  · rw [List.append_assoc]
    exact decimalText_head _ _
  · rwa [hwhole]
  · exact lt_of_le_of_lt hfraction (by decide)
  · rw [hplaces]
    calc 10 ^ (fractionText rem d).length ≤ 10 ^ 9 :=
          Nat.pow_le_pow_right (by decide) (by omega)
      _ < Numeral.wordBound := by decide
  · calc digitsValue (fractionText rem d) * 10 ^ d ≤ 10 ^ 9 * 10 ^ 9 :=
          Nat.mul_le_mul hfraction hunit
      _ < 2 ^ 128 := by decide
  · unfold Term.added
    dsimp only
    rw [hplaces, hwhole, fractionText_scaled hrem hpos,
      Nat.mul_div_cancel _ (Nat.pow_pos (by decide))]

theorem printed_frac {ns unit d : Nat} {name : Text} (hunit : unit = 10 ^ d) (hd : d ≤ 9)
    (hpos : 0 < d) (hname : (name, unit) ∈ units) (h : ns < 2 ^ 64) :
    ∃ t, Printed (frac ns unit ++ name) t ns := by
  have hquot : ns / unit ≤ ns := Nat.div_le_self _ _
  rw [frac_eq hunit]
  split
  · next hzero =>
      have hwhole := printed_whole (n := ns / unit) hname (by omega)
      rwa [Nat.div_mul_cancel (Nat.dvd_of_mod_eq_zero hzero)] at hwhole
  · next hrem =>
      have hlt : ns % unit < 10 ^ d := hunit ▸ Nat.mod_lt _ (hunit ▸ Nat.pow_pos (by decide))
      have hfraction := printed_fraction (w := ns / unit) hd hpos hlt (hunit ▸ hname) (by omega)
      rwa [← hunit, Nat.div_add_mod'] at hfraction

/-! ### Sequences of terms -/

theorem fits_of_products {start : Nat} {ts : List Term}
    (h : ∀ t ∈ ts, digitsValue t.number.fraction * t.scale < 2 ^ 128) : Fits start ts := by
  induction ts generalizing start with
  | nil => trivial
  | cons t ts ih =>
      exact ⟨fun hover => absurd (h t (by simp)) (Nat.not_lt.2 hover.2.2),
        fun _ _ => ih fun u hu => h u (List.mem_cons_of_mem _ hu)⟩

/-- A text made of printed terms, each with its amount. -/
inductive Sequence : Text → Nat → Prop where
  | last {text t n} (h : Printed text t n) : Sequence text n
  | more {text rest t n m} (h : Printed text t n) (hrest : Sequence rest m) :
      Sequence (text ++ rest) (n + m)

theorem Sequence.head {text : Text} {n : Nat} (h : Sequence text n) :
    ∃ c rest, text = c :: rest ∧ c.isDigit = true := by
  cases h with
  | last h => exact h.head
  | more h hrest =>
      rcases h.head with ⟨c, rest, rfl, hc⟩
      exact ⟨c, _, rfl, hc⟩

theorem Sequence.readTerms {text : Text} {n : Nat} (h : Sequence text n) {fuel : Nat}
    (hfuel : text.length ≤ fuel) :
    ∃ ts, readTerms fuel text = (ts, true) ∧ total ts = n ∧
      ∀ t ∈ ts, t.number.Readable ∧ digitsValue t.number.fraction * t.scale < 2 ^ 128 := by
  -- on the sequence; no term is empty, so the fuel covers the rest
  induction h generalizing fuel with
  | @last text t n h =>
      rcases h.head with ⟨c, rest, rfl, -⟩
      cases fuel with
      | zero => simp at hfuel
      | succ fuel =>
          have hread : readTerm (c :: rest) = some (t, []) := by
            simpa using h.read [] (fun c hc => nomatch hc)
          have hnil : Duration.readTerms fuel [] = ([], true) := by
            cases fuel <;> rfl
          refine ⟨[t], ?_, ?_, ?_⟩
          · rw [readTerms_of_readTerm hread, hnil]
          · rw [total_cons, h.added]
            rfl
          · intro u hu
            rw [List.mem_singleton.1 hu]
            exact ⟨h.readable, h.product⟩
  | @more text rest t n m h hrest ih =>
      rcases h.head with ⟨c, text', rfl, -⟩
      rcases hrest.head with ⟨d, rest', hd, hdigit⟩
      cases fuel with
      | zero => simp at hfuel
      | succ fuel =>
          have hread : readTerm (c :: (text' ++ rest)) = some (t, rest) := by
            -- the term ends where the digits of the next one begin
            refine h.read rest fun x hx => ?_
            rw [hd] at hx
            cases hx
            exact hdigit
          have hshort : rest.length ≤ fuel := by
            simp at hfuel
            omega
          rcases ih hshort with ⟨ts, hts, hsum, hall⟩
          refine ⟨t :: ts, ?_, ?_, ?_⟩
          · rw [List.cons_append, readTerms_of_readTerm hread, hts]
          · rw [total_cons, h.added, hsum]
          · intro u hu
            rcases List.mem_cons.1 hu with rfl | hmem
            · exact ⟨h.readable, h.product⟩
            · exact hall u hmem

theorem parse_sequence (debug : Text → Text) (b : Build) {text : Text} {n : Nat}
    (h : Sequence text n) (hsmall : n < 2 ^ 64) : parse debug b text = .ok (.ok n) := by
  rcases h.readTerms le_rfl with ⟨ts, hts, hsum, hall⟩
  rcases h.head with ⟨c, rest, htext, -⟩
  have hne : text ≠ [] := by
    rw [htext]
    exact List.cons_ne_nil c rest
  have hfits : Fits 0 (readTerms text.length text).1 := by
    rw [hts]
    exact fits_of_products fun t ht => (hall t ht).2
  have hterms : termsOf text = some ts := by
    unfold termsOf
    rw [hts]
    exact if_pos ⟨hne, rfl⟩
  rw [parse_of_fits hfits, hterms]
  dsimp only
  rw [if_pos ⟨fun t ht => (hall t ht).1, hsum.symm ▸ hsmall⟩, hsum]

/-- What is printed is a sequence of terms that come to the duration. -/
theorem format_sequence {ns : Nat} (h : ns < 2 ^ 64) : Sequence (format ns) ns := by
  unfold format
  simp only [toString_decimal]
  split
  · -- nothing at all is `0s`
    next hzero =>
      rcases @printed_whole 0 1000000000 "s".toList (by decide) (by decide) with ⟨t, ht⟩
      rw [hzero]
      exact .last ht
  split
  · next =>
      -- below a microsecond, a millisecond and a second: one term
      rcases @printed_whole ns 1 "ns".toList (by decide) (by omega) with ⟨t, ht⟩
      rw [Nat.mul_one] at ht
      exact .last ht
  split
  · rcases @printed_frac ns 1000 3 "µs".toList rfl (by decide) (by decide) (by decide) h
      with ⟨t, ht⟩
    exact .last ht
  split
  · rcases @printed_frac ns 1000000 6 "ms".toList rfl (by decide) (by decide) (by decide) h
      with ⟨t, ht⟩
    exact .last ht
  · -- hours, minutes and seconds, the leading ones only where they are not zero
    have hsplit := Nat.div_add_mod ns 60000000000
    have hhours : ns / 60000000000 / 60 = ns / 3600000000000 := Nat.div_div_eq_div_mul _ _ _
    have hminutes := Nat.div_add_mod (ns / 60000000000) 60
    rcases @printed_frac (ns % 60000000000) 1000000000 9 "s".toList rfl (by decide) (by decide)
      (by decide) (by omega) with ⟨t, ht⟩
    rcases @printed_whole (ns / 60000000000 % 60) 60000000000 "m".toList (by decide) (by omega)
      with ⟨u, hu⟩
    rcases @printed_whole (ns / 3600000000000) 3600000000000 "h".toList (by decide) (by omega)
      with ⟨v, hv⟩
    split
    · split
      · have hall : ns % 60000000000 = ns := by omega
        have hlast := Sequence.last ht
        rwa [hall] at hlast ⊢
      · have hall : ns / 60000000000 % 60 * 60000000000 + ns % 60000000000 = ns := by omega
        have hmore := Sequence.more hu (.last ht)
        rwa [hall] at hmore
    · have hall : ns / 3600000000000 * 3600000000000 +
          (ns / 60000000000 % 60 * 60000000000 + ns % 60000000000) = ns := by omega
      have hmore := Sequence.more hv (.more hu (.last ht))
      rw [hall] at hmore
      rwa [List.append_assoc]

theorem parse_format (debug : Text → Text) (b : Build) (ns : UInt64) :
    parse debug b (format ns.toNat) = .ok (.ok ns.toNat) :=
  parse_sequence debug b (format_sequence ns.toNat_lt) ns.toNat_lt

/-- Which texts are refused or read exactly; and every duration that is printed is read back. -/
theorem duration_exact_iff (debug : Text → Text) :
    (∀ s, ReadsExactly debug s ↔ Exact s) ∧
      ∀ (b : Build) (ns : UInt64), parse debug b (format ns.toNat) = .ok (.ok ns.toNat) :=
  ⟨reads_iff_exact debug, parse_format debug⟩

/-- Twenty-eight nines after the point, in hours. -/
theorem long_fraction_loses_time :
    parse id ⟨false⟩ "0.9999999999999999999999999999h".toList = .ok (.ok 27035147330) ∧
      ¬ ReadsExactly id "0.9999999999999999999999999999h".toList := by
  constructor
  · decide +kernel
  · intro h
    have hfits := ((reads_iff_exact id _).1 h).1
    have hterms : (readTerms 31 "0.9999999999999999999999999999h".toList).1 =
        [⟨⟨['0'], List.replicate 28 '9'⟩, 3600000000000⟩] := by decide +kernel
    have hover : Numeral.Overflows 0 ⟨['0'], List.replicate 28 '9'⟩ 3600000000000 :=
      ⟨by decide +kernel, by decide +kernel, by decide +kernel⟩
    change Fits 0 (readTerms 31 _).1 at hfits
    rw [hterms] at hfits
    exact hfits.1 hover

end Duration
end FunctionWasm

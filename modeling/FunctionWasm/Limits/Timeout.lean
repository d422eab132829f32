import FunctionWasm.Foundation.Decimal

/-!
# Timeout — the deadline that a caller sets

A gRPC request may carry a timeout: a count and a letter for its unit.  Both servers add it to the
present instant.

* `parseGrpcTimeout` reads the header's text, in nanoseconds.
* `deadline` is what both callers compute from the header.
* `deadline_exact_iff` says for which headers and instants the deadline is the one that is stated.
-/

namespace FunctionWasm
namespace Timeout

/-! ## Reading -/

/-- `Duration::from_secs` and its kin. -/
def ofSecs (n : Nat) : Nat := n * 1000000000

def ofMillis (n : Nat) : Nat := n * 1000000

def ofMicros (n : Nat) : Nat := n * 1000

def ofNanos (n : Nat) : Nat := n

/-- Splits before the last byte.  Where the last character has more than one there is no such
place. -/
def splitUnit (v : Text) : Option (Text × Char) :=
  match v.getLast? with
  | none => none
  | some unit => some (v.dropLast, unit)

/-- `None` is a header without a timeout. -/
def parseGrpcTimeout (b : Build) (v : Text) : Checked (Option Nat) :=
  match splitUnit v with
  | none => .ok none
  | some (value, unit) =>
      -- a split inside of a character is one out of range
      if 128 ≤ unit.toNat then .error .outOfRange
      else
        match readWord (2 ^ 64) value with
        | none => .ok none
        | some value =>
            match unit with
            | 'H' => do return some (ofSecs (← b.mul 64 value 3600))
            | 'M' => do return some (ofSecs (← b.mul 64 value 60))
            | 'S' => .ok (some (ofSecs value))
            | 'm' => .ok (some (ofMillis value))
            | 'u' => .ok (some (ofMicros value))
            | 'n' => .ok (some (ofNanos value))
            | _ => .ok none

/-- The text of a header's value, which is given for visible ASCII only; and the first instant, in
nanoseconds, that the clock of the platform does not hold. -/
class Platform where
  toStr : Bytes → Option Text
  toStr_ascii : ∀ {header t}, toStr header = some t → ∀ c ∈ t, c.toNat < 128
  instants : Nat

open Platform

variable [Platform]

/-- `Instant + Duration`, which stops the program in any build where the sum is no instant. -/
def addInstant (now t : Nat) : Checked Nat :=
  if now + t < instants then .ok (now + t) else .error .overflow

/-- The deadline of a request that comes at `now`, from its header if it has one. -/
def deadline (b : Build) (now : Nat) (header : Option Bytes) : Checked (Option Nat) :=
  match header.bind toStr with
  | none => .ok none
  | some v => do
      match ← parseGrpcTimeout b v with
      | none => return none
      | some t => return some (← addInstant now t)

/-! ## What is stated -/

/-- Digits of any length. -/
def countOf (t : Text) : Option Nat :=
  let digits := stripPlus t
  if digits ≠ [] ∧ digits.all Char.isDigit then some (digitsValue digits) else none

/-- The factor that the code multiplies a count by itself, and the nanoseconds of one of what comes
out. -/
structure TimeUnit where
  factor : Nat
  step : Nat
  deriving DecidableEq

def unitOf : Char → Option TimeUnit
  | 'H' => some ⟨3600, 1000000000⟩
  | 'M' => some ⟨60, 1000000000⟩
  | 'S' => some ⟨1, 1000000000⟩
  | 'm' => some ⟨1, 1000000⟩
  | 'u' => some ⟨1, 1000⟩
  | 'n' => some ⟨1, 1⟩
  | _ => none

/-- A timeout as it is stated: a count and a unit. -/
structure Stated where
  count : Nat
  unit : TimeUnit
  deriving DecidableEq

def statedOf (v : Text) : Option Stated :=
  match splitUnit v with
  | none => none
  | some (value, unit) =>
      match countOf value, unitOf unit with
      | some count, some unit => some ⟨count, unit⟩
      | _, _ => none

def Stated.seconds (s : Stated) : Nat := s.count * s.unit.factor

def Stated.duration (s : Stated) : Nat := s.seconds * s.unit.step

/-- What a header states. -/
def stated (header : Option Bytes) : Option Stated :=
  (header.bind toStr).bind statedOf

/-- One answer in every build: no deadline, or the present instant and the duration stated. -/
def Exact (now : Nat) (header : Option Bytes) : Prop :=
  ∃ r, (∀ b, deadline b now header = .ok r) ∧
    ∀ d, r = some d → ∃ s, stated header = some s ∧ d = now + s.duration

/-- For one unit, a count that is not smaller gives no earlier deadline. -/
def NoEarlier (now : Nat) (header larger : Option Bytes) : Prop :=
  ∀ s l, stated header = some s → stated larger = some l → s.unit = l.unit → s.count ≤ l.count →
    ∀ b late, deadline b now larger = .ok (some late) →
      ∃ early, deadline b now header = .ok (some early) ∧ early ≤ late

/-- A count that a word holds is one whose seconds it holds, too, and the deadline is an instant. -/
def Fits (now : Nat) (header : Option Bytes) : Prop :=
  ∀ s, stated header = some s → s.count < 2 ^ 64 →
    s.seconds < 2 ^ 64 ∧ now + s.duration < instants

/-! ## Exactness -/

omit [Platform] in
theorem readWord_eq_countOf (bound : Nat) (t : Text) :
    readWord bound t = (countOf t).filter fun n => n < bound := by
  unfold readWord countOf
  dsimp only
  by_cases hdigits : stripPlus t ≠ [] ∧ (stripPlus t).all Char.isDigit = true
  · rw [if_pos hdigits]
    by_cases hlt : digitsValue (stripPlus t) < bound
    · rw [if_pos ⟨hdigits.1, hdigits.2, hlt⟩]
      simp [Option.filter, hlt]
    · rw [if_neg fun h => hlt h.2.2]
      simp [Option.filter, hlt]
  · rw [if_neg fun h => hdigits ⟨h.1, h.2.1⟩, if_neg hdigits]
    rfl

/-- The seconds, or the smaller steps, of a count that is a word. -/
def ofCount (b : Build) (s : Stated) : Checked (Option Nat) :=
  (b.mul 64 s.count s.unit.factor).map fun n => some (n * s.unit.step)

omit [Platform] in
/-- A letter turns a count that is a word into nanoseconds. -/
theorem letter_eq {b : Build} {count : Nat} (hword : count < 2 ^ 64) (unit : Char) :
    (match unit with
      | 'H' => do return some (ofSecs (← b.mul 64 count 3600))
      | 'M' => do return some (ofSecs (← b.mul 64 count 60))
      | 'S' => .ok (some (ofSecs count))
      | 'm' => .ok (some (ofMillis count))
      | 'u' => .ok (some (ofMicros count))
      | 'n' => .ok (some (ofNanos count))
      | _ => .ok none : Checked (Option Nat)) =
      match unitOf unit with
      | none => .ok none
      | some unit => ofCount b ⟨count, unit⟩ := by
  have hone : b.mul 64 count 1 = .ok count := by
    rw [Build.mul_of_lt (by omega), Nat.mul_one]
  have hstep : ∀ step, ofCount b ⟨count, ⟨1, step⟩⟩ = .ok (some (count * step)) := by
    intro step
    unfold ofCount
    rw [hone]
    rfl
  unfold unitOf
  split
  · dsimp only [ofCount]
    cases b.mul 64 count 3600 <;> rfl
  · dsimp only [ofCount]
    cases b.mul 64 count 60 <;> rfl
  · exact (hstep _).symm
  · exact (hstep _).symm
  · exact (hstep _).symm
  · have hnanos := (hstep 1).symm
    rwa [Nat.mul_one] at hnanos
  · rfl

omit [Platform] in
/-- Reading is reading what is stated, and turning a count that is a word into nanoseconds. -/
theorem parse_eq {b : Build} {v : Text} (hascii : ∀ c ∈ v, c.toNat < 128) :
    parseGrpcTimeout b v =
      match statedOf v with
      | none => .ok none
      | some s => if s.count < 2 ^ 64 then ofCount b s else .ok none := by
  unfold parseGrpcTimeout statedOf
  cases hsplit : splitUnit v with
  | none => rfl
  | some split =>
      rcases split with ⟨value, unit⟩
      have hunit : unit.toNat < 128 := by
        unfold splitUnit at hsplit
        split at hsplit
        · cases hsplit
        · next last hlast =>
            cases hsplit
            exact hascii _ (List.mem_of_getLast? hlast)
      dsimp only
      rw [if_neg (Nat.not_le.2 hunit), readWord_eq_countOf]
      cases countOf value with
      | none => rfl
      | some count =>
          by_cases hword : count < 2 ^ 64
          · have hfilter : (some count).filter (fun n => n < 2 ^ 64) = some count :=
              if_pos (decide_eq_true hword)
            rw [hfilter]
            refine (letter_eq hword unit).trans ?_
            cases unitOf unit with
            | none => rfl
            | some u => exact (if_pos hword).symm
          · have hfilter : (some count).filter (fun n => n < 2 ^ 64) = none :=
              if_neg fun h => hword (of_decide_eq_true h)
            rw [hfilter]
            cases unitOf unit with
            | none => rfl
            | some u => exact (if_neg hword).symm

omit [Platform] in
theorem ofCount_of_lt {b : Build} {s : Stated} (hfits : s.seconds < 2 ^ 64) :
    ofCount b s = .ok (some s.duration) := by
  have hmul : b.mul 64 s.count s.unit.factor = .ok s.seconds := Build.mul_of_lt hfits
  unfold ofCount
  rw [hmul]
  rfl

theorem stated_text {header : Option Bytes} {s : Stated} (h : stated header = some s) :
    ∃ v, header.bind toStr = some v ∧ statedOf v = some s ∧ ∀ c ∈ v, c.toNat < 128 := by
  rcases Option.bind_eq_some_iff.1 h with ⟨v, hv, hs⟩
  rcases Option.bind_eq_some_iff.1 hv with ⟨bytes, -, hbytes⟩
  exact ⟨v, hv, hs, toStr_ascii hbytes⟩

/-- A header that states nothing, or a count that is no word, sets no deadline. -/
theorem deadline_none {b : Build} {now : Nat} {header : Option Bytes}
    (h : ∀ s, stated header = some s → ¬ s.count < 2 ^ 64) : deadline b now header = .ok none := by
  unfold deadline
  cases hv : header.bind toStr with
  | none => rfl
  | some v =>
      rcases Option.bind_eq_some_iff.1 hv with ⟨bytes, -, hbytes⟩
      dsimp only
      rw [parse_eq (toStr_ascii hbytes)]
      cases hs : statedOf v with
      | none => rfl
      | some s =>
          have hlarge : ¬ s.count < 2 ^ 64 := h s (by rw [stated, hv]; exact hs)
          dsimp only
          rw [if_neg hlarge]
          rfl

theorem deadline_of_stated {b : Build} {now : Nat} {header : Option Bytes} {s : Stated}
    (h : stated header = some s) (hword : s.count < 2 ^ 64) :
    deadline b now header = (ofCount b s).bind fun t =>
      match t with
      | none => .ok none
      | some t => (addInstant now t).map some := by
  rcases stated_text h with ⟨v, hv, hs, hascii⟩
  unfold deadline
  rw [hv]
  dsimp only
  rw [parse_eq hascii, hs]
  dsimp only
  rw [if_pos hword]
  cases ofCount b s with
  | error e => rfl
  | ok t =>
      cases t with
      | none => rfl
      | some t =>
          change (addInstant now t).bind (fun d => .ok (some d)) = (addInstant now t).map some
          cases addInstant now t <;> rfl

/-- Where the seconds are a word, the deadline is the one stated, if it is an instant. -/
theorem deadline_of_fits {b : Build} {now : Nat} {header : Option Bytes} {s : Stated}
    (h : stated header = some s) (hword : s.count < 2 ^ 64)
    (hfits : s.seconds < 2 ^ 64) :
    deadline b now header = (addInstant now s.duration).map some := by
  rw [deadline_of_stated h hword, ofCount_of_lt hfits]
  rfl

theorem exact_of_fits {now : Nat} {header : Option Bytes} (h : Fits now header) :
    Exact now header := by
  by_cases hcount : ∃ s, stated header = some s ∧ s.count < 2 ^ 64
  · rcases hcount with ⟨s, hs, hword⟩
    rcases h s hs hword with ⟨hfits, hinstant⟩
    refine ⟨some (now + s.duration), fun b => ?_, fun d hd => ⟨s, hs, (Option.some.inj hd).symm⟩⟩
    rw [deadline_of_fits hs hword hfits, addInstant, if_pos hinstant]
    rfl
  · refine ⟨none, fun b => deadline_none fun s hs hword => hcount ⟨s, hs, hword⟩, fun d hd => ?_⟩
    cases hd

theorem fits_of_exact {now : Nat} {header : Option Bytes} (h : Exact now header) :
    Fits now header := by
  rcases h with ⟨r, hr, -⟩
  intro s hs hword
  have hfits : s.seconds < 2 ^ 64 := by
    by_contra hlarge
    -- a build with overflow checks stops at the product
    have hfault : ofCount ⟨true⟩ s = .error .overflow := by
      have hmul : Build.mul ⟨true⟩ 64 s.count s.unit.factor = .error .overflow := if_neg hlarge
      unfold ofCount
      rw [hmul]
      rfl
    have hstop := hr ⟨true⟩
    rw [deadline_of_stated hs hword, hfault] at hstop
    cases hstop
  refine ⟨hfits, ?_⟩
  by_contra hlarge
  have hstop := hr ⟨true⟩
  rw [deadline_of_fits hs hword hfits, addInstant, if_neg hlarge] at hstop
  cases hstop

theorem noEarlier_of_fits {now : Nat} {header larger : Option Bytes} (h : Fits now header)
    (hlarger : Fits now larger) : NoEarlier now header larger := by
  intro s l hs hl hunit hcount b late hlate
  have hword : l.count < 2 ^ 64 := by
    by_contra hlarge
    have hnone : deadline b now larger = .ok none := by
      refine deadline_none fun l' hl' => ?_
      cases hl.symm.trans hl'
      exact hlarge
    cases hnone.symm.trans hlate
  have hsmall : s.count < 2 ^ 64 := lt_of_le_of_lt hcount hword
  have hle : s.duration ≤ l.duration := by
    unfold Stated.duration Stated.seconds
    rw [hunit]
    exact Nat.mul_le_mul_right _ (Nat.mul_le_mul_right _ hcount)
  rw [deadline_of_fits hl hword (hlarger l hl hword).1, addInstant,
    if_pos (hlarger l hl hword).2] at hlate
  cases hlate
  refine ⟨now + s.duration, ?_, Nat.add_le_add_left hle now⟩
  rw [deadline_of_fits hs hsmall (h s hs hsmall).1, addInstant, if_pos (h s hs hsmall).2]
  rfl

/-- Which headers give the deadline that they state, and none that is earlier for a larger count. -/
theorem deadline_exact_iff (now : Nat) (header larger : Option Bytes) :
    (Exact now header ∧ Exact now larger ∧ NoEarlier now header larger) ↔
      Fits now header ∧ Fits now larger := by
  constructor
  · rintro ⟨hexact, hlarger, -⟩
    exact ⟨fits_of_exact hexact, fits_of_exact hlarger⟩
  · rintro ⟨hfits, hlarger⟩
    exact ⟨exact_of_fits hfits, exact_of_fits hlarger, noEarlier_of_fits hfits hlarger⟩

/-- A platform whose instants have signed seconds of 64 bits. -/
@[reducible] def signedSeconds : Platform where
  toStr header := (utf8? header).filter fun t => t.all fun c => c.toNat < 128
  toStr_ascii := by
    intro header t h c hc
    have hall := (Option.filter_eq_some_iff.1 h).2
    exact of_decide_eq_true (List.all_eq_true.1 hall c hc)
  instants := 2 ^ 63 * 1000000000

omit [Platform] in
/-- `2 ^ 60` hours are a deadline that has passed, and `2 ^ 63` seconds none that the clock holds. -/
theorem long_timeouts :
    @deadline signedSeconds ⟨false⟩ 1000 (some (textBytes "1152921504606846976H".toList)) =
        .ok (some 1000) ∧
      @deadline signedSeconds ⟨false⟩ 1000 (some (textBytes "9223372036854775808S".toList)) =
        .error .overflow ∧
      ¬ @Exact signedSeconds 1000 (some (textBytes "1152921504606846976H".toList)) := by
  have hours : @stated signedSeconds (some (textBytes "1152921504606846976H".toList)) =
      some ⟨1152921504606846976, ⟨3600, 1000000000⟩⟩ := by decide +kernel
  refine ⟨by decide +kernel, by decide +kernel, fun h => ?_⟩
  exact absurd (@fits_of_exact signedSeconds _ _ h _ hours (by decide)).1 (by decide)

end Timeout
end FunctionWasm

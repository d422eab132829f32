import Mathlib.Algebra.Order.Field.Basic
import Mathlib.Tactic.Linarith
import Mathlib.Tactic.FieldSimp
import Mathlib.Tactic.Ring

/-!
# TokenBucket — buckets that are filled at a rate

A bucket holds tokens up to a burst and gains them at a rate.  It is filled when it is looked at: it
keeps what it held and since when.

* `TokenBucket.balance` is what a bucket holds at a time; one that is not there is full.
* `TokenBucket.take` takes a token where there is a whole one.
* `Holds` is what every bucket satisfies: between nothing and the burst, and not from the future.
* `balance_later` is what a bucket gains, `full_of_idle` says when a bucket would not be missed.
-/

namespace FunctionWasm

/-- What a bucket held when it was last looked at. -/
structure TokenBucket (K : Type) where
  tokens : K
  last : K

namespace TokenBucket

variable {K : Type} [Field K] [LinearOrder K]

/-- What is held at a time. -/
def balance (rate burst now : K) : Option (TokenBucket K) → K
  | none => burst
  | some b => min (b.tokens + (now - b.last) * rate) burst

/-- Takes a token if there is one, and keeps what is left. -/
def take (rate burst now : K) (b : Option (TokenBucket K)) : Bool × TokenBucket K :=
  let held := balance rate burst now b
  if 1 ≤ held then (true, ⟨held - 1, now⟩) else (false, ⟨held, now⟩)

/-- The tokens that a request takes. -/
def cost (admitted : Bool) : K :=
  if admitted then 1 else 0

structure Holds (burst now : K) (b : TokenBucket K) : Prop where
  nonneg : 0 ≤ b.tokens
  le_burst : b.tokens ≤ burst
  last_le : b.last ≤ now

@[simp] theorem balance_none (rate burst now : K) : balance rate burst now none = burst := rfl

variable {rate burst now : K}

theorem balance_le_burst (b : Option (TokenBucket K)) : balance rate burst now b ≤ burst := by
  cases b with
  | none => exact le_refl burst
  | some b => exact min_le_right _ _

theorem balance_last {b : TokenBucket K} (h : Holds burst now b) :
    balance rate burst b.last (some b) = b.tokens := by
  have hstill : b.tokens + (b.last - b.last) * rate = b.tokens := by simp
  rw [balance, hstill]
  exact min_eq_left h.le_burst

/-- A token that is taken is not held any more. -/
theorem take_balance (b : Option (TokenBucket K)) :
    cost (take rate burst now b).1 + (take rate burst now b).2.tokens =
      balance rate burst now b := by
  unfold take
  dsimp only
  split
  · simp [cost]
  · simp [cost]

theorem take_last (b : Option (TokenBucket K)) : (take rate burst now b).2.last = now := by
  unfold take
  dsimp only
  split <;> rfl

/-- A request is decided by what is held. -/
theorem take_congr {b b' : Option (TokenBucket K)}
    (h : balance rate burst now b = balance rate burst now b') :
    take rate burst now b = take rate burst now b' := by
  unfold take
  rw [h]

theorem Holds.later {b : TokenBucket K} (h : Holds burst now b) {t : K} (htime : now ≤ t) :
    Holds burst t b :=
  ⟨h.nonneg, h.le_burst, h.last_le.trans htime⟩

/-- An empty bucket that was idle for less than it takes to fill it holds what came in. -/
theorem balance_of_idle {since : K} (hidle : (now - since) * rate < burst) :
    balance rate burst now (some ⟨0, since⟩) = (now - since) * rate := by
  rw [balance, zero_add]
  exact min_eq_left hidle.le

variable [IsStrictOrderedRing K]

theorem balance_nonneg (hrate : 0 ≤ rate) (hburst : 0 ≤ burst) {b : Option (TokenBucket K)}
    (h : ∀ x ∈ b, Holds burst now x) : 0 ≤ balance rate burst now b := by
  cases b with
  | none => exact hburst
  | some b =>
      have hb := h b rfl
      have hgain : 0 ≤ (now - b.last) * rate := mul_nonneg (sub_nonneg.2 hb.last_le) hrate
      exact le_min (add_nonneg hb.nonneg hgain) hburst

/-- What is held later is what is held now and what comes in, up to the burst. -/
theorem balance_later (hrate : 0 ≤ rate) {t : K} (htime : now ≤ t) (b : Option (TokenBucket K)) :
    balance rate burst t b = min (balance rate burst now b + (t - now) * rate) burst := by
  have hgain : 0 ≤ (t - now) * rate := mul_nonneg (sub_nonneg.2 htime) hrate
  have hmore : burst ≤ burst + (t - now) * rate := le_add_of_nonneg_right hgain
  cases b with
  | none => exact (min_eq_right hmore).symm
  | some b =>
      calc
        balance rate burst t (some b)
            = min (b.tokens + (now - b.last) * rate + (t - now) * rate) burst := by
              rw [balance]
              congr 1
              ring
        _ = min (b.tokens + (now - b.last) * rate + (t - now) * rate)
              (min (burst + (t - now) * rate) burst) := by rw [min_eq_right hmore]
        _ = min (balance rate burst now (some b) + (t - now) * rate) burst := by
              rw [balance, ← min_assoc, min_add_add_right]

theorem balance_le_later (hrate : 0 ≤ rate) {t : K} (htime : now ≤ t) (b : Option (TokenBucket K)) :
    balance rate burst t b ≤ balance rate burst now b + (t - now) * rate :=
  (balance_later hrate htime b).trans_le (min_le_left _ _)

theorem take_holds (hrate : 0 ≤ rate) (hburst : 0 ≤ burst) {b : Option (TokenBucket K)}
    (h : ∀ x ∈ b, Holds burst now x) : Holds burst now (take rate burst now b).2 := by
  have hle : balance rate burst now b ≤ burst := balance_le_burst b
  have hnonneg := balance_nonneg hrate hburst h
  unfold take
  dsimp only
  split
  next hone =>
    exact ⟨sub_nonneg.2 hone, (sub_le_self _ zero_le_one).trans hle, le_refl now⟩
  next => exact ⟨hnonneg, hle, le_refl now⟩

/-- What is held after a request is what the bucket keeps. -/
theorem balance_take (hrate : 0 ≤ rate) (hburst : 0 ≤ burst) {b : Option (TokenBucket K)}
    (h : ∀ x ∈ b, Holds burst now x) :
    balance rate burst now (some (take rate burst now b).2) = (take rate burst now b).2.tokens := by
  have hlast : balance rate burst (take rate burst now b).2.last
      (some (take rate burst now b).2) = (take rate burst now b).2.tokens :=
    balance_last (take_holds hrate hburst h)
  rwa [take_last] at hlast

/-- A bucket that was idle for as long as it takes to fill it is full. -/
theorem full_of_idle {b : TokenBucket K} (h : Holds burst now b)
    (hidle : burst ≤ (now - b.last) * rate) : balance rate burst now (some b) = burst :=
  min_eq_right (le_add_of_nonneg_of_le h.nonneg hidle)

end TokenBucket
end FunctionWasm

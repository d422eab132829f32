import Mathlib.Algebra.BigOperators.Group.Finset.Piecewise
import Mathlib.Algebra.Order.BigOperators.Group.Finset
import Mathlib.Logic.Function.Basic

/-!
# Tally — the weights of things by number, summed

A counter that goes up when a thing comes into a state and down when it leaves it shows how many
things are in that state.  Things are numbered as they arrive; a weight says what each adds.

* `tally` is the sum over the things that have arrived.
* `tally_update` and `tally_arrive` say how it moves with one thing, `tally_same` when it does not.
* `weight_le_tally` and `tally_eq_zero` read it.
-/

namespace FunctionWasm

variable {α : Type}

/-- What the first `n` things weigh together. -/
def tally (w : α → Nat) (f : Nat → Option α) (n : Nat) : Nat :=
  ∑ i ∈ Finset.range n, (f i).elim 0 w

variable {w : α → Nat} {f : Nat → Option α} {n i : Nat} {x y : α}

theorem elim_update (w : α → Nat) (f : Nat → Option α) (i : Nat) (y : α) :
    (fun k => (Function.update f i (some y) k).elim 0 w) =
      Function.update (fun k => (f k).elim 0 w) i (w y) := by
  funext k
  by_cases hk : k = i
  · subst hk
    simp
  · simp [hk]

/-- One thing changes. -/
theorem tally_update (hi : i < n) (hx : f i = some x) (y : α) :
    tally w (Function.update f i (some y)) n + w x = tally w f n + w y := by
  have hmem : i ∈ Finset.range n := Finset.mem_range.2 hi
  have hold : (f i).elim 0 w = w x := by rw [hx, Option.elim_some]
  calc tally w (Function.update f i (some y)) n + w x
      = (w y + ∑ k ∈ (Finset.range n).erase i, (f k).elim 0 w) + (f i).elim 0 w := by
        unfold tally
        rw [elim_update, Finset.sum_update_of_mem hmem, Finset.sdiff_singleton_eq_erase, hold]
    _ = ((f i).elim 0 w + ∑ k ∈ (Finset.range n).erase i, (f k).elim 0 w) + w y := by
        rw [Nat.add_comm (w y), Nat.add_right_comm, Nat.add_comm ((f i).elim 0 w)]
    _ = tally w f n + w y := by
        unfold tally
        rw [Finset.add_sum_erase _ (fun k => (f k).elim 0 w) hmem]

/-- A change that the weight does not see. -/
theorem tally_same (hi : i < n) (hx : f i = some x) (hw : w y = w x) :
    tally w (Function.update f i (some y)) n = tally w f n :=
  Nat.add_right_cancel ((tally_update hi hx y).trans (congrArg _ hw))

/-- One thing arrives. -/
theorem tally_arrive (w : α → Nat) (f : Nat → Option α) (n : Nat) (y : α) :
    tally w (Function.update f n (some y)) (n + 1) = tally w f n + w y := by
  have hnot : n ∉ Finset.range n := Finset.notMem_range_self
  unfold tally
  rw [elim_update, Finset.sum_range_succ, Finset.sum_update_of_notMem hnot, Function.update_self]

theorem weight_le_tally (hi : i < n) (hx : f i = some x) : w x ≤ tally w f n := by
  have hold : (f i).elim 0 w = w x := by rw [hx, Option.elim_some]
  rw [← hold]
  exact Finset.single_le_sum (f := fun k => (f k).elim 0 w) (fun _ _ => Nat.zero_le _)
    (Finset.mem_range.2 hi)

theorem tally_eq_zero (h : ∀ i x, f i = some x → w x = 0) : tally w f n = 0 := by
  apply Finset.sum_eq_zero
  intro i _
  cases hx : f i with
  | none => rfl
  | some x => exact h i x hx

end FunctionWasm

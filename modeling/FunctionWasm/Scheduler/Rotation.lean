import Mathlib.Data.List.Nodup
import FunctionWasm.Scheduler.FairScheduler

/-!
# Rotation — what the lock guards, operation by operation

Each of the scheduler's operations keeps the rotation and the map of queues in step, and says where
the queues after it come from.

* `Rotation` is the invariant, `Rotation.grantTo`, `Rotation.enqueue` and `Rotation.removeWaiter`
  keep it.
* `grantTo_queue`, `enqueue_queue` and `removeWaiter_queue` trace a queue back.
-/

namespace FunctionWasm

variable {κ : Type} [DecidableEq κ]

/-! ## The rotation -/

/-- The rotation lists each key with a queue once, and no queue is empty. -/
structure Rotation (s : SchedulerState κ) : Prop where
  queue_ne : ∀ {k q}, s.queues k = some q → q ≠ []
  order_nodup : s.order.Nodup
  mem_order : ∀ {k}, k ∈ s.order ↔ ∃ q, s.queues k = some q

namespace Rotation

variable {s : SchedulerState κ} {key : κ} {w : Waiter} {q : List Waiter} {order : List κ}

theorem grantTo (h : Rotation s) (horder : s.order = key :: order)
    (hq : s.queues key = some (w :: q)) : Rotation (s.grantTo key q order) := by
  have hnodup : (key :: order).Nodup := by
    rw [← horder]
    exact h.order_nodup
  refine ⟨?_, ?_, ?_⟩
  · intro k q' hk
    by_cases hkey : k = key
    · subst hkey
      by_cases hempty : q = []
      · simp [SchedulerState.grantTo, hempty] at hk
      · simp only [SchedulerState.grantTo, Function.update_self, if_neg hempty] at hk
        cases hk
        exact hempty
    · simp only [SchedulerState.grantTo, Function.update_of_ne hkey] at hk
      exact h.queue_ne hk
  · by_cases hempty : q = []
    · simpa [SchedulerState.grantTo, hempty] using (List.nodup_cons.1 hnodup).2
    · have hperm : (order ++ [key]).Perm (key :: order) := List.perm_append_singleton key order
      simpa [SchedulerState.grantTo, hempty] using hperm.nodup_iff.2 hnodup
  · intro k
    have hbefore : k ∈ key :: order ↔ ∃ q', s.queues k = some q' := by
      rw [← horder]
      exact h.mem_order
    by_cases hkey : k = key
    · subst hkey
      by_cases hempty : q = []
      · simp [SchedulerState.grantTo, hempty, (List.nodup_cons.1 hnodup).1]
      · simp [SchedulerState.grantTo, hempty]
    · simp only [SchedulerState.grantTo, Function.update_of_ne hkey, ← hbefore]
      by_cases hempty : q = [] <;> simp [hempty, hkey]

theorem enqueue (h : Rotation s) (key : κ) (w : Waiter) : Rotation (s.enqueue key w) := by
  refine ⟨?_, ?_, ?_⟩
  · intro k q' hk
    by_cases hkey : k = key
    · subst hkey
      simp only [SchedulerState.enqueue, Function.update_self] at hk
      cases hk
      simp
    · simp only [SchedulerState.enqueue, Function.update_of_ne hkey] at hk
      exact h.queue_ne hk
  · cases hq : s.queues key with
    | some q => simpa [SchedulerState.enqueue, hq] using h.order_nodup
    | none =>
        have hnot : key ∉ s.order := by
          intro hmem
          rcases h.mem_order.1 hmem with ⟨q, hsome⟩
          rw [hq] at hsome
          cases hsome
        have hperm : (s.order ++ [key]).Perm (key :: s.order) :=
          List.perm_append_singleton key s.order
        have hnodup : (key :: s.order).Nodup := List.nodup_cons.2 ⟨hnot, h.order_nodup⟩
        simpa [SchedulerState.enqueue, hq] using hperm.nodup_iff.2 hnodup
  · intro k
    by_cases hkey : k = key
    · subst hkey
      cases hq : s.queues k with
      | some q => simp [SchedulerState.enqueue, hq, h.mem_order]
      | none => simp [SchedulerState.enqueue, hq]
    · simp only [SchedulerState.enqueue, Function.update_of_ne hkey, ← h.mem_order]
      cases hq : s.queues key with
      | some q => simp
      | none => simp [hkey]

theorem removeWaiter (h : Rotation s) (key : κ) (id : Nat) : Rotation (s.removeWaiter key id) := by
  unfold SchedulerState.removeWaiter
  cases hq : s.queues key with
  | none => exact h
  | some q =>
      by_cases hempty : q.filter (fun w => w.id ≠ id) = []
      · simp only [hempty, if_true]
        refine ⟨?_, h.order_nodup.filter _, ?_⟩
        · intro k q' hk
          by_cases hkey : k = key
          · simp [hkey] at hk
          · simp only [Function.update_of_ne hkey] at hk
            exact h.queue_ne hk
        · intro k
          by_cases hkey : k = key
          · simp [hkey]
          · simp [hkey, h.mem_order]
      · simp only [hempty, if_false]
        refine ⟨?_, h.order_nodup, ?_⟩
        · intro k q' hk
          by_cases hkey : k = key
          · subst hkey
            simp only [Function.update_self] at hk
            cases hk
            exact hempty
          · simp only [Function.update_of_ne hkey] at hk
            exact h.queue_ne hk
        · intro k
          by_cases hkey : k = key
          · simp [hkey, h.mem_order, hq]
          · simp [hkey, h.mem_order]

end Rotation

/-! ## Queues after an operation -/

theorem grantTo_queue {s : SchedulerState κ} {key k : κ} {w : Waiter} {q q' : List Waiter}
    {order : List κ} (hq : s.queues key = some (w :: q))
    (hk : (s.grantTo key q order).queues k = some q') :
    ∃ q0, s.queues k = some q0 ∧ q'.Sublist q0 ∧ (k = key → q' = q) := by
  by_cases hkey : k = key
  · subst hkey
    by_cases hempty : q = []
    · simp [SchedulerState.grantTo, hempty] at hk
    · simp only [SchedulerState.grantTo, Function.update_self, if_neg hempty] at hk
      cases hk
      exact ⟨w :: q, hq, List.sublist_cons_self w q, fun _ => rfl⟩
  · simp only [SchedulerState.grantTo, Function.update_of_ne hkey] at hk
    exact ⟨q', hk, List.Sublist.refl q', fun hEq => absurd hEq hkey⟩

theorem removeWaiter_queue {s : SchedulerState κ} {key k : κ} {id : Nat} {q' : List Waiter}
    (hk : (s.removeWaiter key id).queues k = some q') :
    ∃ q0, s.queues k = some q0 ∧ q'.Sublist q0 ∧ (k = key → ∀ w ∈ q', w.id ≠ id) := by
  unfold SchedulerState.removeWaiter at hk
  cases hq : s.queues key with
  | none =>
      rw [hq] at hk
      refine ⟨q', hk, List.Sublist.refl q', ?_⟩
      rintro rfl
      rw [hq] at hk
      cases hk
  | some q =>
      rw [hq] at hk
      by_cases hkey : k = key
      · subst hkey
        by_cases hempty : q.filter (fun w => w.id ≠ id) = []
        · simp only [hempty, if_true, Function.update_self] at hk
          cases hk
        · simp only [hempty, if_false, Function.update_self] at hk
          cases hk
          exact ⟨q, hq, List.filter_sublist, fun _ w hw => by simpa using (List.mem_filter.1 hw).2⟩
      · have hsame : s.queues k = some q' := by
          by_cases hempty : q.filter (fun w => w.id ≠ id) = []
          · simpa only [hempty, if_true, Function.update_of_ne hkey] using hk
          · simpa only [hempty, if_false, Function.update_of_ne hkey] using hk
        exact ⟨q', hsame, List.Sublist.refl q', fun hEq => absurd hEq hkey⟩

theorem enqueue_queue {s : SchedulerState κ} {key k : κ} {w : Waiter} {q' : List Waiter}
    (hk : (s.enqueue key w).queues k = some q') :
    (k = key ∧ q' = (s.queues k).getD [] ++ [w]) ∨ s.queues k = some q' := by
  by_cases hkey : k = key
  · subst hkey
    simp only [SchedulerState.enqueue, Function.update_self] at hk
    cases hk
    exact Or.inl ⟨rfl, rfl⟩
  · simp only [SchedulerState.enqueue, Function.update_of_ne hkey] at hk
    exact Or.inr hk

end FunctionWasm

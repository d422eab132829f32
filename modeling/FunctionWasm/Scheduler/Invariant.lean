import FunctionWasm.Scheduler.Ledger

/-!
# Invariant — what holds of the scheduler in every reachable state

The slot counter is arithmetic on top of the ledger: slots in use are the guards alive and the
grants in flight, and none is free while a waiter queues.

* `schedulerInv_step` is the step lemma, `schedulerInv_of_reachable` the invariant.
-/

namespace FunctionWasm

variable {κ : Type}

open SchedulerSystem

/-! ## The slot counter -/

/-- `spare` slots are free beside those the system accounts for, and none while a waiter queues. -/
structure Counter (total spare : Nat) (s : SchedulerSystem κ) : Prop where
  active_le : s.state.active + spare ≤ total
  active_eq : s.state.active = s.guards + s.mailbox.length
  full : ∀ {k q}, s.state.queues k = some q → s.state.active + spare = total

/-- The invariant: the ledger, and a counter that has no slot to spare. -/
structure SchedulerInv (total : Nat) (s : SchedulerSystem κ) : Prop where
  ledger : Ledger s
  counter : Counter total 0 s

theorem schedulerInv_new (total : Nat) :
    SchedulerInv total (SchedulerSystem.new : SchedulerSystem κ) where
  ledger := Ledger.new
  counter := ⟨by simp [SchedulerSystem.new], rfl, by simp [SchedulerSystem.new]⟩

/-- With a slot free nobody waits. -/
theorem SchedulerInv.no_queue {total : Nat} {s : SchedulerSystem κ} (h : SchedulerInv total s)
    (hfree : s.state.active < total) (k : κ) : s.state.queues k = none := by
  cases hq : s.state.queues k with
  | none => rfl
  | some q =>
      have hfull : s.state.active + 0 = total := h.counter.full hq
      omega

theorem Counter.takeSlot {total : Nat} {s : SchedulerSystem κ} (h : Counter total 0 s) {key : κ}
    {id : Nat} (hfree : s.state.active < total) (hnone : ∀ k, s.state.queues k = none) :
    Counter total 0 (s.takeSlot key id) := by
  refine ⟨hfree, ?_, ?_⟩
  · simp only [SchedulerSystem.takeSlot, h.active_eq]
    omega
  · intro k q hk
    rw [show (s.takeSlot key id).state.queues k = none from hnone k] at hk
    cases hk

theorem Counter.receive {total : Nat} {s : SchedulerSystem κ} (h : Counter total 0 s) {n : Nat}
    {c : Call κ} (hmem : n ∈ s.mailbox) : Counter total 0 (s.receive n c) := by
  refine ⟨h.active_le, ?_, h.full⟩
  have heq : s.state.active = s.guards + s.mailbox.length := h.active_eq
  have hlen : (s.mailbox.erase n).length = s.mailbox.length - 1 := List.length_erase_of_mem hmem
  have hpos : 0 < s.mailbox.length := List.length_pos_of_mem hmem
  simp only [SchedulerSystem.receive, setCall, hlen, heq]
  omega

theorem Counter.handOn {total : Nat} {s : SchedulerSystem κ} (h : Counter total 0 s) {n : Nat}
    {c : Call κ} (hmem : n ∈ s.mailbox) : Counter total 1 (s.handOn n c) := by
  have hle : s.state.active + 0 ≤ total := h.active_le
  have heq : s.state.active = s.guards + s.mailbox.length := h.active_eq
  have hlen : (s.mailbox.erase n).length = s.mailbox.length - 1 := List.length_erase_of_mem hmem
  have hpos : 0 < s.mailbox.length := List.length_pos_of_mem hmem
  refine ⟨?_, ?_, ?_⟩
  · simp only [SchedulerSystem.handOn, setCall]
    omega
  · simp only [SchedulerSystem.handOn, setCall, hlen]
    omega
  · intro k q hk
    have hfull : s.state.active + 0 = total := h.full hk
    simp only [SchedulerSystem.handOn, setCall]
    omega

theorem Counter.dropGuard {total : Nat} {s : SchedulerSystem κ} (h : Counter total 0 s)
    (hguards : 0 < s.guards) : Counter total 1 s.dropGuard := by
  have hle : s.state.active + 0 ≤ total := h.active_le
  have heq : s.state.active = s.guards + s.mailbox.length := h.active_eq
  refine ⟨?_, ?_, ?_⟩
  · simp only [SchedulerSystem.dropGuard]
    omega
  · simp only [SchedulerSystem.dropGuard]
    omega
  · intro k q hk
    have hfull : s.state.active + 0 = total := h.full hk
    simp only [SchedulerSystem.dropGuard]
    omega

variable [DecidableEq κ]

/-- A slot given back is passed to a waiter where there is one. -/
theorem Counter.wake {total : Nat} {s : SchedulerSystem κ} (h : Counter total 1 s)
    (hledger : Ledger s) : Counter total 0 s.wake := by
  rcases hledger.wake_cases with ⟨horder, hwake⟩ | ⟨key, w, q, order, _, hq, hwake⟩
  · rw [hwake]
    refine ⟨Nat.le_of_succ_le h.active_le, h.active_eq, ?_⟩
    intro k q hk
    have hmem : k ∈ s.state.order := hledger.rotation.mem_order.2 ⟨q, hk⟩
    rw [horder] at hmem
    cases hmem
  · rw [hwake]
    have hfull : s.state.active + 1 = total := h.full hq
    refine ⟨?_, ?_, fun _ => ?_⟩
    · exact h.active_le
    · simp only [SchedulerState.grantTo, List.length_append, List.length_singleton, h.active_eq]
      omega
    · exact hfull

theorem removeWaiter_active (s : SchedulerState κ) (key : κ) (id : Nat) :
    (s.removeWaiter key id).active = s.active := by
  unfold SchedulerState.removeWaiter
  cases s.queues key with
  | none => rfl
  | some q =>
      dsimp only
      split <;> rfl

theorem Counter.leave {total : Nat} {s : SchedulerSystem κ} (h : Counter total 0 s) (n : Nat)
    (c : Call κ) : Counter total 0 (s.leave n c) := by
  have hactive : (s.leave n c).state.active = s.state.active :=
    removeWaiter_active s.state c.key c.id
  refine ⟨hactive ▸ h.active_le, hactive.trans h.active_eq, ?_⟩
  intro k q hk
  rcases removeWaiter_queue hk with ⟨q0, hq0, _⟩
  rw [hactive]
  exact h.full hq0

/-- Every move keeps the invariant. -/
theorem schedulerInv_step {total : Nat} {s s' : SchedulerSystem κ} {a : SchedulerAction κ}
    (h : SchedulerInv total s) (hs : schedulerStep total s a = some s') :
    SchedulerInv total s' := by
  rcases schedulerStep_cases hs with ⟨key, id, hfree, rfl⟩ | ⟨key, id, hfull, rfl⟩ |
    ⟨n, c, hc, hmem, rfl⟩ | ⟨n, c, hc, rfl⟩ | ⟨n, c, hc, hmem, rfl⟩ | ⟨n, c, hc, hmem, rfl⟩ |
    ⟨hguards, rfl⟩
  · have hnone : ∀ k, s.state.queues k = none := h.no_queue hfree
    exact ⟨h.ledger.takeSlot hnone key id, h.counter.takeSlot hfree hnone⟩
  · have hle : s.state.active + 0 ≤ total := h.counter.active_le
    have hactive : s.state.active = total := by omega
    exact ⟨h.ledger.queueUp key id, h.counter.active_le, h.counter.active_eq, fun _ => hactive⟩
  · exact ⟨h.ledger.receive hc hmem, h.counter.receive hmem⟩
  · exact ⟨h.ledger.expire hc, h.counter.active_le, h.counter.active_eq, h.counter.full⟩
  · have hledger : Ledger (s.handOn n c) := h.ledger.handOn hc hmem
    exact ⟨hledger.wake, (h.counter.handOn hmem).wake hledger⟩
  · exact ⟨h.ledger.leave hc hmem, h.counter.leave n c⟩
  · have hledger : Ledger s.dropGuard := h.ledger.dropGuard
    exact ⟨hledger.wake, (h.counter.dropGuard hguards).wake hledger⟩

theorem schedulerInv_of_reachable {total : Nat} {s : SchedulerSystem κ}
    (h : (fairScheduler κ total).Reachable s) : SchedulerInv total s := by
  refine TransitionSystem.Reachable.invariant ?_ ?_ h
  · rintro _ rfl
    exact schedulerInv_new total
  · intro s a s' _ hinv hstep
    exact schedulerInv_step hinv hstep

end FunctionWasm

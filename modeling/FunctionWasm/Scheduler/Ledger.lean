import Mathlib.Data.List.Perm.Basic
import FunctionWasm.Scheduler.Rotation

/-!
# Ledger — queues, calls in flight and history agree

The bookkeeping of the scheduler does not mention the slot counter, so it holds also between giving
a slot back and waking the next waiter.

* `Ledger` is the bookkeeping.
* `Ledger.takeSlot`, `receive`, `expire`, `handOn`, `dropGuard`, `queueUp` and `leave` keep it, up to
  the wake that follows two of them.
* `Ledger.wake_cases` is what `wake_next` can do, `Ledger.wake` says that it keeps the ledger.
-/

namespace FunctionWasm

variable {κ : Type}

open SchedulerSystem

/-! ## The ledger -/

/-- Queues, calls and history agree. -/
structure Ledger (s : SchedulerSystem κ) : Prop where
  rotation : Rotation s.state
  queued : ∀ {k q w}, s.state.queues k = some q → w ∈ q →
    ∃ c, s.calls w.tx = some c ∧ c.key = k ∧ c.id = w.id ∧ c.pending ∧
      w.tx ∉ s.grants.map Prod.snd
  queue_sorted : ∀ {k q}, s.state.queues k = some q → q.Pairwise fun w w' => w.tx < w'.tx
  called : ∀ {n c}, s.calls n = some c → n < s.arrived
  granted_called : ∀ {k n}, (k, n) ∈ s.grants → n < s.arrived
  granted_sorted : s.grants.Pairwise fun g g' => g.1 = g'.1 → g.2 < g'.2
  granted_first : ∀ {k n q w}, (k, n) ∈ s.grants → s.state.queues k = some q → w ∈ q → n < w.tx
  grants_nodup : (s.grants.map Prod.snd).Nodup
  accounted : (s.grants.map Prod.snd).Perm (s.mailbox ++ (s.received ++ s.handedOn))
  mailbox_pending : ∀ {n}, n ∈ s.mailbox → ∃ c, s.calls n = some c ∧ c.pending

namespace Ledger

variable {s : SchedulerSystem κ}

theorem new : Ledger (SchedulerSystem.new : SchedulerSystem κ) := by
  have hrotation : Rotation (SchedulerSystem.new : SchedulerSystem κ).state := by
    constructor <;> simp [SchedulerSystem.new]
  constructor
  · exact hrotation
  all_goals simp [SchedulerSystem.new]

/-- A grant that is in a channel is one of the grants made. -/
theorem granted_of_mailbox (h : Ledger s) {n : Nat} (hn : n ∈ s.mailbox) :
    n ∈ s.grants.map Prod.snd :=
  h.accounted.mem_iff.2 (List.mem_append_left _ hn)

theorem mailbox_nodup (h : Ledger s) : s.mailbox.Nodup :=
  (List.nodup_append.1 (h.accounted.nodup_iff.1 h.grants_nodup)).1

/-- The slot counter and the guards are not the ledger's business. -/
theorem counters (h : Ledger s) (active guards : Nat) :
    Ledger { s with
      state := { s.state with active := active }
      guards := guards } where
  rotation := ⟨h.rotation.queue_ne, h.rotation.order_nodup, h.rotation.mem_order⟩
  queued := h.queued
  queue_sorted := h.queue_sorted
  called := h.called
  granted_called := h.granted_called
  granted_sorted := h.granted_sorted
  granted_first := h.granted_first
  grants_nodup := h.grants_nodup
  accounted := h.accounted
  mailbox_pending := h.mailbox_pending

/-- The next call has no grant yet. -/
theorem fresh (h : Ledger s) : s.arrived ∉ s.grants.map Prod.snd := by
  intro hmem
  rcases List.mem_map.1 hmem with ⟨⟨k, n⟩, hg, rfl⟩
  exact absurd (h.granted_called hg) (Nat.lt_irrefl _)

/-- A call made while no waiter is queued takes a slot at once. -/
theorem takeSlot (h : Ledger s) (hnone : ∀ k, s.state.queues k = none) (key : κ) (id : Nat) :
    Ledger (s.takeSlot key id) := by
  have hqueue : ∀ {k q}, s.state.queues k ≠ some q := by
    intro k q hk
    rw [hnone k] at hk
    cases hk
  constructor
  case rotation =>
    exact ⟨h.rotation.queue_ne, h.rotation.order_nodup, h.rotation.mem_order⟩
  case queued =>
    intro k q w hk
    exact absurd hk hqueue
  case queue_sorted =>
    intro k q hk
    exact absurd hk hqueue
  case called =>
    intro n c' hn
    by_cases hEq : n = s.arrived
    · rw [hEq]
      exact Nat.lt_succ_self _
    · simp only [SchedulerSystem.takeSlot, Function.update_of_ne hEq] at hn
      exact Nat.lt_succ_of_lt (h.called hn)
  case granted_called =>
    intro k n hmem
    rcases List.mem_append.1 hmem with hold | hlast
    · exact Nat.lt_succ_of_lt (h.granted_called hold)
    · cases List.mem_singleton.1 hlast
      exact Nat.lt_succ_self _
  case granted_sorted =>
    refine List.pairwise_append.2 ⟨h.granted_sorted, List.pairwise_singleton _ _, ?_⟩
    rintro ⟨k, n⟩ hg g' hg' _
    cases List.mem_singleton.1 hg'
    exact h.granted_called hg
  case granted_first =>
    intro k n q w _ hk
    exact absurd hk hqueue
  case grants_nodup =>
    have hperm : (s.grants.map Prod.snd ++ [s.arrived]).Perm (s.arrived :: s.grants.map Prod.snd) :=
      List.perm_append_singleton _ _
    simp only [SchedulerSystem.takeSlot, List.map_append]
    exact hperm.nodup_iff.2 (List.nodup_cons.2 ⟨h.fresh, h.grants_nodup⟩)
  case accounted =>
    have hperm : (s.grants.map Prod.snd ++ [s.arrived]).Perm
        (s.mailbox ++ (s.received ++ s.handedOn) ++ [s.arrived]) := h.accounted.append_right _
    have hmove : (s.mailbox ++ (s.received ++ (s.handedOn ++ [s.arrived]))).Perm
        (s.mailbox ++ (s.received ++ ([s.arrived] ++ s.handedOn))) :=
      (List.perm_append_comm.append_left s.received).append_left s.mailbox
    simp only [SchedulerSystem.takeSlot, List.map_append]
    -- the slot is handed on at once, so it is in neither channel
    simpa using hperm.trans (by simpa using hmove)
  case mailbox_pending =>
    intro n hmem
    rcases h.mailbox_pending hmem with ⟨c', hc', hpending⟩
    have hne : n ≠ s.arrived := Nat.ne_of_lt (h.called hc')
    exact ⟨c', by simpa [SchedulerSystem.takeSlot, Function.update_of_ne hne] using hc', hpending⟩

/-- A waiter whose deadline fires stays where it is. -/
theorem expire (h : Ledger s) {n : Nat} {c : Call κ} (hc : s.calls n = some c) :
    Ledger (s.expire n c) := by
  have hcalls : ∀ {m c'}, s.calls m = some c' → ∃ c'', (s.expire n c).calls m = some c'' ∧
      c''.key = c'.key ∧ c''.id = c'.id ∧ (c'.pending → c''.pending) := by
    intro m c' hm
    by_cases hEq : m = n
    · subst hEq
      rw [hc] at hm
      cases hm
      exact ⟨_, Function.update_self .., rfl, rfl, fun _ => Or.inr rfl⟩
    · exact ⟨c', by simpa [SchedulerSystem.expire, setCall, Function.update_of_ne hEq] using hm,
        rfl, rfl, id⟩
  constructor
  case rotation =>
    exact h.rotation
  case queued =>
    intro k q w hk hw
    rcases h.queued hk hw with ⟨c', hc', hkey, hid, hpending, hnot⟩
    rcases hcalls hc' with ⟨c'', hc'', hkey', hid', hpending'⟩
    exact ⟨c'', hc'', hkey'.trans hkey, hid'.trans hid, hpending' hpending, hnot⟩
  case queue_sorted =>
    exact h.queue_sorted
  case called =>
    intro m c' hm
    by_cases hEq : m = n
    · subst hEq
      exact h.called hc
    · simp only [SchedulerSystem.expire, setCall, Function.update_of_ne hEq] at hm
      exact h.called hm
  case granted_called =>
    exact h.granted_called
  case granted_sorted =>
    exact h.granted_sorted
  case granted_first =>
    exact h.granted_first
  case grants_nodup =>
    exact h.grants_nodup
  case accounted =>
    exact h.accounted
  case mailbox_pending =>
    intro m hmem
    rcases h.mailbox_pending hmem with ⟨c', hc', hpending⟩
    rcases hcalls hc' with ⟨c'', hc'', _, _, hpending'⟩
    exact ⟨c'', hc'', hpending' hpending⟩

/-- A grant taken out of its channel, received or handed on. -/
theorem take (h : Ledger s) {n : Nat} {c : Call κ} (c' : Call κ) {received handedOn : List Nat}
    (hc : s.calls n = some c) (hmem : n ∈ s.mailbox)
    (hperm : (n :: (s.received ++ s.handedOn)).Perm (received ++ handedOn)) :
    Ledger { s.setCall n c' with
      mailbox := s.mailbox.erase n
      received := received
      handedOn := handedOn } := by
  have hother : ∀ {m}, m ≠ n → (s.setCall n c').calls m = s.calls m := by
    intro m hne
    simp only [setCall, Function.update_of_ne hne]
  constructor
  case rotation =>
    exact h.rotation
  case queued =>
    intro k q w hk hw
    rcases h.queued hk hw with ⟨c0, hc0, hkey, hid, hpending, hnot⟩
    -- who still waits has no grant, so it is another call
    have hne : w.tx ≠ n := by
      rintro rfl
      exact hnot (h.granted_of_mailbox hmem)
    exact ⟨c0, by simpa [hother hne] using hc0, hkey, hid, hpending, hnot⟩
  case queue_sorted =>
    exact h.queue_sorted
  case called =>
    intro m c0 hm
    by_cases hEq : m = n
    · subst hEq
      exact h.called hc
    · simp only [hother hEq] at hm
      exact h.called hm
  case granted_called =>
    exact h.granted_called
  case granted_sorted =>
    exact h.granted_sorted
  case granted_first =>
    exact h.granted_first
  case grants_nodup =>
    exact h.grants_nodup
  case accounted =>
    refine h.accounted.trans ?_
    have hfirst : (s.mailbox ++ (s.received ++ s.handedOn)).Perm
        (n :: s.mailbox.erase n ++ (s.received ++ s.handedOn)) :=
      (List.perm_cons_erase hmem).append_right _
    -- the grant moves from the channel to where it was taken
    have hmiddle : (n :: s.mailbox.erase n ++ (s.received ++ s.handedOn)).Perm
        (s.mailbox.erase n ++ n :: (s.received ++ s.handedOn)) := by
      rw [List.cons_append]
      exact List.perm_middle.symm
    exact hfirst.trans (hmiddle.trans (hperm.append_left _))
  case mailbox_pending =>
    intro m hm
    have hne : m ≠ n := (h.mailbox_nodup.mem_erase_iff.1 hm).1
    rcases h.mailbox_pending (List.mem_of_mem_erase hm) with ⟨c0, hc0, hpending⟩
    exact ⟨c0, by simpa [hother hne] using hc0, hpending⟩

theorem receive (h : Ledger s) {n : Nat} {c : Call κ} (hc : s.calls n = some c)
    (hmem : n ∈ s.mailbox) : Ledger (s.receive n c) := by
  have hperm : (n :: (s.received ++ s.handedOn)).Perm (s.received ++ [n] ++ s.handedOn) := by
    rw [List.append_assoc]
    exact List.perm_middle.symm
  exact (h.take { c with phase := .granted } hc hmem hperm).counters s.state.active (s.guards + 1)

theorem handOn (h : Ledger s) {n : Nat} {c : Call κ} (hc : s.calls n = some c)
    (hmem : n ∈ s.mailbox) : Ledger (s.handOn n c) := by
  have hperm : (n :: (s.received ++ s.handedOn)).Perm (s.received ++ (s.handedOn ++ [n])) := by
    rw [← List.append_assoc]
    exact (List.perm_append_singleton n (s.received ++ s.handedOn)).symm
  exact (h.take { c with phase := .refused deadlineExceeded } hc hmem hperm).counters
    (s.state.active - 1) s.guards

theorem dropGuard (h : Ledger s) : Ledger s.dropGuard :=
  h.counters (s.state.active - 1) (s.guards - 1)

/-! ## Moves that look keys up -/

variable [DecidableEq κ]

/-- What `wake_next` can do: nothing where no waiter is queued, else a grant to the first waiter of
the key at the front of the rotation. -/
theorem wake_cases (h : Ledger s) :
    (s.state.order = [] ∧ s.wake = s) ∨
      ∃ key w q order, s.state.order = key :: order ∧ s.state.queues key = some (w :: q) ∧
        s.wake =
          { s with
            state := s.state.grantTo key q order
            mailbox := s.mailbox ++ [w.tx]
            grants := s.grants ++ [(key, w.tx)] } := by
  cases horder : s.state.order with
  | nil =>
      refine Or.inl ⟨rfl, ?_⟩
      have hstate : ({ s.state with order := [] } : SchedulerState κ) = s.state := by
        rw [← horder]
      simp only [SchedulerSystem.wake, SchedulerState.wakeNext, horder, SchedulerState.wakeLoop,
        hstate]
  | cons key order =>
      have hmem : key ∈ s.state.order := by simp [horder]
      rcases h.rotation.mem_order.1 hmem with ⟨q, hq⟩
      cases q with
      | nil => exact absurd rfl (h.rotation.queue_ne hq)
      | cons w q =>
          refine Or.inr ⟨key, w, q, order, rfl, hq, ?_⟩
          simp only [SchedulerSystem.wake, SchedulerState.wakeNext, horder,
            SchedulerState.wakeLoop, hq]

/-- Waking keeps the ledger: the first waiter of a queue has no grant yet and came before the rest
of its queue. -/
theorem wake (h : Ledger s) : Ledger s.wake := by
  rcases h.wake_cases with ⟨_, hwake⟩ | ⟨key, w, q, order, horder, hq, hwake⟩
  · rw [hwake]
    exact h
  rw [hwake]
  have hsorted : ∀ w' ∈ q, w.tx < w'.tx := (List.pairwise_cons.1 (h.queue_sorted hq)).1
  rcases h.queued hq (List.mem_cons_self ..) with ⟨c, hc, hckey, _, hpending, hnew⟩
  constructor
  case rotation =>
    exact h.rotation.grantTo horder hq
  case queued =>
    intro k q' w' hk hw'
    rcases grantTo_queue hq hk with ⟨q0, hq0, hsub, hfirst⟩
    rcases h.queued hq0 (hsub.subset hw') with ⟨c', hc', hckey', hid, hpending', hnot⟩
    refine ⟨c', hc', hckey', hid, hpending', ?_⟩
    -- the waiter that is woken is on no queue any more
    have hneq : w'.tx ≠ w.tx := by
      intro hEq
      rw [hEq, hc] at hc'
      cases hc'
      have hlt : w.tx < w'.tx := hsorted w' (hfirst (hckey'.symm.trans hckey) ▸ hw')
      omega
    rw [List.map_append, List.mem_append]
    rintro (hold | hlast)
    · exact hnot hold
    · exact hneq (by simpa using hlast)
  case queue_sorted =>
    intro k q' hk
    rcases grantTo_queue hq hk with ⟨q0, hq0, hsub, _⟩
    exact (h.queue_sorted hq0).sublist hsub
  case called =>
    exact h.called
  case granted_called =>
    intro k n hmem
    rcases List.mem_append.1 hmem with hold | hlast
    · exact h.granted_called hold
    · cases List.mem_singleton.1 hlast
      exact h.called hc
  case granted_sorted =>
    refine List.pairwise_append.2 ⟨h.granted_sorted, List.pairwise_singleton _ _, ?_⟩
    rintro ⟨k, n⟩ hg g' hg'
    cases List.mem_singleton.1 hg'
    intro hEq
    cases hEq
    exact h.granted_first hg hq (List.mem_cons_self ..)
  case granted_first =>
    intro k n q' w' hmem hk hw'
    rcases grantTo_queue hq hk with ⟨q0, hq0, hsub, hfirst⟩
    rcases List.mem_append.1 hmem with hold | hlast
    · exact h.granted_first hold hq0 (hsub.subset hw')
    · cases List.mem_singleton.1 hlast
      exact hsorted w' (hfirst rfl ▸ hw')
  case grants_nodup =>
    have hperm : (s.grants.map Prod.snd ++ [w.tx]).Perm (w.tx :: s.grants.map Prod.snd) :=
      List.perm_append_singleton _ _
    rw [List.map_append]
    exact hperm.nodup_iff.2 (List.nodup_cons.2 ⟨hnew, h.grants_nodup⟩)
  case accounted =>
    have hperm : (s.grants.map Prod.snd ++ [w.tx]).Perm
        (s.mailbox ++ (s.received ++ s.handedOn) ++ [w.tx]) := h.accounted.append_right _
    have hmove : (s.mailbox ++ ((s.received ++ s.handedOn) ++ [w.tx])).Perm
        (s.mailbox ++ ([w.tx] ++ (s.received ++ s.handedOn))) :=
      List.perm_append_comm.append_left s.mailbox
    rw [List.map_append]
    simpa using hperm.trans (by simpa using hmove)
  case mailbox_pending =>
    intro n hmem
    rcases List.mem_append.1 hmem with hold | hlast
    · exact h.mailbox_pending hold
    · cases List.mem_singleton.1 hlast
      exact ⟨c, hc, hpending⟩

/-- A call that finds no slot queues behind the waiters of its key. -/
theorem queueUp (h : Ledger s) (key : κ) (id : Nat) : Ledger (s.queueUp key id) := by
  have hold : ∀ {k q w}, s.state.queues k = some q → w ∈ q → w.tx < s.arrived := by
    intro k q w hk hw
    rcases h.queued hk hw with ⟨c, hc, _⟩
    exact h.called hc
  -- a queue after the call is an old one, or the old one of the key with the call at its end
  have hsplit : ∀ {k q}, (s.state.enqueue key { tx := s.arrived, id := id }).queues k = some q →
      ∀ w ∈ q, (k = key ∧ w = { tx := s.arrived, id := id }) ∨
        ∃ q0, s.state.queues k = some q0 ∧ w ∈ q0 := by
    intro k q hk w hw
    rcases enqueue_queue hk with ⟨hkey, rfl⟩ | hsame
    · rcases List.mem_append.1 hw with hmem | hlast
      · cases hq : s.state.queues k with
        | none => simp [hq] at hmem
        | some q0 => exact Or.inr ⟨q0, rfl, by simpa [hq] using hmem⟩
      · exact Or.inl ⟨hkey, List.mem_singleton.1 hlast⟩
    · exact Or.inr ⟨q, hsame, hw⟩
  have hcalls : ∀ {n c}, s.calls n = some c → Function.update s.calls s.arrived
      (some { key := key, id := id, phase := .waiting }) n = some c := by
    intro n c hn
    have hne : n ≠ s.arrived := Nat.ne_of_lt (h.called hn)
    simpa [Function.update_of_ne hne] using hn
  constructor
  case rotation =>
    exact h.rotation.enqueue key _
  case queued =>
    intro k q w hk hw
    rcases hsplit hk w hw with ⟨rfl, rfl⟩ | ⟨q0, hq0, hmem⟩
    · -- the call itself: it waits, and has no grant
      exact ⟨_, Function.update_self .., rfl, rfl, Or.inl rfl, h.fresh⟩
    · rcases h.queued hq0 hmem with ⟨c, hc, hrest⟩
      exact ⟨c, hcalls hc, hrest⟩
  case queue_sorted =>
    intro k q hk
    rcases enqueue_queue hk with ⟨_, rfl⟩ | hsame
    · cases hq : s.state.queues k with
      | none => simp
      | some q0 =>
          refine List.pairwise_append.2 ⟨h.queue_sorted hq, List.pairwise_singleton _ _, ?_⟩
          intro w hw w' hw'
          cases List.mem_singleton.1 hw'
          exact hold hq hw
    · exact h.queue_sorted hsame
  case called =>
    intro n c hn
    by_cases hEq : n = s.arrived
    · rw [hEq]
      exact Nat.lt_succ_self _
    · simp only [SchedulerSystem.queueUp, Function.update_of_ne hEq] at hn
      exact Nat.lt_succ_of_lt (h.called hn)
  case granted_called =>
    intro k n hmem
    exact Nat.lt_succ_of_lt (h.granted_called hmem)
  case granted_sorted =>
    exact h.granted_sorted
  case granted_first =>
    intro k n q w hmem hk hw
    rcases hsplit hk w hw with ⟨_, rfl⟩ | ⟨q0, hq0, hw0⟩
    · exact h.granted_called hmem
    · exact h.granted_first hmem hq0 hw0
  case grants_nodup =>
    exact h.grants_nodup
  case accounted =>
    exact h.accounted
  case mailbox_pending =>
    intro n hmem
    rcases h.mailbox_pending hmem with ⟨c, hc, hpending⟩
    exact ⟨c, hcalls hc, hpending⟩

/-- A waiter that leaves without a grant is out of its queue. -/
theorem leave (h : Ledger s) {n : Nat} {c : Call κ} (hc : s.calls n = some c)
    (hmem : n ∉ s.mailbox) : Ledger (s.leave n c) := by
  have hother : ∀ {m}, m ≠ n → (s.leave n c).calls m = s.calls m := by
    intro m hne
    simp only [SchedulerSystem.leave, setCall, Function.update_of_ne hne]
  constructor
  case rotation =>
    exact h.rotation.removeWaiter c.key c.id
  case queued =>
    intro k q w hk hw
    rcases removeWaiter_queue hk with ⟨q0, hq0, hsub, hremoved⟩
    rcases h.queued hq0 (hsub.subset hw) with ⟨c0, hc0, hkey, hid, hpending, hnot⟩
    have hne : w.tx ≠ n := by
      rintro rfl
      rw [hc] at hc0
      cases hc0
      -- the call itself was taken out of its queue
      exact hremoved hkey.symm w hw hid.symm
    exact ⟨c0, by simpa [hother hne] using hc0, hkey, hid, hpending, hnot⟩
  case queue_sorted =>
    intro k q hk
    rcases removeWaiter_queue hk with ⟨q0, hq0, hsub, _⟩
    exact (h.queue_sorted hq0).sublist hsub
  case called =>
    intro m c0 hm
    by_cases hEq : m = n
    · subst hEq
      exact h.called hc
    · simp only [hother hEq] at hm
      exact h.called hm
  case granted_called =>
    exact h.granted_called
  case granted_sorted =>
    exact h.granted_sorted
  case granted_first =>
    intro k m q w hg hk hw
    rcases removeWaiter_queue hk with ⟨q0, hq0, hsub, _⟩
    exact h.granted_first hg hq0 (hsub.subset hw)
  case grants_nodup =>
    exact h.grants_nodup
  case accounted =>
    exact h.accounted
  case mailbox_pending =>
    intro m hm
    have hne : m ≠ n := by
      rintro rfl
      exact hmem hm
    rcases h.mailbox_pending hm with ⟨c0, hc0, hpending⟩
    exact ⟨c0, by simpa [hother hne] using hc0, hpending⟩

end Ledger

end FunctionWasm

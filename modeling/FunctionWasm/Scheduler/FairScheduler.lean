import Mathlib.Logic.Function.Basic
import FunctionWasm.Foundation.Text
import FunctionWasm.Foundation.Transition

/-!
# FairScheduler — run slots served round-robin by module key

A run takes one of `total` slots or queues under its module's key.  A freed slot goes to the key at
the front of the rotation, first come first served within the key.  A waiter whose deadline fires
takes the lock once more: a grant that landed meanwhile is handed on, otherwise it leaves its queue.

* `SchedulerState` is what the lock guards, `wakeNext` and `removeWaiter` are its two operations.
* `SchedulerSystem` adds the calls of `acquire` in flight, the guards alive and the history.
* `schedulerStep` is every move the system can make under any interleaving.
-/

namespace FunctionWasm

variable {κ : Type} [DecidableEq κ]

/-- A queued call: the sender of its channel and the id it is removed by. -/
structure Waiter where
  tx : Nat
  id : Nat
  deriving DecidableEq, Repr

structure SchedulerState (κ : Type) where
  active : Nat
  queues : κ → Option (List Waiter)
  order : List κ

namespace SchedulerState

/-- Takes a slot for the first waiter of `key`, with `q` queued behind it: the key goes to the back of
the rotation, or out of it where no waiter is left. -/
def grantTo (s : SchedulerState κ) (key : κ) (q : List Waiter) (order : List κ) :
    SchedulerState κ where
  active := s.active + 1
  queues := Function.update s.queues key (if q = [] then none else some q)
  order := if q = [] then order else order ++ [key]

/-- The loop of `wake_next` over the keys still in the rotation: the waiter it grants to, if any. -/
def wakeLoop (s : SchedulerState κ) : List κ → SchedulerState κ × Option (κ × Waiter)
  | [] => ({ s with order := [] }, none)
  | key :: order =>
      match s.queues key with
      | none => wakeLoop s order
      | some [] => wakeLoop { s with queues := Function.update s.queues key none } order
      | some (w :: q) => (s.grantTo key q order, some (key, w))

/-- Admits the next waiter in round-robin order. -/
def wakeNext (s : SchedulerState κ) : SchedulerState κ × Option (κ × Waiter) :=
  s.wakeLoop s.order

def removeWaiter (s : SchedulerState κ) (key : κ) (id : Nat) : SchedulerState κ :=
  match s.queues key with
  | none => s
  | some q =>
      let q := q.filter fun w => w.id ≠ id
      if q = [] then
        { s with
          queues := Function.update s.queues key none
          order := s.order.filter fun k => k ≠ key }
      else
        { s with queues := Function.update s.queues key (some q) }

/-- Queues a waiter behind those of its key. -/
def enqueue (s : SchedulerState κ) (key : κ) (w : Waiter) : SchedulerState κ :=
  { s with
    queues := Function.update s.queues key (some ((s.queues key).getD [] ++ [w]))
    order := if (s.queues key).isSome then s.order else s.order ++ [key] }

end SchedulerState

/-! ## The calls in flight -/

def deadlineExceeded : Text :=
  "waiting for a run slot: deadline exceeded".toList

/-- How far a call of `acquire` has come. -/
inductive Phase where
  /-- in `recv_timeout` -/
  | waiting
  /-- past it without a grant, before it takes the lock again -/
  | expired
  | granted
  | refused (reason : Text)
  deriving DecidableEq, Repr

structure Call (κ : Type) where
  key : κ
  id : Nat
  phase : Phase

def Call.pending (c : Call κ) : Prop :=
  c.phase = .waiting ∨ c.phase = .expired

/-- The scheduler, the calls made of it by number, and what has happened: the grants in order, and
which of them were received or handed on.  `mailbox` holds the grants sent and not yet taken. -/
structure SchedulerSystem (κ : Type) where
  state : SchedulerState κ
  arrived : Nat
  calls : Nat → Option (Call κ)
  guards : Nat
  mailbox : List Nat
  grants : List (κ × Nat)
  received : List Nat
  handedOn : List Nat

namespace SchedulerSystem

def new : SchedulerSystem κ where
  state :=
    { active := 0
      queues := fun _ => none
      order := [] }
  arrived := 0
  calls := fun _ => none
  guards := 0
  mailbox := []
  grants := []
  received := []
  handedOn := []

def setCall (s : SchedulerSystem κ) (n : Nat) (c : Call κ) : SchedulerSystem κ :=
  { s with calls := Function.update s.calls n (some c) }

/-- `wake_next` on the whole system: the grant goes into the waiter's channel. -/
def wake (s : SchedulerSystem κ) : SchedulerSystem κ :=
  match s.state.wakeNext with
  | (state, none) => { s with state := state }
  | (state, some (key, w)) =>
      { s with
        state := state
        mailbox := s.mailbox ++ [w.tx]
        grants := s.grants ++ [(key, w.tx)] }

/-- A call that finds a slot free. -/
def takeSlot (s : SchedulerSystem κ) (key : κ) (id : Nat) : SchedulerSystem κ :=
  { s with
    state := { s.state with active := s.state.active + 1 }
    arrived := s.arrived + 1
    calls := Function.update s.calls s.arrived (some { key := key, id := id, phase := .granted })
    guards := s.guards + 1
    grants := s.grants ++ [(key, s.arrived)]
    received := s.received ++ [s.arrived] }

/-- A call that finds none queues behind the waiters of its key. -/
def queueUp (s : SchedulerSystem κ) (key : κ) (id : Nat) : SchedulerSystem κ :=
  { s with
    state := s.state.enqueue key { tx := s.arrived, id := id }
    arrived := s.arrived + 1
    calls := Function.update s.calls s.arrived (some { key := key, id := id, phase := .waiting }) }

/-- A waiter receives its grant: the guard is its own from here. -/
def receive (s : SchedulerSystem κ) (n : Nat) (c : Call κ) : SchedulerSystem κ :=
  { s.setCall n { c with phase := .granted } with
    guards := s.guards + 1
    mailbox := s.mailbox.erase n
    received := s.received ++ [n] }

def expire (s : SchedulerSystem κ) (n : Nat) (c : Call κ) : SchedulerSystem κ :=
  s.setCall n { c with phase := .expired }

/-- A waiter past its deadline takes a grant out of its channel and gives the slot back. -/
def handOn (s : SchedulerSystem κ) (n : Nat) (c : Call κ) : SchedulerSystem κ :=
  { s.setCall n { c with phase := .refused deadlineExceeded } with
    state := { s.state with active := s.state.active - 1 }
    mailbox := s.mailbox.erase n
    handedOn := s.handedOn ++ [n] }

/-- A waiter past its deadline without a grant leaves its queue. -/
def leave (s : SchedulerSystem κ) (n : Nat) (c : Call κ) : SchedulerSystem κ :=
  { s.setCall n { c with phase := .refused deadlineExceeded } with
    state := s.state.removeWaiter c.key c.id }

/-- A guard is dropped: its slot is given back. -/
def dropGuard (s : SchedulerSystem κ) : SchedulerSystem κ :=
  { s with
    state := { s.state with active := s.state.active - 1 }
    guards := s.guards - 1 }

end SchedulerSystem

/-- The moves.  The id a queued call draws comes from a counter that every scheduler of the process
shares, so it is whatever the move says. -/
inductive SchedulerAction (κ : Type) where
  | acquire (key : κ) (id : Nat)
  | receive (n : Nat)
  | expire (n : Nat)
  | reconcile (n : Nat)
  | drop

/-- One move of a scheduler of `total` slots. -/
def schedulerStep (total : Nat) (s : SchedulerSystem κ) :
    SchedulerAction κ → Option (SchedulerSystem κ)
  | .acquire key id =>
      if s.state.active < total then some (s.takeSlot key id) else some (s.queueUp key id)
  | .receive n =>
      match s.calls n with
      | some c => if c.phase = .waiting ∧ n ∈ s.mailbox then some (s.receive n c) else none
      | none => none
  | .expire n =>
      match s.calls n with
      | some c => if c.phase = .waiting then some (s.expire n c) else none
      | none => none
  | .reconcile n =>
      match s.calls n with
      | some c =>
          if c.phase = .expired then
            if n ∈ s.mailbox then some (s.handOn n c).wake else some (s.leave n c)
          else none
      | none => none
  | .drop => if 0 < s.guards then some s.dropGuard.wake else none

/-- What a move can be. -/
theorem schedulerStep_cases {total : Nat} {s s' : SchedulerSystem κ} {a : SchedulerAction κ}
    (hs : schedulerStep total s a = some s') :
    (∃ key id, s.state.active < total ∧ s' = s.takeSlot key id) ∨
      (∃ key id, ¬ s.state.active < total ∧ s' = s.queueUp key id) ∨
      (∃ n c, s.calls n = some c ∧ n ∈ s.mailbox ∧ s' = s.receive n c) ∨
      (∃ n c, s.calls n = some c ∧ s' = s.expire n c) ∨
      (∃ n c, s.calls n = some c ∧ n ∈ s.mailbox ∧ s' = (s.handOn n c).wake) ∨
      (∃ n c, s.calls n = some c ∧ n ∉ s.mailbox ∧ s' = s.leave n c) ∨
      (0 < s.guards ∧ s' = s.dropGuard.wake) := by
  cases a with
  | acquire key id =>
      by_cases hfree : s.state.active < total
      · simp only [schedulerStep, if_pos hfree, Option.some.injEq] at hs
        exact Or.inl ⟨key, id, hfree, hs.symm⟩
      · simp only [schedulerStep, if_neg hfree, Option.some.injEq] at hs
        exact Or.inr (Or.inl ⟨key, id, hfree, hs.symm⟩)
  | receive n =>
      cases hc : s.calls n with
      | none => simp [schedulerStep, hc] at hs
      | some c =>
          by_cases hready : c.phase = .waiting ∧ n ∈ s.mailbox
          · simp only [schedulerStep, hc, if_pos hready, Option.some.injEq] at hs
            exact Or.inr (Or.inr (Or.inl ⟨n, c, hc, hready.2, hs.symm⟩))
          · simp [schedulerStep, hc, hready] at hs
  | expire n =>
      cases hc : s.calls n with
      | none => simp [schedulerStep, hc] at hs
      | some c =>
          by_cases hwaiting : c.phase = .waiting
          · simp only [schedulerStep, hc, if_pos hwaiting, Option.some.injEq] at hs
            exact Or.inr (Or.inr (Or.inr (Or.inl ⟨n, c, hc, hs.symm⟩)))
          · simp [schedulerStep, hc, hwaiting] at hs
  | reconcile n =>
      cases hc : s.calls n with
      | none => simp [schedulerStep, hc] at hs
      | some c =>
          by_cases hexpired : c.phase = .expired
          · simp only [schedulerStep, hc, if_pos hexpired] at hs
            -- a grant that came too late is handed on, a call without one only leaves
            by_cases hmem : n ∈ s.mailbox
            · simp only [if_pos hmem, Option.some.injEq] at hs
              exact Or.inr (Or.inr (Or.inr (Or.inr (Or.inl ⟨n, c, hc, hmem, hs.symm⟩))))
            · simp only [if_neg hmem, Option.some.injEq] at hs
              exact Or.inr (Or.inr (Or.inr (Or.inr (Or.inr (Or.inl ⟨n, c, hc, hmem, hs.symm⟩)))))
          · simp [schedulerStep, hc, hexpired] at hs
  | drop =>
      by_cases hguards : 0 < s.guards
      · simp only [schedulerStep, if_pos hguards, Option.some.injEq] at hs
        exact Or.inr (Or.inr (Or.inr (Or.inr (Or.inr (Or.inr ⟨hguards, hs.symm⟩)))))
      · simp [schedulerStep, hguards] at hs

/-- The scheduler as a transition system. -/
def fairScheduler (κ : Type) [DecidableEq κ] (total : Nat) :
    TransitionSystem (SchedulerSystem κ) (SchedulerAction κ) where
  init s := s = SchedulerSystem.new
  step s a s' := schedulerStep total s a = some s'

/-- Some moves in a row; `none` where one is not possible. -/
def schedulerRun (total : Nat) (s : SchedulerSystem κ) (as : List (SchedulerAction κ)) :
    Option (SchedulerSystem κ) :=
  as.foldlM (schedulerStep total) s

theorem reachable_of_run {total : Nat} {as : List (SchedulerAction κ)} {s : SchedulerSystem κ}
    (h : schedulerRun total .new as = some s) : (fairScheduler κ total).Reachable s := by
  apply TransitionSystem.Reachable.run (f := schedulerStep total) (fun _ _ _ hstep => hstep)
    (.init rfl)
  exact h

end FunctionWasm

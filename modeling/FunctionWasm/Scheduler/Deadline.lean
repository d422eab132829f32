import Mathlib.Algebra.BigOperators.Group.List.Basic
import Mathlib.Tactic.Ring
import FunctionWasm.Foundation.Transition

/-!
# Deadline — a run's compute deadline and what is credited to it

A run may go on until the engine's epoch has advanced as many ticks as it was granted.  When it has,
a callback grants as many ticks more as the run's HTTP requests have taken since, up to the
request's own deadline.

* `RunState` is a run with the clock, `runStep` every move: time passes while the guest computes or
  while it is blocked in a request, the epoch advances, requests begin and end, the callback fires.
* `Metered` says that no more is credited than the guest was blocked, `Capped` that a run does not
  outlast its request by more than a tick.
* `deadline_metered` says when they hold.
-/

namespace FunctionWasm
namespace Deadline

/-! ## Ticks -/

/-- How often the epoch advances: ten milliseconds, in nanoseconds. -/
def epochTick : Nat :=
  10000000

theorem epochTick_pos : 0 < epochTick := by
  decide

/-- A budget in ticks, at least one. -/
def deadlineTicks (timeout : Nat) : Nat :=
  max ((timeout + (epochTick - 1)) / epochTick) 1

/-- Rounding up costs less than a tick, but for the tick that every run has. -/
theorem deadlineTicks_mul_le (timeout : Nat) :
    deadlineTicks timeout * epochTick ≤ timeout + epochTick := by
  unfold deadlineTicks
  rcases Nat.le_total ((timeout + (epochTick - 1)) / epochTick) 1 with hone | hmore
  · rw [Nat.max_eq_right hone]
    omega
  · rw [Nat.max_eq_left hmore]
    have hfloor : (timeout + (epochTick - 1)) / epochTick * epochTick ≤
        timeout + (epochTick - 1) := Nat.div_mul_le_self _ _
    omega

/-! ## Runs -/

/-- `limits.timeout`, the request's deadline, and whether there is a grant for egress. -/
structure RunOptions where
  timeout : Nat
  deadline : Option Nat
  http : Bool
  deriving DecidableEq, Repr

inductive RunPhase where
  | preparing
  | running
  | ended
  deriving DecidableEq, Repr

/-- A run and the clock, in nanoseconds.  `httpHost` is the counter that requests write and
`credited` what the callback has spent of it; `calls` are the instants at which the requests that
are under way began.  `extended`, the ticks that the callback has granted, and `blocked`, for how
long the guest was blocked in requests, are not read by any step. -/
structure RunState where
  now : Nat
  epoch : Nat
  lastTick : Nat
  phase : RunPhase
  budget : Nat
  deadline : Nat
  epochDeadline : Nat
  httpHost : Nat
  credited : Nat
  calls : List Nat
  extended : Nat
  blocked : Nat
  deriving DecidableEq, Repr

/-- The budget is the timeout, capped by what remains of the request's deadline. -/
def RunState.new (o : RunOptions) (now epoch lastTick : Nat) : RunState where
  now := now
  epoch := epoch
  lastTick := lastTick
  phase := .preparing
  budget :=
    match o.deadline with
    | some d => min o.timeout (d - now)
    | none => o.timeout
  deadline := 0
  epochDeadline := 0
  httpHost := 0
  credited := 0
  calls := []
  extended := 0
  blocked := 0

/-- All ticks that the run was granted. -/
def RunState.granted (s : RunState) : Nat :=
  deadlineTicks s.budget + s.extended

/-- The callback: how many ticks more, or an interrupt. -/
def extension (hard : Option Nat) (now httpHost credited : Nat) : Option Nat :=
  if hard.any (· ≤ now) then none
  else
    let extend := (httpHost - credited) / epochTick
    if extend = 0 then none
    else
      match hard with
      -- at least one tick keeps the callback firing
      | some h => some (min extend (max ((h - now) / epochTick) 1))
      | none => some extend

inductive RunAction where
  | prepare (d : Nat)
  | start
  | compute (d : Nat)
  | wait (d : Nat)
  | tick
  | send
  | answer (started : Nat)
  | abandon (started : Nat)
  | fire
  | finish
  deriving DecidableEq, Repr

def runStep (o : RunOptions) (s : RunState) : RunAction → Option RunState
  | .prepare d => if s.phase = .preparing then some { s with now := s.now + d } else none
  | .start =>
      if s.phase = .preparing then
        some { s with
          phase := .running
          deadline := s.now + s.budget
          epochDeadline := s.epoch + deadlineTicks s.budget }
      else none
  | .compute d =>
      -- the guest looks at the epoch wherever it loops or calls
      if s.phase = .running ∧ s.epoch < s.epochDeadline then some { s with now := s.now + d }
      else none
  | .wait d =>
      if s.phase = .running ∧ s.calls ≠ [] then
        some { s with now := s.now + d, blocked := s.blocked + d }
      else none
  | .tick =>
      -- the ticker sleeps for a tick at least
      if s.lastTick + epochTick ≤ s.now then
        some { s with epoch := s.epoch + 1, lastTick := s.now }
      else none
  | .send =>
      if s.phase = .running then
        some (if o.http then { s with calls := s.now :: s.calls } else s)
      else none
  | .answer started =>
      if s.phase = .running ∧ started ∈ s.calls then
        some { s with
          calls := s.calls.erase started
          httpHost := s.httpHost + (s.now - started) }
      else none
  | .abandon started =>
      if s.phase = .running ∧ started ∈ s.calls then
        some { s with calls := s.calls.erase started }
      else none
  | .fire =>
      if s.phase = .running ∧ s.epochDeadline ≤ s.epoch then
        match extension o.deadline s.now s.httpHost s.credited with
        | some extend =>
            some { s with
              epochDeadline := s.epoch + extend
              credited := s.credited + epochTick * extend
              extended := s.extended + extend }
        | none => some { s with phase := .ended }
      else none
  | .finish => if s.phase = .running then some { s with phase := .ended } else none

/-- A run may begin at any time; the last tick was before it. -/
def runSystem (o : RunOptions) : TransitionSystem RunState RunAction where
  init s := ∃ now epoch lastTick, lastTick ≤ now ∧ s = RunState.new o now epoch lastTick
  step s a s' := runStep o s a = some s'

/-! ## What is promised -/

/-- The ticks granted are those of the timeout and those for which the guest was blocked. -/
def Metered (o : RunOptions) (s : RunState) : Prop :=
  s.granted ≤ deadlineTicks o.timeout + s.blocked / epochTick

/-- While it runs, a run is at most a tick past its request's deadline. -/
def Capped (o : RunOptions) (s : RunState) : Prop :=
  ∀ h, o.deadline = some h → s.phase = .running → s.now ≤ h + epochTick

/-- Time passes in requests one at a time, and the guest does not compute meanwhile. -/
def Alone (s : RunState) (a : RunAction) : Prop :=
  (∀ d, a = .compute d → 0 < d → s.calls = []) ∧
    ∀ d, a = .wait d → 0 < d → s.calls.length ≤ 1

/-- The run is prepared at once, before its request's deadline, and between two ticks; the epoch
advances when a tick is over; requests do not outlive the run's deadline. -/
structure Punctual (o : RunOptions) (s : RunState) (a : RunAction) : Prop where
  prepared : ∀ d, a = .prepare d → d = 0
  started : a = .start → s.now ≤ s.lastTick + epochTick ∧ ∀ h, o.deadline = some h → s.now ≤ h
  ticks : ∀ d, a = .compute d ∨ a = .wait d → s.now + d ≤ s.lastTick + epochTick
  answered : ∀ d, a = .wait d → s.now + d ≤ s.deadline

/-! ## What a step can do -/

inductive RunMove (o : RunOptions) (s : RunState) : RunAction → RunState → Prop where
  | prepare (d : Nat) (hphase : s.phase = .preparing) :
      RunMove o s (.prepare d) { s with now := s.now + d }
  | start (hphase : s.phase = .preparing) :
      RunMove o s .start { s with
        phase := .running
        deadline := s.now + s.budget
        epochDeadline := s.epoch + deadlineTicks s.budget }
  | compute (d : Nat) (hphase : s.phase = .running) (hgoes : s.epoch < s.epochDeadline) :
      RunMove o s (.compute d) { s with now := s.now + d }
  | wait (d : Nat) (hphase : s.phase = .running) (hcalls : s.calls ≠ []) :
      RunMove o s (.wait d) { s with now := s.now + d, blocked := s.blocked + d }
  | tick (hdue : s.lastTick + epochTick ≤ s.now) :
      RunMove o s .tick { s with epoch := s.epoch + 1, lastTick := s.now }
  | send (hphase : s.phase = .running) :
      RunMove o s .send { s with calls := s.now :: s.calls }
  | refuse : RunMove o s .send s
  | answer {started : Nat} (hphase : s.phase = .running) (hcall : started ∈ s.calls) :
      RunMove o s (.answer started) { s with
        calls := s.calls.erase started
        httpHost := s.httpHost + (s.now - started) }
  | abandon {started : Nat} (hphase : s.phase = .running) (hcall : started ∈ s.calls) :
      RunMove o s (.abandon started) { s with calls := s.calls.erase started }
  | extend {extend : Nat} (hphase : s.phase = .running) (hover : s.epochDeadline ≤ s.epoch)
      (hextend : extension o.deadline s.now s.httpHost s.credited = some extend) :
      RunMove o s .fire { s with
        epochDeadline := s.epoch + extend
        credited := s.credited + epochTick * extend
        extended := s.extended + extend }
  | finish {a : RunAction} : RunMove o s a { s with phase := .ended }

theorem runMove_of_step {o : RunOptions} {s s' : RunState} {a : RunAction}
    (h : runStep o s a = some s') : RunMove o s a s' := by
  cases a with
  | prepare d =>
      rcases Option.ite_none_right_eq_some.1 h with ⟨hphase, heq⟩
      cases heq
      exact .prepare d hphase
  | start =>
      rcases Option.ite_none_right_eq_some.1 h with ⟨hphase, heq⟩
      cases heq
      exact .start hphase
  | compute d =>
      rcases Option.ite_none_right_eq_some.1 h with ⟨⟨hphase, hgoes⟩, heq⟩
      cases heq
      exact .compute d hphase hgoes
  | wait d =>
      rcases Option.ite_none_right_eq_some.1 h with ⟨⟨hphase, hcalls⟩, heq⟩
      cases heq
      exact .wait d hphase hcalls
  | tick =>
      rcases Option.ite_none_right_eq_some.1 h with ⟨hdue, heq⟩
      cases heq
      exact .tick hdue
  | send =>
      rcases Option.ite_none_right_eq_some.1 h with ⟨hphase, heq⟩
      -- a run that was granted no client gets a refusal
      cases hhttp : o.http with
      | true =>
          rw [hhttp] at heq
          cases heq
          exact .send hphase
      | false =>
          rw [hhttp] at heq
          cases heq
          exact .refuse
  | answer started =>
      rcases Option.ite_none_right_eq_some.1 h with ⟨⟨hphase, hcall⟩, heq⟩
      cases heq
      exact .answer hphase hcall
  | abandon started =>
      rcases Option.ite_none_right_eq_some.1 h with ⟨⟨hphase, hcall⟩, heq⟩
      cases heq
      exact .abandon hphase hcall
  | fire =>
      rcases Option.ite_none_right_eq_some.1 h with ⟨⟨hphase, hover⟩, heq⟩
      -- the callback gives more epochs, or ends the run
      cases hextend : extension o.deadline s.now s.httpHost s.credited with
      | some extend =>
          rw [hextend] at heq
          cases heq
          exact .extend hphase hover hextend
      | none =>
          rw [hextend] at heq
          cases heq
          exact .finish
  | finish =>
      rcases Option.ite_none_right_eq_some.1 h with ⟨-, heq⟩
      cases heq
      exact .finish

/-- The callback grants no more than the requests took that is not spent yet, and no tick beyond the
one under way after the request's deadline. -/
theorem extension_le {hard : Option Nat} {now httpHost credited extend : Nat}
    (h : extension hard now httpHost credited = some extend) :
    epochTick * extend ≤ httpHost - credited ∧
      ∀ d, hard = some d → now + extend * epochTick ≤ d + epochTick := by
  unfold extension at h
  split at h
  · cases h
  · next hopen =>
      simp only at h
      split at h
      · cases h
      · have hcredit : epochTick * ((httpHost - credited) / epochTick) ≤ httpHost - credited :=
          Nat.mul_div_le _ _
        cases hard with
        | none =>
            cases h
            exact ⟨hcredit, fun _ h => by cases h⟩
        | some d =>
            cases h
            refine ⟨Nat.le_trans (Nat.mul_le_mul_left _ (Nat.min_le_left _ _)) hcredit, ?_⟩
            intro d' heq
            cases heq
            have hbefore : now < d := by simpa using hopen
            have hcap : ∀ cap, max ((d - now) / epochTick) 1 = cap →
                min ((httpHost - credited) / epochTick) (max ((d - now) / epochTick) 1) *
                  epochTick ≤ cap * epochTick := fun cap heq =>
              Nat.mul_le_mul_right _ (heq ▸ Nat.min_le_right _ _)
            rcases Nat.le_total ((d - now) / epochTick) 1 with hone | hmore
            · calc now + min _ _ * epochTick
                  ≤ now + 1 * epochTick := Nat.add_le_add_left (hcap 1 (Nat.max_eq_right hone)) _
                _ ≤ d + epochTick := by omega
            · calc now + min _ _ * epochTick
                  ≤ now + (d - now) / epochTick * epochTick :=
                    Nat.add_le_add_left (hcap _ (Nat.max_eq_left hmore)) _
                _ ≤ now + (d - now) := Nat.add_le_add_left (Nat.div_mul_le_self _ _) _
                _ ≤ d + epochTick := by omega

/-! ## The credit -/

/-- What is credited was counted, in whole ticks; nothing happens before the run starts. -/
structure Spent (s : RunState) : Prop where
  whole : s.credited = epochTick * s.extended
  counted : s.credited ≤ s.httpHost
  idle : s.phase = .preparing → s.calls = []

theorem RunMove.spent {o : RunOptions} {s s' : RunState} {a : RunAction} (hmove : RunMove o s a s')
    (h : Spent s) : Spent s' := by
  cases hmove with
  | prepare d hphase => exact ⟨h.whole, h.counted, h.idle⟩
  | start hphase => exact ⟨h.whole, h.counted, fun hnot => by cases hnot⟩
  | compute d hphase hgoes => exact ⟨h.whole, h.counted, h.idle⟩
  | wait d hphase hcalls => exact ⟨h.whole, h.counted, h.idle⟩
  | tick hdue => exact ⟨h.whole, h.counted, h.idle⟩
  | send hphase => exact ⟨h.whole, h.counted, fun hnot => by cases hphase.symm.trans hnot⟩
  | refuse => exact h
  | answer hphase hcall =>
      exact ⟨h.whole, Nat.le_trans h.counted (Nat.le_add_right _ _),
        fun hnot => by cases hphase.symm.trans hnot⟩
  | abandon hphase hcall =>
      exact ⟨h.whole, h.counted, fun hnot => by cases hphase.symm.trans hnot⟩
  | @extend extend hphase hover hextend =>
      refine ⟨?_, ?_, fun hnot => by cases hphase.symm.trans hnot⟩
      · calc s.credited + epochTick * extend
            = epochTick * s.extended + epochTick * extend := by rw [h.whole]
          _ = epochTick * (s.extended + extend) := (Nat.mul_add _ _ _).symm
      · have hcredit := (extension_le hextend).1
        have hcounted := h.counted
        show s.credited + epochTick * extend ≤ s.httpHost
        omega
  | finish => exact ⟨h.whole, h.counted, fun hnot => by cases hnot⟩

theorem spent_of_reachable {o : RunOptions} {s : RunState} (h : (runSystem o).Reachable s) :
    Spent s := by
  refine h.invariant ?_ ?_
  · rintro s ⟨now, epoch, lastTick, -, rfl⟩
    exact ⟨rfl, Nat.le_refl _, fun _ => rfl⟩
  · intro s a s' _ hinv hstep
    have hmove : RunMove o s a s' := runMove_of_step hstep
    exact hmove.spent hinv

/-- How long the requests under way have taken by now. -/
def RunState.inFlight (s : RunState) : Nat :=
  (s.calls.map fun started => s.now - started).sum

/-- The requests have taken no longer than the guest was blocked. -/
def Covered (s : RunState) : Prop :=
  s.httpHost + s.inFlight ≤ s.blocked

/-- Nothing is under way for longer by more than the time that passes, if one request is. -/
theorem inFlight_pass {calls : List Nat} (h : calls.length ≤ 1) (now d : Nat) :
    (calls.map fun started => now + d - started).sum ≤
      (calls.map fun started => now - started).sum + d := by
  cases calls with
  | nil => exact Nat.zero_le _
  | cons started rest =>
      have hrest : rest = [] := List.eq_nil_of_length_eq_zero (Nat.le_zero.1 (Nat.le_of_succ_le_succ h))
      subst hrest
      simp only [List.map_cons, List.map_nil, List.sum_cons, List.sum_nil]
      omega

theorem RunMove.covered {o : RunOptions} {s s' : RunState} {a : RunAction}
    (hmove : RunMove o s a s') (hspent : Spent s) (h : Covered s) (hcond : Alone s a) :
    Covered s' := by
  cases hmove with
  | prepare d hphase =>
      have hcalls : s.calls = [] := hspent.idle hphase
      simp only [Covered, RunState.inFlight, hcalls] at h ⊢
      exact h
  | start hphase => exact h
  | compute d hphase hgoes =>
      rcases Nat.eq_zero_or_pos d with rfl | hd
      · exact h
      · have hcalls : s.calls = [] := hcond.1 d rfl hd
        simp only [Covered, RunState.inFlight, hcalls] at h ⊢
        exact h
  | wait d hphase hcalls =>
      rcases Nat.eq_zero_or_pos d with rfl | hd
      · exact h
      · have hpass := inFlight_pass (hcond.2 d rfl hd) s.now d
        simp only [Covered, RunState.inFlight] at h ⊢
        omega
  | tick hdue => exact h
  | send hphase =>
      simp only [Covered, RunState.inFlight, List.map_cons, List.sum_cons, Nat.sub_self,
        Nat.zero_add] at h ⊢
      exact h
  | refuse => exact h
  | @answer started hphase hcall =>
      have herase := List.sum_map_erase (fun started => s.now - started) hcall
      simp only [Covered, RunState.inFlight] at h ⊢
      omega
  | @abandon started hphase hcall =>
      have herase := List.sum_map_erase (fun started => s.now - started) hcall
      simp only [Covered, RunState.inFlight] at h ⊢
      omega
  | extend hphase hover hextend => exact h
  | finish => exact h

theorem deadlineTicks_mono {t t' : Nat} (h : t ≤ t') : deadlineTicks t ≤ deadlineTicks t' :=
  max_le_max (Nat.div_le_div_right (Nat.add_le_add_right h _)) (Nat.le_refl _)

theorem RunMove.budget {o : RunOptions} {s s' : RunState} {a : RunAction}
    (hmove : RunMove o s a s') : s'.budget = s.budget := by
  cases hmove <;> rfl

theorem budget_of_reachable {o : RunOptions} {s : RunState} (h : (runSystem o).Reachable s) :
    s.budget ≤ o.timeout := by
  refine h.invariant (I := fun s => s.budget ≤ o.timeout) ?_ ?_
  · rintro s ⟨now, epoch, lastTick, -, rfl⟩
    simp only [RunState.new]
    cases o.deadline with
    | none => exact Nat.le_refl _
    | some d => exact Nat.min_le_left _ _
  · intro s a s' _ hbudget hstep
    have hmove : RunMove o s a s' := runMove_of_step hstep
    exact hmove.budget.symm ▸ hbudget

theorem metered_of_covered {o : RunOptions} {s : RunState} (hs : (runSystem o).Reachable s)
    (h : Covered s) : Metered o s := by
  have hspent := spent_of_reachable hs
  have hextended : s.extended ≤ s.blocked / epochTick := by
    refine (Nat.le_div_iff_mul_le epochTick_pos).2 ?_
    calc s.extended * epochTick
        = s.credited := by rw [hspent.whole, Nat.mul_comm]
      _ ≤ s.httpHost := hspent.counted
      _ ≤ s.httpHost + s.inFlight := Nat.le_add_right _ _
      _ ≤ s.blocked := h
  exact Nat.add_le_add (deadlineTicks_mono (budget_of_reachable hs)) hextended

/-! ## The request's deadline -/

/-- A run on time: no tick is late, requests end by the request's deadline, and the ticks granted
end by the one after it. -/
structure Timely (o : RunOptions) (s : RunState) : Prop where
  past : s.lastTick ≤ s.now
  remains : s.phase = .preparing → ∀ h, o.deadline = some h → s.budget ≤ h - s.now
  onTime : s.phase = .running → s.now ≤ s.lastTick + epochTick
  answered : s.phase = .running → ∀ h, o.deadline = some h → s.deadline ≤ h
  granted : s.phase = .running → ∀ h, o.deadline = some h →
    s.lastTick + (s.epochDeadline - s.epoch) * epochTick ≤ h + epochTick
  capped : Capped o s

theorem timely_new {o : RunOptions} {now epoch lastTick : Nat} (h : lastTick ≤ now) :
    Timely o (RunState.new o now epoch lastTick) where
  past := h
  remains := fun _ h hh => by
    simp only [RunState.new, hh]
    exact Nat.min_le_right _ _
  onTime := fun hnot => by cases hnot
  answered := fun hnot => by cases hnot
  granted := fun hnot => by cases hnot
  capped := fun _ _ hnot => by cases hnot

theorem RunMove.timely {o : RunOptions} {s s' : RunState} {a : RunAction}
    (hmove : RunMove o s a s') (h : Timely o s) (hcond : Punctual o s a) : Timely o s' := by
  cases hmove with
  | prepare d hphase =>
      -- a punctual run is prepared in no time
      have hd : d = 0 := hcond.prepared d rfl
      subst hd
      exact h
  | start hphase =>
      rcases hcond.started rfl with ⟨hbetween, hbefore⟩
      refine ⟨h.past, fun hnot => (by cases hnot), fun _ => hbetween, fun _ d hd => ?_,
        fun _ d hd => ?_, fun d hd _ => ?_⟩
      · have hremains := h.remains hphase d hd
        have hnow := hbefore d hd
        show s.now + s.budget ≤ d
        omega
      · have hremains := h.remains hphase d hd
        have hnow := hbefore d hd
        have hpast := h.past
        calc s.lastTick + (s.epoch + deadlineTicks s.budget - s.epoch) * epochTick
            = s.lastTick + deadlineTicks s.budget * epochTick := by rw [Nat.add_sub_cancel_left]
          _ ≤ s.lastTick + (s.budget + epochTick) :=
              Nat.add_le_add_left (deadlineTicks_mul_le _) _
          _ ≤ d + epochTick := by omega
      · exact Nat.le_trans (hbefore d hd) (Nat.le_add_right _ _)
  | compute d hphase hgoes =>
      have htick := hcond.ticks d (Or.inl rfl)
      refine ⟨Nat.le_trans h.past (Nat.le_add_right _ _), fun hnot => ?_, fun _ => htick,
        h.answered, h.granted, fun e he _ => ?_⟩
      · cases hphase.symm.trans hnot
      · -- the guest computes while there is an epoch left
        have hone : 1 ≤ s.epochDeadline - s.epoch := Nat.sub_pos_of_lt hgoes
        calc s.now + d ≤ s.lastTick + 1 * epochTick := by rw [Nat.one_mul]; exact htick
          _ ≤ s.lastTick + (s.epochDeadline - s.epoch) * epochTick :=
              Nat.add_le_add_left (Nat.mul_le_mul_right _ hone) _
          _ ≤ e + epochTick := h.granted hphase e he
  | wait d hphase hcalls =>
      have htick := hcond.ticks d (Or.inr rfl)
      refine ⟨Nat.le_trans h.past (Nat.le_add_right _ _), fun hnot => ?_, fun _ => htick,
        h.answered, h.granted, fun e he _ => ?_⟩
      · cases hphase.symm.trans hnot
      · calc s.now + d ≤ s.deadline := hcond.answered d rfl
          _ ≤ e := h.answered hphase e he
          _ ≤ e + epochTick := Nat.le_add_right _ _
  | tick hdue =>
      refine ⟨Nat.le_refl _, h.remains, fun _ => Nat.le_add_right _ _, h.answered,
        fun hphase e he => ?_, h.capped⟩
      have hnow : s.now = s.lastTick + epochTick := Nat.le_antisymm (h.onTime hphase) hdue
      rcases Nat.lt_or_ge s.epoch s.epochDeadline with hgoes | hover
      · -- one tick fewer is left
        have hleft : s.epochDeadline - s.epoch = s.epochDeadline - (s.epoch + 1) + 1 := by omega
        calc s.now + (s.epochDeadline - (s.epoch + 1)) * epochTick
            = s.lastTick + (s.epochDeadline - (s.epoch + 1) + 1) * epochTick := by
              rw [hnow]
              ring
          _ = s.lastTick + (s.epochDeadline - s.epoch) * epochTick := by rw [hleft]
          _ ≤ e + epochTick := h.granted hphase e he
      · -- no tick is left: the cap of the last move still holds
        have hnone : s.epochDeadline - (s.epoch + 1) = 0 := by omega
        calc s.now + (s.epochDeadline - (s.epoch + 1)) * epochTick
            = s.now := by rw [hnone, Nat.zero_mul, Nat.add_zero]
          _ ≤ e + epochTick := h.capped e he hphase
  | send hphase => exact ⟨h.past, h.remains, h.onTime, h.answered, h.granted, h.capped⟩
  | refuse => exact h
  | answer hphase hcall => exact ⟨h.past, h.remains, h.onTime, h.answered, h.granted, h.capped⟩
  | abandon hphase hcall => exact ⟨h.past, h.remains, h.onTime, h.answered, h.granted, h.capped⟩
  | @extend extend hphase hover hextend =>
      refine ⟨h.past, fun hnot => ?_, h.onTime, h.answered, fun _ e he => ?_, h.capped⟩
      · cases hphase.symm.trans hnot
      · -- the extension is within what is left of the deadline
        calc s.lastTick + (s.epoch + extend - s.epoch) * epochTick
            = s.lastTick + extend * epochTick := by rw [Nat.add_sub_cancel_left]
          _ ≤ s.now + extend * epochTick := Nat.add_le_add_right h.past _
          _ ≤ e + epochTick := (extension_le hextend).2 e he
  | finish =>
      exact ⟨h.past, fun hnot => (by cases hnot), fun hnot => (by cases hnot),
        fun hnot => (by cases hnot), fun hnot => (by cases hnot), fun _ _ hnot => by cases hnot⟩

/-! ## The main result -/

/-- A run is granted the ticks of its timeout and those it was blocked for, as long as its requests
do not overlap and the guest does not compute meanwhile; it does not outlast its request by more
than a tick, as long as clock, epoch and requests are on time. -/
theorem deadline_metered (o : RunOptions) :
    (∀ s, ((runSystem o).restrict Alone).Reachable s → Metered o s) ∧
    (∀ s, ((runSystem o).restrict (Punctual o)).Reachable s → Capped o s) := by
  refine ⟨fun s hs => ?_, fun s hs => ?_⟩
  · have hreach : (runSystem o).Reachable s ∧ Covered s := by
      refine TransitionSystem.Reachable.restrict_invariant (I := Covered) ?_ ?_ hs
      · rintro s ⟨now, epoch, lastTick, -, rfl⟩
        exact Nat.le_refl _
      · intro s a s' hs hcovered hcond hstep
        have hmove : RunMove o s a s' := runMove_of_step hstep
        exact hmove.covered (spent_of_reachable hs) hcovered hcond
    exact metered_of_covered hreach.1 hreach.2
  · have hreach : (runSystem o).Reachable s ∧ Timely o s := by
      refine TransitionSystem.Reachable.restrict_invariant (I := Timely o) ?_ ?_ hs
      · rintro s ⟨now, epoch, lastTick, hlast, rfl⟩
        exact timely_new hlast
      · intro s a s' _ htimely hcond hstep
        have hmove : RunMove o s a s' := runMove_of_step hstep
        exact hmove.timely htimely hcond
    exact hreach.2.capped

/-- Two requests that are under way for the same ten ticks. -/
def twoRequests : List RunAction :=
  [.start, .send, .send] ++
    (List.replicate 10 [RunAction.wait epochTick, .tick]).flatten ++ [.answer 0, .answer 0, .fire]

/-- What the requests took is credited twice: of ten ticks and ten blocked thirty are made. -/
theorem credited_twice :
    ∃ s, (runSystem { timeout := 10 * epochTick, deadline := none, http := true }).Reachable s ∧
      s.granted = 30 ∧ s.blocked = 10 * epochTick ∧
      ¬ Metered { timeout := 10 * epochTick, deadline := none, http := true } s := by
  have hrun : (twoRequests.foldlM
      (runStep { timeout := 10 * epochTick, deadline := none, http := true })
      (RunState.new { timeout := 10 * epochTick, deadline := none, http := true } 0 0 0)).map
        (fun s => (s.granted, s.blocked)) = some (30, 10 * epochTick) := by decide +kernel
  rcases Option.map_eq_some_iff.1 hrun with ⟨s, hs, heq⟩
  simp only [Prod.mk.injEq] at heq
  rcases heq with ⟨hgranted, hblocked⟩
  have hreach : (runSystem { timeout := 10 * epochTick, deadline := none, http := true }).Reachable s :=
    TransitionSystem.Reachable.run (fun _ _ _ h => h) (.init ⟨0, 0, 0, Nat.le_refl _, rfl⟩) hs
  refine ⟨s, hreach, hgranted, hblocked, fun hmetered => ?_⟩
  rw [Metered, hgranted, hblocked] at hmetered
  revert hmetered
  decide +kernel

end Deadline
end FunctionWasm

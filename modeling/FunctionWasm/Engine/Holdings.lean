import FunctionWasm.Engine.Runs
import FunctionWasm.Foundation.Tally
import FunctionWasm.Memory.Governance
import FunctionWasm.Scheduler.Invariant

/-!
# Holdings — what the runs of an engine hold of what they share

* `holdsSlot`, `inFlight`, `store` and `holdsTmp` are what a phase holds; `EngineState.number` is
  how many runs are in some phases.
* `Slots`, `Counters`, `Stores` and `Tmps` are an invariant each, of the slots, the counters and
  metrics, the stores and the private directories.
* Each has a lemma for every kind of move and `step` for all of them.
-/

namespace FunctionWasm
namespace Engine

/-! ## What a phase holds -/

namespace RunPhase

def holdsSlot : RunPhase → Bool
  | .acquiring | .refused _ | .returned _ => false
  | _ => true

/-- The guard that marks the run in flight is alive. -/
def inFlight : RunPhase → Bool
  | .running _ _ | .stopped _ _ | .released _ => true
  | _ => false

def driving : RunPhase → Bool
  | .running _ _ => true
  | _ => false

def store : RunPhase → Option Nat
  | .running store _ | .stopped store _ => some store
  | _ => none

def holdsTmp : RunPhase → Bool
  | .sandboxed | .running _ _ | .stopped _ _ | .released _ | .ended _ => true
  | _ => false

/-- `execute` has returned. -/
def past : RunPhase → Bool
  | .executed _ | .observed _ | .returned _ => true
  | _ => false

/-- The metric was observed, with some outcome. -/
def observedAs (o : RunOutcome) : RunPhase → Bool
  | .observed result | .returned result => runOutcome result = o
  | _ => false

/-- The call of `run` has returned. -/
def finished : RunPhase → Bool
  | .refused _ | .returned _ => true
  | _ => false

theorem finished_free {p : RunPhase} (h : p.finished = true) :
    p.holdsSlot = false ∧ p.inFlight = false ∧ p.store = none ∧ p.holdsTmp = false := by
  cases p with
  | refused reason => exact ⟨rfl, rfl, rfl, rfl⟩
  | returned result => exact ⟨rfl, rfl, rfl, rfl⟩
  | _ => cases h

end RunPhase

/-- One for each run in some phases. -/
def ofPhase {κ : Type} (p : RunPhase → Bool) (r : EngineRun κ) : Nat :=
  (p r.phase).toNat

/-- How many runs are in some phases. -/
def EngineState.number {κ : Type} (s : EngineState κ) (p : RunPhase → Bool) : Nat :=
  tally (ofPhase p) s.runs s.arrived

section Holdings

variable {κ : Type} [DecidableEq κ]

/-! ## What a move of the scheduler does to the calls -/

theorem wake_frame (s : SchedulerSystem κ) :
    s.wake.guards = s.guards ∧ s.wake.arrived = s.arrived ∧ s.wake.calls = s.calls := by
  unfold SchedulerSystem.wake
  split
  · exact ⟨rfl, rfl, rfl⟩
  · exact ⟨rfl, rfl, rfl⟩

variable {total : Nat} {sched sched' : SchedulerSystem κ} {n : Nat}

theorem receive_spec (h : schedulerStep total sched (.receive n) = some sched') :
    sched'.guards = sched.guards + 1 ∧ sched'.arrived = sched.arrived ∧
      (∀ k, k ≠ n → sched'.calls k = sched.calls k) ∧
      ∀ c, sched'.calls n = some c → ¬ c.pending := by
  simp only [schedulerStep] at h
  split at h
  · split at h
    · cases h
      refine ⟨rfl, rfl, fun k hk => Function.update_of_ne hk _ _, fun c hc => ?_⟩
      cases (Function.update_self _ _ _).symm.trans hc
      simp [Call.pending]
    · cases h
  · cases h

theorem expire_spec (h : schedulerStep total sched (.expire n) = some sched') :
    sched'.guards = sched.guards ∧ sched'.arrived = sched.arrived ∧
      (∀ k, k ≠ n → sched'.calls k = sched.calls k) ∧
      ∃ c, sched.calls n = some c ∧ c.phase = .waiting ∧
        sched'.calls n = some { c with phase := .expired } := by
  simp only [schedulerStep] at h
  split at h
  · next c hc =>
      split at h
      · next hwaiting =>
          cases h
          exact ⟨rfl, rfl, fun k hk => Function.update_of_ne hk _ _, c, hc, hwaiting,
            Function.update_self _ _ _⟩
      · cases h
  · cases h

theorem reconcile_spec (h : schedulerStep total sched (.reconcile n) = some sched') :
    sched'.guards = sched.guards ∧ sched'.arrived = sched.arrived ∧
      (∀ k, k ≠ n → sched'.calls k = sched.calls k) ∧
      (∃ c, sched.calls n = some c ∧ c.phase = .expired) ∧
      ∀ c, sched'.calls n = some c → ¬ c.pending := by
  simp only [schedulerStep] at h
  split at h
  · next c hc =>
      split at h
      · next hexpired =>
          split at h
          · cases h
            rcases wake_frame (sched.handOn n c) with ⟨hguards, harrived, hcalls⟩
            refine ⟨hguards, harrived, fun k hk => ?_, ⟨c, hc, hexpired⟩, fun c' hc' => ?_⟩
            · rw [hcalls]
              exact Function.update_of_ne hk _ _
            · rw [hcalls] at hc'
              cases (Function.update_self _ _ _).symm.trans hc'
              simp [Call.pending]
          · cases h
            refine ⟨rfl, rfl, fun k hk => Function.update_of_ne hk _ _, ⟨c, hc, hexpired⟩,
              fun c' hc' => ?_⟩
            cases (Function.update_self _ _ _).symm.trans hc'
            simp [Call.pending]
      · cases h
  · cases h

theorem drop_spec (h : schedulerStep total sched .drop = some sched') :
    sched'.guards + 1 = sched.guards ∧ sched'.arrived = sched.arrived ∧
      sched'.calls = sched.calls := by
  simp only [schedulerStep] at h
  split at h
  · next hguards =>
      cases h
      rcases wake_frame sched.dropGuard with ⟨hsame, harrived, hcalls⟩
      refine ⟨?_, harrived, hcalls⟩
      rw [hsame]
      exact Nat.sub_add_cancel hguards
  · cases h

/-! ## One run moves -/

/-- In a step one run goes on to another phase, and no run arrives. -/
structure Turns (s s' : EngineState κ) (i : Nat) (r : EngineRun κ) (p : RunPhase) : Prop where
  was : s.runs i = some r
  runs : s'.runs = Function.update s.runs i (some { r with phase := p })
  arrived : s'.arrived = s.arrived

section Turn

variable {s s' : EngineState κ} {i : Nat} {r : EngineRun κ} {p : RunPhase}

omit [DecidableEq κ] in
theorem Turns.now (h : Turns s s' i r p) : s'.runs i = some { r with phase := p } := by
  rw [h.runs, Function.update_self]

omit [DecidableEq κ] in
theorem Turns.other (h : Turns s s' i r p) {k : Nat} (hk : k ≠ i) : s'.runs k = s.runs k := by
  rw [h.runs, Function.update_of_ne hk]

omit [DecidableEq κ] in
theorem Turns.cases (h : Turns s s' i r p) {k : Nat} {x : EngineRun κ} (hx : s'.runs k = some x) :
    (k = i ∧ x = { r with phase := p }) ∨ (k ≠ i ∧ s.runs k = some x) := by
  by_cases hk : k = i
  · subst hk
    exact Or.inl ⟨rfl, Option.some.inj (hx.symm.trans h.now)⟩
  · exact Or.inr ⟨hk, (h.other hk).symm.trans hx⟩

omit [DecidableEq κ] in
theorem Turns.started (h : Turns s s' i r p) (hstarted : ∀ k x, s.runs k = some x → k < s.arrived)
    {k : Nat} {x : EngineRun κ} (hx : s'.runs k = some x) : k < s'.arrived := by
  rw [h.arrived]
  rcases h.cases hx with ⟨rfl, -⟩ | ⟨-, hx⟩
  · exact hstarted _ r h.was
  · exact hstarted k x hx

omit [DecidableEq κ] in
/-- What does not look at the phase of a run stays. -/
theorem Turns.keeps (h : Turns s s' i r p) {q : EngineRun κ → Prop}
    (hq : ∀ x p, q x → q { x with phase := p }) (hruns : ∀ k x, s.runs k = some x → q x) {k : Nat}
    {x : EngineRun κ} (hx : s'.runs k = some x) : q x := by
  rcases h.cases hx with ⟨-, rfl⟩ | ⟨-, hx⟩
  · exact hq r p (hruns i r h.was)
  · exact hruns k x hx

omit [DecidableEq κ] in
/-- How many runs are in some phases moves with the one run. -/
theorem Turns.number (h : Turns s s' i r p) (hi : i < s.arrived) (q : RunPhase → Bool) :
    s'.number q + (q r.phase).toNat = s.number q + (q p).toNat := by
  unfold EngineState.number
  rw [h.runs, h.arrived]
  exact tally_update hi h.was { r with phase := p }

omit [DecidableEq κ] in
theorem Turns.number_same (h : Turns s s' i r p) (hi : i < s.arrived) {q : RunPhase → Bool}
    (hq : q p = q r.phase) : s'.number q = s.number q := by
  have hweight : ofPhase q { r with phase := p } = ofPhase q r := congrArg Bool.toNat hq
  unfold EngineState.number
  rw [h.runs, h.arrived]
  exact tally_same hi h.was hweight

omit [DecidableEq κ] in
theorem number_arrive (s : EngineState κ) (r : EngineRun κ) (q : RunPhase → Bool) :
    (s.arrive r).number q = s.number q + (q r.phase).toNat :=
  tally_arrive (ofPhase q) s.runs s.arrived r

omit [DecidableEq κ] in
theorem arrive_cases {r x : EngineRun κ} {k : Nat} (hx : (s.arrive r).runs k = some x) :
    (k = s.arrived ∧ x = r) ∨ (k ≠ s.arrived ∧ s.runs k = some x) := by
  by_cases hk : k = s.arrived
  · subst hk
    have hself : (s.arrive r).runs s.arrived = some r := Function.update_self _ _ _
    exact Or.inl ⟨rfl, Option.some.inj (hx.symm.trans hself)⟩
  · have hother : (s.arrive r).runs k = s.runs k := Function.update_of_ne hk _ _
    exact Or.inr ⟨hk, hother.symm.trans hx⟩

end Turn

/-! ## The slots -/

/-- A run that waits for its slot is a call of the scheduler, and one that has one is a guard. -/
structure Slots (config : EngineConfig) (s : EngineState κ) : Prop where
  started : ∀ i r, s.runs i = some r → i < s.arrived
  limits : ∀ i r, s.runs i = some r → r.limits = config.toConfig.effective r.request.narrowing
  bounded : s.scheduler.isSome ↔ 0 < config.maxConcurrentRuns
  guards : ∀ sched, s.scheduler = some sched →
    sched.arrived = s.arrived ∧ sched.guards = s.number RunPhase.holdsSlot
  waits : ∀ i r, s.runs i = some r → r.phase = .acquiring →
    ∃ sched c, s.scheduler = some sched ∧ sched.calls i = some c ∧
      (c.phase = .waiting ∨ c.phase = .expired ∧ r.waitDeadline ≤ s.now)
  pending : ∀ sched i c, s.scheduler = some sched → sched.calls i = some c → c.pending →
    ∃ r, s.runs i = some r ∧ r.phase = .acquiring
  refused : ∀ i r e, s.runs i = some r → r.phase = .refused e →
    e = deadlineExceeded ∧ r.waitDeadline ≤ s.now

section SlotSteps

variable {config : EngineConfig} {s s' : EngineState κ} {i : Nat} {r : EngineRun κ} {p : RunPhase}

omit [DecidableEq κ] in
theorem Slots.start : Slots config (.start κ config) where
  started := fun _ _ h => by cases h
  limits := fun _ _ h => by cases h
  bounded := by
    unfold EngineState.start
    by_cases hbound : 0 < config.maxConcurrentRuns
    · simp [hbound]
    · simp [hbound]
  guards := by
    intro sched hsched
    unfold EngineState.start at hsched
    by_cases hbound : 0 < config.maxConcurrentRuns
    · rw [if_pos hbound] at hsched
      cases hsched
      exact ⟨rfl, rfl⟩
    · rw [if_neg hbound] at hsched
      cases hsched
  waits := fun _ _ h => by cases h
  pending := by
    intro sched i c hsched hc _
    unfold EngineState.start at hsched
    by_cases hbound : 0 < config.maxConcurrentRuns
    · rw [if_pos hbound] at hsched
      cases hsched
      cases hc
    · rw [if_neg hbound] at hsched
      cases hsched
  refused := fun _ _ _ h => by cases h

omit [DecidableEq κ] in
/-- A run goes on that has its slot, and keeps it. -/
theorem Slots.turn (h : Slots config s) (hturn : Turns s s' i r p)
    (hold : r.phase.holdsSlot = true) (hnew : p.holdsSlot = true)
    (hsched : s'.scheduler = s.scheduler) (hnow : s'.now = s.now) : Slots config s' := by
  have hi : i < s.arrived := h.started i r hturn.was
  refine
    { started := fun k x hx => hturn.started h.started hx
      limits := fun k x hx => hturn.keeps (fun _ _ hlimits => hlimits) h.limits hx
      bounded := hsched ▸ h.bounded
      guards := ?_
      waits := ?_
      pending := ?_
      refused := ?_ }
  · intro sched hs
    rcases h.guards sched (hsched ▸ hs) with ⟨harrived, hguards⟩
    refine ⟨harrived.trans hturn.arrived.symm, hguards.trans ?_⟩
    exact (hturn.number_same hi (hnew.trans hold.symm)).symm
  · intro k x hx hphase
    rcases hturn.cases hx with ⟨-, rfl⟩ | ⟨-, hx⟩
    · have hp : p = .acquiring := hphase
      subst hp
      cases hnew
    · rw [hsched, hnow]
      exact h.waits k x hx hphase
  · intro sched k c hs hc hpending
    rcases h.pending sched k c (hsched ▸ hs) hc hpending with ⟨x, hx, hphase⟩
    have hk : k ≠ i := by
      -- the run that moves has its slot and waits for none
      rintro rfl
      cases hx.symm.trans hturn.was
      rw [hphase] at hold
      cases hold
    exact ⟨x, (hturn.other hk).trans hx, hphase⟩
  · intro k x e hx hphase
    rcases hturn.cases hx with ⟨-, rfl⟩ | ⟨-, hx⟩
    · have hp : p = .refused e := hphase
      subst hp
      cases hnew
    · rw [hnow]
      exact h.refused k x e hx hphase

omit [DecidableEq κ] in
theorem Slots.arrive {request : RunRequest κ} (h : Slots config s)
    (sched' : Option (SchedulerSystem κ)) (hp : p = .slotted ∨ p = .acquiring)
    (hbounded : sched'.isSome = s.scheduler.isSome)
    (hguards : ∀ sched, sched' = some sched →
      sched.arrived = s.arrived + 1 ∧
        sched.guards = s.number RunPhase.holdsSlot + p.holdsSlot.toNat)
    (hframe : ∀ sched0, s.scheduler = some sched0 → ∃ sched, sched' = some sched ∧
      ∀ k, k ≠ s.arrived → sched.calls k = sched0.calls k)
    (hcall : p = .acquiring → ∃ sched c, sched' = some sched ∧ sched.calls s.arrived = some c ∧
      c.phase = .waiting)
    (hslot : ∀ sched c, sched' = some sched → sched.calls s.arrived = some c → c.pending →
      p = .acquiring) :
    Slots config { s.arrive (config.run s.now request p) with scheduler := sched' } := by
  refine
    { started := ?_
      limits := ?_
      bounded := ?_
      guards := ?_
      waits := ?_
      pending := ?_
      refused := ?_ }
  · intro k x hx
    rcases arrive_cases hx with ⟨rfl, -⟩ | ⟨-, hx⟩
    · exact Nat.lt_succ_self _
    · exact Nat.lt_succ_of_lt (h.started k x hx)
  · intro k x hx
    rcases arrive_cases hx with ⟨-, rfl⟩ | ⟨-, hx⟩
    · rfl
    · exact h.limits k x hx
  · exact hbounded ▸ h.bounded
  · intro sched hs
    rcases hguards sched hs with ⟨harrived, heq⟩
    exact ⟨harrived, heq.trans (number_arrive s (config.run s.now request p) _).symm⟩
  · intro k x hx hphase
    rcases arrive_cases hx with ⟨rfl, rfl⟩ | ⟨hk, hx⟩
    · rcases hcall hphase with ⟨sched, c, hs, hc, hwaiting⟩
      exact ⟨sched, c, hs, hc, Or.inl hwaiting⟩
    · rcases h.waits k x hx hphase with ⟨sched0, c, hs0, hc, hpending⟩
      rcases hframe sched0 hs0 with ⟨sched, hs, hcalls⟩
      exact ⟨sched, c, hs, (hcalls k hk).trans hc, hpending⟩
  · intro sched k c hs hc hpending
    by_cases hk : k = s.arrived
    · subst hk
      exact ⟨_, Function.update_self _ _ _, hslot sched c hs hc hpending⟩
    · cases hs0 : s.scheduler with
      | none =>
          have hnow : sched' = some sched := hs
          rw [hnow, hs0] at hbounded
          cases hbounded
      | some sched0 =>
          rcases hframe sched0 hs0 with ⟨sched1, hs1, hcalls⟩
          cases Option.some.inj (hs1.symm.trans hs)
          rcases h.pending sched0 k c hs0 ((hcalls k hk).symm.trans hc) hpending with
            ⟨x, hx, hphase⟩
          exact ⟨x, (Function.update_of_ne hk _ _).trans hx, hphase⟩
  · intro k x e hx hphase
    rcases arrive_cases hx with ⟨-, rfl⟩ | ⟨-, hx⟩
    · have hrefused : p = .refused e := hphase
      rcases hp with rfl | rfl
      · cases hrefused
      · cases hrefused
    · exact h.refused k x e hx hphase

/-- A move of the scheduler in the name of a run, as the runs see it. -/
structure Seen (s : EngineState κ) (i : Nat) (r : EngineRun κ) (p : RunPhase)
    (sched sched' : SchedulerSystem κ) : Prop where
  arrived : sched'.arrived = s.arrived
  guards : sched'.guards + r.phase.holdsSlot.toNat =
    s.number RunPhase.holdsSlot + p.holdsSlot.toNat
  calls : ∀ k, k ≠ i → sched'.calls k = sched.calls k
  acquiring : p = .acquiring → ∃ c, sched'.calls i = some c ∧ c.phase = .expired ∧
    r.waitDeadline ≤ s.now
  pending : ∀ c, sched'.calls i = some c → c.pending → p = .acquiring
  refused : ∀ e, p = .refused e → e = deadlineExceeded ∧ r.waitDeadline ≤ s.now

theorem Slots.seen (h : Slots config s) {sched sched' : SchedulerSystem κ} {a : SchedulerAction κ}
    (hr : s.runs i = some r) (hsched : s.scheduler = some sched) (hturn : SlotTurn s i r a p)
    (hstep : schedulerStep config.maxConcurrentRuns sched a = some sched') :
    Seen s i r p sched sched' := by
  rcases h.guards sched hsched with ⟨harrived, hguards⟩
  cases hturn with
  | receive hphase =>
      rcases receive_spec hstep with ⟨hg, ha, hcalls, hnot⟩
      exact
        { arrived := ha.trans harrived
          guards := by rw [hg, hguards, hphase]; rfl
          calls := hcalls
          acquiring := fun hp => by cases hp
          pending := fun c hc hpending => absurd hpending (hnot c hc)
          refused := fun e hp => by cases hp }
  | expire hphase hlate =>
      rcases expire_spec hstep with ⟨hg, ha, hcalls, c, -, -, hc⟩
      exact
        { arrived := ha.trans harrived
          guards := by rw [hg, hguards, hphase]
          calls := hcalls
          acquiring := fun _ => ⟨_, hc, rfl, hlate⟩
          pending := fun _ _ _ => rfl
          refused := fun e hp => by cases hp }
  | reconcile hphase =>
      rcases reconcile_spec hstep with ⟨hg, ha, hcalls, ⟨c, hc, hexpired⟩, hnot⟩
      refine
        { arrived := ha.trans harrived
          guards := by rw [hg, hguards, hphase]; rfl
          calls := hcalls
          acquiring := fun hp => by cases hp
          pending := fun c hc hpending => absurd hpending (hnot c hc)
          refused := fun e hp => ?_ }
      -- it gave up before, so its deadline was over
      rcases h.waits i r hr hphase with ⟨sched0, c0, hs0, hc0, hpending⟩
      cases hs0.symm.trans hsched
      cases hc0.symm.trans hc
      cases hp
      rcases hpending with hwaiting | ⟨-, hlate⟩
      · cases hwaiting.symm.trans hexpired
      · exact ⟨rfl, hlate⟩
  | drop hphase =>
      rcases drop_spec hstep with ⟨hg, ha, hcalls⟩
      refine
        { arrived := ha.trans harrived
          guards := by rw [hphase]; exact hg.trans hguards
          calls := fun k _ => congrFun hcalls k
          acquiring := fun hp => by cases hp
          pending := fun c hc hpending => ?_
          refused := fun e hp => by cases hp }
      -- a run that has its slot has no call any more
      rw [hcalls] at hc
      rcases h.pending sched i c hsched hc hpending with ⟨x, hx, hacquiring⟩
      cases hx.symm.trans hr
      cases hacquiring.symm.trans hphase

theorem Slots.scheduled (h : Slots config s) {sched sched' : SchedulerSystem κ}
    {a : SchedulerAction κ} (hr : s.runs i = some r) (hsched : s.scheduler = some sched)
    (hturn : SlotTurn s i r a p)
    (hstep : schedulerStep config.maxConcurrentRuns sched a = some sched') :
    Slots config { s.setPhase i r p with scheduler := some sched' } := by
  have hi : i < s.arrived := h.started i r hr
  have hturns : Turns s { s.setPhase i r p with scheduler := some sched' } i r p := ⟨hr, rfl, rfl⟩
  have hnumber := hturns.number hi RunPhase.holdsSlot
  have hseen := h.seen hr hsched hturn hstep
  refine
    { started := fun k x hx => hturns.started h.started hx
      limits := fun k x hx => hturns.keeps (fun _ _ hlimits => hlimits) h.limits hx
      bounded := ?_
      guards := ?_
      waits := ?_
      pending := ?_
      refused := ?_ }
  · have hbounded := h.bounded
    rw [hsched] at hbounded
    exact hbounded
  · intro sched0 hs0
    cases hs0
    exact ⟨hseen.arrived, Nat.add_right_cancel (hseen.guards.trans hnumber.symm)⟩
  · intro k x hx hphase
    rcases hturns.cases hx with ⟨rfl, rfl⟩ | ⟨hk, hx⟩
    · rcases hseen.acquiring hphase with ⟨c, hc, hexpired, hlate⟩
      exact ⟨sched', c, rfl, hc, Or.inr ⟨hexpired, hlate⟩⟩
    · rcases h.waits k x hx hphase with ⟨sched0, c, hs0, hc, hpending⟩
      cases hs0.symm.trans hsched
      exact ⟨sched', c, rfl, (hseen.calls k hk).trans hc, hpending⟩
  · intro sched0 k c hs0 hc hpending
    cases hs0
    by_cases hk : k = i
    · subst hk
      exact ⟨_, hturns.now, hseen.pending c hc hpending⟩
    · have hbefore := (hseen.calls k hk).symm.trans hc
      rcases h.pending sched k c hsched hbefore hpending with ⟨x, hx, hphase⟩
      exact ⟨x, (hturns.other hk).trans hx, hphase⟩
  · intro k x e hx hphase
    rcases hturns.cases hx with ⟨-, rfl⟩ | ⟨-, hx⟩
    · exact hseen.refused e hphase
    · exact h.refused k x e hx hphase

omit [DecidableEq κ] in
/-- Without slots a run returns as it is. -/
theorem Slots.unslotted (h : Slots config s) {result : Except Text Bytes}
    (hsched : s.scheduler = none) (hr : s.runs i = some r) :
    Slots config (s.setPhase i r (.returned result)) := by
  have hturns : Turns s (s.setPhase i r (.returned result)) i r (.returned result) := ⟨hr, rfl, rfl⟩
  refine
    { started := fun k x hx => hturns.started h.started hx
      limits := fun k x hx => hturns.keeps (fun _ _ hlimits => hlimits) h.limits hx
      bounded := h.bounded
      guards := fun sched hs => by cases hs.symm.trans hsched
      waits := ?_
      pending := fun sched _ _ hs => by cases hs.symm.trans hsched
      refused := ?_ }
  · intro k x hx hphase
    rcases hturns.cases hx with ⟨-, rfl⟩ | ⟨-, hx⟩
    · cases hphase
    · exact h.waits k x hx hphase
  · intro k x e hx hphase
    rcases hturns.cases hx with ⟨-, rfl⟩ | ⟨-, hx⟩
    · cases hphase
    · exact h.refused k x e hx hphase

theorem Slots.step {a : EngineAction κ} (h : Slots config s) (hmove : EngineMove config s a s') :
    Slots config s' := by
  cases hmove with
  | elapse d =>
      -- a deadline that is over stays so
      refine { h with waits := ?_, refused := ?_ }
      · intro k x hx hphase
        rcases h.waits k x hx hphase with ⟨sched, c, hs, hc, hpending⟩
        refine ⟨sched, c, hs, hc, hpending.imp_right fun hlate => ⟨hlate.1, ?_⟩⟩
        exact Nat.le_trans hlate.2 (Nat.le_add_right _ _)
      · intro k x e hx hphase
        rcases h.refused k x e hx hphase with ⟨heq, hlate⟩
        exact ⟨heq, Nat.le_trans hlate (Nat.le_add_right _ _)⟩
  | ticked => exact { h with }
  | idle => exact h
  | called hsched =>
      -- there is no bound, so there is nothing to show of a scheduler
      refine h.arrive s.scheduler (Or.inl rfl) rfl ?_ ?_ (fun hp => by cases hp) ?_
      · intro sched hs
        cases hs.symm.trans hsched
      · intro sched hs
        cases hs.symm.trans hsched
      · intro sched c hs
        cases hs.symm.trans hsched
  | @granted request id sched hsched hfree =>
      rcases h.guards sched hsched with ⟨harrived, hguards⟩
      refine h.arrive _ (Or.inl rfl) (by rw [hsched]; rfl) ?_ ?_ (fun hp => by cases hp) ?_
      · intro sched' hs
        cases hs
        exact ⟨congrArg (· + 1) harrived, congrArg (· + 1) hguards⟩
      · intro sched0 hs0
        cases hs0.symm.trans hsched
        refine ⟨_, rfl, fun k hk => ?_⟩
        exact Function.update_of_ne (harrived ▸ hk) _ _
      · intro sched' c hs hc hpending
        cases hs
        rw [← harrived] at hc
        cases (Function.update_self _ _ _).symm.trans hc
        simp [Call.pending] at hpending
  | @queued request id sched hsched hfull =>
      rcases h.guards sched hsched with ⟨harrived, hguards⟩
      refine h.arrive _ (Or.inr rfl) (by rw [hsched]; rfl) ?_ ?_ (fun _ => ?_) fun _ _ _ _ _ => rfl
      · intro sched' hs
        cases hs
        exact ⟨congrArg (· + 1) harrived, hguards⟩
      · intro sched0 hs0
        cases hs0.symm.trans hsched
        refine ⟨_, rfl, fun k hk => ?_⟩
        exact Function.update_of_ne (harrived ▸ hk) _ _
      · refine ⟨_, { key := request.key, id := id, phase := .waiting }, rfl, ?_, rfl⟩
        rw [← harrived]
        exact Function.update_self _ _ _
  | scheduled hr hsched hturn hstep => exact h.scheduled hr hsched hturn hstep
  | unslotted hr hsched hphase => exact h.unslotted hsched hr
  | sandboxed hr hphase htmps =>
      exact h.turn ⟨hr, rfl, rfl⟩ (by rw [hphase]; rfl) rfl rfl rfl
  | unsandboxed hr hphase => exact h.turn ⟨hr, rfl, rfl⟩ (by rw [hphase]; rfl) rfl rfl rfl
  | launched hr hphase => exact h.turn ⟨hr, rfl, rfl⟩ (by rw [hphase]; rfl) rfl rfl rfl
  | unlaunched hr hphase => exact h.turn ⟨hr, rfl, rfl⟩ (by rw [hphase]; rfl) rfl rfl rfl
  | guest hr hphase hstep => exact { h with }
  | stopped hr hphase hm hidle => exact h.turn ⟨hr, rfl, rfl⟩ (by rw [hphase]; rfl) rfl rfl rfl
  | storeDropped hr hphase hstep => exact h.turn ⟨hr, rfl, rfl⟩ (by rw [hphase]; rfl) rfl rfl rfl
  | runningDropped hr hphase => exact h.turn ⟨hr, rfl, rfl⟩ (by rw [hphase]; rfl) rfl rfl rfl
  | tmpDropped hr hphase htmps => exact h.turn ⟨hr, rfl, rfl⟩ (by rw [hphase]; rfl) rfl rfl rfl
  | observed hr hphase => exact h.turn ⟨hr, rfl, rfl⟩ (by rw [hphase]; rfl) rfl rfl rfl

end SlotSteps

/-! ## The counters -/

/-- The counter and the gauge of the runs in flight, and how often the metrics were observed. -/
structure Counters (s : EngineState κ) : Prop where
  started : ∀ i r, s.runs i = some r → i < s.arrived
  active : s.active = s.number RunPhase.inFlight
  gauge : s.inFlight = s.active
  counted : ∀ o, s.runDuration o = s.number (RunPhase.observedAs o)
  driven : s.hostcallDuration + s.number RunPhase.driving = s.memory.started

/-- A move of a run starts no other. -/
theorem memory_started {m m' : Memory.Governance} {a : Memory.Action} {j : Nat}
    (h : Memory.governanceStep m a = some m') (ha : a.run = some j) : m'.started = m.started := by
  cases Memory.moves_of_step h with
  | start limit => cases ha
  | run => rfl
  | reserve => rfl
  | finish => rfl

section CounterSteps

variable {config : EngineConfig} {s s' : EngineState κ} {i : Nat} {r : EngineRun κ} {p : RunPhase}

omit [DecidableEq κ] in
theorem Counters.start : Counters (.start κ config) where
  started := fun _ _ h => by cases h
  active := rfl
  gauge := rfl
  counted := fun _ => rfl
  driven := rfl

omit [DecidableEq κ] in
/-- A step that no counter sees. -/
theorem Counters.turn (h : Counters s) (hturn : Turns s s' i r p)
    (hflight : p.inFlight = r.phase.inFlight) (hdriving : p.driving = r.phase.driving)
    (hobserved : ∀ o, p.observedAs o = r.phase.observedAs o) (hactive : s'.active = s.active)
    (hgauge : s'.inFlight = s.inFlight) (hduration : s'.runDuration = s.runDuration)
    (hhostcall : s'.hostcallDuration = s.hostcallDuration)
    (hmemory : s'.memory.started = s.memory.started) : Counters s' := by
  have hi : i < s.arrived := h.started i r hturn.was
  refine
    { started := fun k x hx => hturn.started h.started hx
      active := ?_
      gauge := ?_
      counted := ?_
      driven := ?_ }
  · -- the number of the runs in flight is the same, and so is the counter
    rw [hactive, hturn.number_same hi hflight]
    exact h.active
  · rw [hgauge, hactive]
    exact h.gauge
  · intro o
    rw [hduration, hturn.number_same hi (hobserved o)]
    exact h.counted o
  · rw [hhostcall, hmemory, hturn.number_same hi hdriving]
    exact h.driven

omit [DecidableEq κ] in
theorem Counters.arrive (h : Counters s) (sched : Option (SchedulerSystem κ))
    (hflight : r.phase.inFlight = false) (hdriving : r.phase.driving = false)
    (hobserved : ∀ o, r.phase.observedAs o = false) :
    Counters { s.arrive r with scheduler := sched } := by
  have hnumber : ∀ {q : RunPhase → Bool}, q r.phase = false →
      (s.arrive r).number q = s.number q := by
    intro q hq
    rw [number_arrive, hq]
    rfl
  refine
    { started := ?_
      active := h.active.trans (congrArg _ (hnumber hflight).symm)
      gauge := h.gauge
      counted := fun o => (h.counted o).trans (hnumber (hobserved o)).symm
      driven := ?_ }
  · intro k x hx
    rcases arrive_cases hx with ⟨rfl, -⟩ | ⟨-, hx⟩
    · exact Nat.lt_succ_self _
    · exact Nat.lt_succ_of_lt (h.started k x hx)
  · exact (congrArg (s.hostcallDuration + ·) (hnumber hdriving)).trans h.driven

omit [DecidableEq κ] in
theorem Counters.launched (h : Counters s) (hr : s.runs i = some r)
    (hphase : r.phase = .sandboxed) : Counters (s.launch i r) := by
  have hturn : Turns s (s.launch i r) i r (.running s.memory.started (r.budget s.now)) :=
    ⟨hr, rfl, rfl⟩
  have hi : i < s.arrived := h.started i r hr
  have hflight := hturn.number hi RunPhase.inFlight
  have hdriving := hturn.number hi RunPhase.driving
  rw [hphase] at hflight hdriving
  refine
    { started := fun k x hx => hturn.started h.started hx
      active := ?_
      gauge := congrArg (· + 1) h.gauge
      counted := ?_
      driven := ?_ }
  · calc s.active + 1
        = (s.number RunPhase.inFlight : Int) + 1 := congrArg (· + 1) h.active
      _ = ((s.launch i r).number RunPhase.inFlight : Int) := congrArg Nat.cast hflight.symm
  · intro o
    exact (h.counted o).trans (hturn.number_same hi (by rw [hphase]; rfl)).symm
  · calc s.hostcallDuration + (s.launch i r).number RunPhase.driving
        = s.hostcallDuration + (s.number RunPhase.driving + 1) := congrArg _ hdriving
      _ = s.memory.started + 1 := congrArg (· + 1) h.driven

omit [DecidableEq κ] in
theorem Counters.stopped (h : Counters s) {store budget : Nat} {result : Except Text Bytes}
    (hr : s.runs i = some r) (hphase : r.phase = .running store budget) :
    Counters { s.setPhase i r (.stopped store result) with
      hostcallDuration := s.hostcallDuration + 1 } := by
  have hturn : Turns s { s.setPhase i r (.stopped store result) with
      hostcallDuration := s.hostcallDuration + 1 } i r (.stopped store result) := ⟨hr, rfl, rfl⟩
  have hi : i < s.arrived := h.started i r hr
  have hdriving := hturn.number hi RunPhase.driving
  rw [hphase] at hdriving
  refine
    { started := fun k x hx => hturn.started h.started hx
      active := h.active.trans (congrArg _ (hturn.number_same hi (by rw [hphase]; rfl)).symm)
      gauge := h.gauge
      counted := fun o => (h.counted o).trans (hturn.number_same hi (by rw [hphase]; rfl)).symm
      driven := ?_ }
  exact (Nat.add_right_comm _ 1 _).trans
    ((congrArg (s.hostcallDuration + ·) hdriving).trans h.driven)

omit [DecidableEq κ] in
theorem Counters.runningDropped (h : Counters s) {result : Except Text Bytes}
    (hr : s.runs i = some r) (hphase : r.phase = .released result) :
    Counters { s.setPhase i r (.ended result) with
      active := s.active - 1
      inFlight := s.inFlight - 1 } := by
  have hturn : Turns s { s.setPhase i r (.ended result) with
      active := s.active - 1
      inFlight := s.inFlight - 1 } i r (.ended result) := ⟨hr, rfl, rfl⟩
  have hi : i < s.arrived := h.started i r hr
  have hflight := hturn.number hi RunPhase.inFlight
  rw [hphase] at hflight
  refine
    { started := fun k x hx => hturn.started h.started hx
      active := ?_
      gauge := congrArg (· - 1) h.gauge
      counted := fun o => (h.counted o).trans (hturn.number_same hi (by rw [hphase]; rfl)).symm
      driven := ?_ }
  · have hcast : s.active = _ := h.active.trans (congrArg Nat.cast hflight.symm)
    exact Int.sub_eq_iff_eq_add.2 hcast
  · exact (congrArg (s.hostcallDuration + ·) (hturn.number_same hi (by rw [hphase]; rfl))).trans
      h.driven

omit [DecidableEq κ] in
theorem Counters.observed (h : Counters s) {result : Except Text Bytes}
    (hr : s.runs i = some r) (hphase : r.phase = .executed result) :
    Counters { s.setPhase i r (.observed result) with
      runDuration := Function.update s.runDuration (runOutcome result)
        (s.runDuration (runOutcome result) + 1) } := by
  have hturn : Turns s { s.setPhase i r (.observed result) with
      runDuration := Function.update s.runDuration (runOutcome result)
        (s.runDuration (runOutcome result) + 1) } i r (.observed result) := ⟨hr, rfl, rfl⟩
  have hi : i < s.arrived := h.started i r hr
  refine
    { started := fun k x hx => hturn.started h.started hx
      active := h.active.trans (congrArg _ (hturn.number_same hi (by rw [hphase]; rfl)).symm)
      gauge := h.gauge
      counted := ?_
      driven := ?_ }
  · intro o
    have hnumber := hturn.number hi (RunPhase.observedAs o)
    rw [hphase] at hnumber
    -- the run adds to the one outcome it had
    by_cases ho : runOutcome result = o
    · subst ho
      have hone : RunPhase.observedAs (runOutcome result) (.observed result) = true :=
        decide_eq_true rfl
      rw [hone] at hnumber
      dsimp only
      rw [Function.update_self, h.counted]
      exact hnumber.symm
    · have hzero : RunPhase.observedAs o (.observed result) = false := decide_eq_false ho
      rw [hzero] at hnumber
      dsimp only
      rw [Function.update_of_ne (Ne.symm ho), h.counted]
      exact hnumber.symm
  · exact (congrArg (s.hostcallDuration + ·) (hturn.number_same hi (by rw [hphase]; rfl))).trans
      h.driven

omit [DecidableEq κ] in
/-- No counter sees a move of the scheduler. -/
theorem SlotTurn.unseen {a : SchedulerAction κ} (h : SlotTurn s i r a p) :
    p.inFlight = r.phase.inFlight ∧ p.driving = r.phase.driving ∧
      ∀ o, p.observedAs o = r.phase.observedAs o := by
  cases h with
  | receive hphase | expire hphase hlate | reconcile hphase | drop hphase =>
      rw [hphase]
      exact ⟨rfl, rfl, fun _ => rfl⟩

theorem GuestMove.action_run (a : GuestMove) (store : Nat) : (a.action store).run = some store := by
  cases a with
  | _ => rfl

theorem Counters.step {a : EngineAction κ} (h : Counters s) (hmove : EngineMove config s a s') :
    Counters s' := by
  cases hmove with
  | elapse d => exact { h with }
  | ticked hactive => exact { h with }
  | idle => exact h
  | called hsched => exact h.arrive s.scheduler rfl rfl fun _ => rfl
  | granted hsched hfree => exact h.arrive _ rfl rfl fun _ => rfl
  | queued hsched hfull => exact h.arrive _ rfl rfl fun _ => rfl
  | scheduled hr hsched hturn hstep =>
      rcases hturn.unseen with ⟨hflight, hdriving, hobserved⟩
      exact h.turn ⟨hr, rfl, rfl⟩ hflight hdriving hobserved rfl rfl rfl rfl rfl
  | unslotted hr hsched hphase | sandboxed hr hphase htmps | unsandboxed hr hphase
  | unlaunched hr hphase | tmpDropped hr hphase htmps =>
      refine h.turn ⟨hr, rfl, rfl⟩ ?_ ?_ (fun o => ?_) rfl rfl rfl rfl rfl
      all_goals rw [hphase]; rfl
  | launched hr hphase => exact h.launched hr hphase
  | guest hr hphase hstep =>
      have hstarted := memory_started hstep (GuestMove.action_run _ _)
      exact { h with driven := h.driven.trans hstarted.symm }
  | stopped hr hphase hm hidle => exact h.stopped hr hphase
  | storeDropped hr hphase hstep =>
      refine h.turn ⟨hr, rfl, rfl⟩ ?_ ?_ (fun o => ?_) rfl rfl rfl rfl (memory_started hstep rfl)
      all_goals rw [hphase]; rfl
  | runningDropped hr hphase => exact h.runningDropped hr hphase
  | observed hr hphase => exact h.observed hr hphase

end CounterSteps

/-! ## The stores -/

/-- Each store is one run's, of the memory that the run may have; the guest of one that is stopped
asks for no more. -/
structure Stores (s : EngineState κ) : Prop where
  held : ∀ i r j, s.runs i = some r → r.phase.store = some j →
    ∃ m, s.memory.runs j = some m ∧ m.limiter.limit = r.limits.memoryLimit ∧
      (r.phase.driving = false → m.growth = .idle)
  owned : ∀ j m, s.memory.runs j = some m → ∃ i r, s.runs i = some r ∧ r.phase.store = some j
  distinct : ∀ i i' r r' j, s.runs i = some r → s.runs i' = some r' → r.phase.store = some j →
    r'.phase.store = some j → i = i'

theorem RunMove_limit {m m' : Memory.Run} {a : Memory.Action} (h : Memory.RunMove m a m') :
    m'.limiter.limit = m.limiter.limit := by
  cases h with
  | @growing _ k desired region _ _ _ =>
      unfold Memory.Run.growing
      dsimp only
      cases hcharge : m.limiter.charge (region.kind.bytes (desired - region.size)) with
      | none => rfl
      | some c =>
          rcases c with ⟨l, need⟩
          rcases Memory.charge_eq_some hcharge with ⟨rfl, -⟩
          cases need with
          | none => rfl
          | some need => rfl
  | _ => rfl

/-- What a guest does to its memory is done to its own. -/
theorem guest_memory {m m' : Memory.Governance} {a : GuestMove} {j : Nat}
    (h : Memory.governanceStep m (a.action j) = some m') :
    (∀ k, k ≠ j → m'.runs k = m.runs k) ∧
      ∃ x x', m.runs j = some x ∧ m'.runs j = some x' ∧ x'.limiter.limit = x.limiter.limit := by
  have ha := GuestMove.action_run a j
  have hmoves := Memory.moves_of_step h
  generalize hact : a.action j = act at ha hmoves
  cases hmoves with
  | start limit => cases ha
  | @run i _ x x' hx hrun hmove =>
      cases ha.symm.trans hrun
      exact ⟨fun k hk => Function.update_of_ne hk _ _, x, x', hx, Function.update_self _ _ _,
        RunMove_limit hmove⟩
  | @reserve i need x g pool pool' hx hpool hgrowth hreserve =>
      cases ha
      exact ⟨fun k hk => Function.update_of_ne hk _ _, x, _, hx, Function.update_self _ _ _, rfl⟩
  | finish hx hidle =>
      cases a with
      | _ => cases hact

theorem finish_memory {m m' : Memory.Governance} {j : Nat}
    (h : Memory.governanceStep m (.finish j) = some m') :
    (∀ k, k ≠ j → m'.runs k = m.runs k) ∧ m'.runs j = none := by
  cases Memory.moves_of_step h with
  | run hx hrun hmove =>
      cases hrun
      cases hmove
  | finish hx hidle => exact ⟨fun k hk => Function.update_of_ne hk _ _, Function.update_self _ _ _⟩

section StoreSteps

variable {config : EngineConfig} {s s' : EngineState κ} {i : Nat} {r : EngineRun κ} {p : RunPhase}

omit [DecidableEq κ] in
theorem Stores.start : Stores (.start κ config) where
  held := fun _ _ _ h => by cases h
  owned := fun _ _ h => by cases h
  distinct := fun _ _ _ _ _ h => by cases h

omit [DecidableEq κ] in
theorem Stores.arrive (h : Stores s) (hnone : r.phase.store = none)
    (hfresh : s.runs s.arrived = none) (sched : Option (SchedulerSystem κ)) :
    Stores { s.arrive r with scheduler := sched } where
  held k x j hx hj := by
    rcases arrive_cases hx with ⟨-, rfl⟩ | ⟨-, hx⟩
    · cases hnone.symm.trans hj
    · exact h.held k x j hx hj
  owned j m hm := by
    rcases h.owned j m hm with ⟨k, x, hx, hj⟩
    refine ⟨k, x, ?_, hj⟩
    have hk : k ≠ s.arrived := by
      rintro rfl
      cases hfresh.symm.trans hx
    exact (Function.update_of_ne hk _ _).trans hx
  distinct k k' x x' j hx hx' hj hj' := by
    rcases arrive_cases hx with ⟨-, rfl⟩ | ⟨-, hx⟩
    · cases hnone.symm.trans hj
    · rcases arrive_cases hx' with ⟨-, rfl⟩ | ⟨-, hx'⟩
      · cases hnone.symm.trans hj'
      · exact h.distinct k k' x x' j hx hx' hj hj'

omit [DecidableEq κ] in
/-- A run that keeps what store it has. -/
theorem Stores.turn (h : Stores s) (hturn : Turns s s' i r p)
    (hstore : p.store = r.phase.store) (hmemory : s'.memory = s.memory)
    (hidle : p.driving = false → ∀ j m, p.store = some j → s.memory.runs j = some m →
      m.growth = .idle) : Stores s' where
  held k x j hx hj := by
    rw [hmemory]
    rcases hturn.cases hx with ⟨-, rfl⟩ | ⟨-, hx⟩
    · rcases h.held i r j hturn.was (hstore ▸ hj) with ⟨m, hm, hlimit, -⟩
      exact ⟨m, hm, hlimit, fun hdriving => hidle hdriving j m hj hm⟩
    · exact h.held k x j hx hj
  owned j m hm := by
    rcases h.owned j m (hmemory ▸ hm) with ⟨k, x, hx, hj⟩
    by_cases hk : k = i
    · subst hk
      cases hx.symm.trans hturn.was
      exact ⟨k, _, hturn.now, hstore.trans hj⟩
    · exact ⟨k, x, (hturn.other hk).trans hx, hj⟩
  distinct k k' x x' j hx hx' hj hj' := by
    -- every run has the store that it had
    have hback : ∀ {l : Nat} {y : EngineRun κ}, s'.runs l = some y → y.phase.store = some j →
        ∃ y0, s.runs l = some y0 ∧ y0.phase.store = some j := by
      intro l y hy hyj
      rcases hturn.cases hy with ⟨rfl, rfl⟩ | ⟨-, hy⟩
      · exact ⟨r, hturn.was, hstore.symm.trans hyj⟩
      · exact ⟨y, hy, hyj⟩
    rcases hback hx hj with ⟨y, hy, hyj⟩
    rcases hback hx' hj' with ⟨y', hy', hyj'⟩
    exact h.distinct k k' y y' j hy hy' hyj hyj'

omit [DecidableEq κ] in
/-- A new store. -/
theorem Stores.launched (h : Stores s)
    (hmem : ∀ j m, s.memory.runs j = some m → j < s.memory.started) (hr : s.runs i = some r)
    (hnone : r.phase.store = none) : Stores (s.launch i r) := by
  have hturn : Turns s (s.launch i r) i r (.running s.memory.started (r.budget s.now)) :=
    ⟨hr, rfl, rfl⟩
  have hself : (s.launch i r).memory.runs s.memory.started = some
      { limiter := .new r.limits.memoryLimit (s.memory.pool.map fun _ => 0)
        regions := []
        growth := .idle
        refused := 0 } := Function.update_self _ _ _
  have hother : ∀ j, j ≠ s.memory.started → (s.launch i r).memory.runs j = s.memory.runs j :=
    fun j hj => Function.update_of_ne hj _ _
  have hold : ∀ {k x j}, s.runs k = some x → x.phase.store = some j → j ≠ s.memory.started := by
    intro k x j hx hj
    rcases h.held k x j hx hj with ⟨m, hm, -⟩
    exact Nat.ne_of_lt (hmem j m hm)
  refine ⟨?_, ?_, ?_⟩
  · intro k x j hx hj
    rcases hturn.cases hx with ⟨-, rfl⟩ | ⟨-, hx⟩
    · cases hj
      exact ⟨_, hself, rfl, fun _ => rfl⟩
    · rw [hother j (hold hx hj)]
      exact h.held k x j hx hj
  · intro j m hm
    by_cases hj : j = s.memory.started
    · subst hj
      exact ⟨i, _, hturn.now, rfl⟩
    · rcases h.owned j m ((hother j hj).symm.trans hm) with ⟨k, x, hx, hxj⟩
      have hk : k ≠ i := by
        rintro rfl
        cases hx.symm.trans hr
        cases hnone.symm.trans hxj
      exact ⟨k, x, (hturn.other hk).trans hx, hxj⟩
  · intro k k' x x' j hx hx' hj hj'
    rcases hturn.cases hx with ⟨hk, rfl⟩ | ⟨-, hold1⟩
    · cases hj
      rcases hturn.cases hx' with ⟨hk', -⟩ | ⟨-, hold2⟩
      · exact hk.trans hk'.symm
      · exact absurd rfl (hold hold2 hj')
    · rcases hturn.cases hx' with ⟨-, rfl⟩ | ⟨-, hold2⟩
      · cases hj'
        exact absurd rfl (hold hold1 hj)
      · exact h.distinct k k' x x' j hold1 hold2 hj hj'

omit [DecidableEq κ] in
/-- The guest of a run asks for memory, or gets it. -/
theorem Stores.guest (h : Stores s) {store budget : Nat} {a : GuestMove}
    {memory : Memory.Governance} (hr : s.runs i = some r)
    (hphase : r.phase = .running store budget)
    (hstep : Memory.governanceStep s.memory (a.action store) = some memory) :
    Stores { s with memory := memory } := by
  rcases guest_memory hstep with ⟨hothers, m, m', hm, hm', hlimit⟩
  have hown : r.phase.store = some store := by
    rw [hphase]
    rfl
  refine ⟨?_, ?_, h.distinct⟩
  · intro k x j hx hj
    rcases h.held k x j hx hj with ⟨m0, hm0, hlimit0, hidle⟩
    by_cases hjs : j = store
    · subst hjs
      cases h.distinct k i x r j hx hr hj hown
      cases hx.symm.trans hr
      cases hm0.symm.trans hm
      refine ⟨m', hm', hlimit.trans hlimit0, fun hdriving => ?_⟩
      rw [hphase] at hdriving
      cases hdriving
    · exact ⟨m0, (hothers j hjs).trans hm0, hlimit0, hidle⟩
  · intro j x hx
    by_cases hjs : j = store
    · subst hjs
      exact ⟨i, r, hr, hown⟩
    · exact h.owned j x ((hothers j hjs).symm.trans hx)

omit [DecidableEq κ] in
/-- A store is dropped with its memory. -/
theorem Stores.dropped (h : Stores s) {store : Nat} {result : Except Text Bytes}
    {memory : Memory.Governance} (hr : s.runs i = some r)
    (hphase : r.phase = .stopped store result)
    (hstep : Memory.governanceStep s.memory (.finish store) = some memory) :
    Stores { s.setPhase i r (.released result) with memory := memory } := by
  have hturn : Turns s { s.setPhase i r (.released result) with memory := memory } i r
      (.released result) := ⟨hr, rfl, rfl⟩
  rcases finish_memory hstep with ⟨hothers, hgone⟩
  have hown : r.phase.store = some store := by
    rw [hphase]
    rfl
  have hkept : ∀ {k x j}, k ≠ i → s.runs k = some x → x.phase.store = some j → j ≠ store := by
    rintro k x j hk hx hj rfl
    exact hk (h.distinct k i x r j hx hr hj hown)
  refine ⟨?_, ?_, ?_⟩
  · intro k x j hx hj
    rcases hturn.cases hx with ⟨-, rfl⟩ | ⟨hk, hx⟩
    · cases hj
    · rcases h.held k x j hx hj with ⟨m, hm, hrest⟩
      exact ⟨m, (hothers j (hkept hk hx hj)).trans hm, hrest⟩
  · intro j m hm
    have hjs : j ≠ store := by
      rintro rfl
      cases hgone.symm.trans hm
    rcases h.owned j m ((hothers j hjs).symm.trans hm) with ⟨k, x, hx, hxj⟩
    have hk : k ≠ i := by
      rintro rfl
      cases hx.symm.trans hr
      exact hjs (Option.some.inj (hxj.symm.trans hown))
    exact ⟨k, x, (hturn.other hk).trans hx, hxj⟩
  · intro k k' x x' j hx hx' hj hj'
    rcases hturn.cases hx with ⟨-, rfl⟩ | ⟨-, hx⟩
    · cases hj
    · rcases hturn.cases hx' with ⟨-, rfl⟩ | ⟨-, hx'⟩
      · cases hj'
      · exact h.distinct k k' x x' j hx hx' hj hj'

omit [DecidableEq κ] in
theorem SlotTurn.storeless {a : SchedulerAction κ} (h : SlotTurn s i r a p) :
    r.phase.store = none ∧ p.store = none := by
  cases h with
  | receive hphase | expire hphase hlate | reconcile hphase | drop hphase =>
      rw [hphase]
      exact ⟨rfl, rfl⟩

theorem Stores.step {a : EngineAction κ} (h : Stores s)
    (hstarted : ∀ i r, s.runs i = some r → i < s.arrived)
    (hmem : ∀ j m, s.memory.runs j = some m → j < s.memory.started)
    (hmove : EngineMove config s a s') : Stores s' := by
  have hfresh : s.runs s.arrived = none := by
    cases hx : s.runs s.arrived with
    | none => rfl
    | some x => exact absurd (hstarted _ x hx) (Nat.lt_irrefl _)
  cases hmove with
  | elapse d => exact ⟨h.held, h.owned, h.distinct⟩
  | ticked hactive => exact ⟨h.held, h.owned, h.distinct⟩
  | idle => exact h
  | called hsched => exact h.arrive rfl hfresh s.scheduler
  | granted hsched hfree => exact h.arrive rfl hfresh _
  | queued hsched hfull => exact h.arrive rfl hfresh _
  | scheduled hr hsched hturn hstep =>
      rcases hturn.storeless with ⟨hold, hnew⟩
      refine h.turn ⟨hr, rfl, rfl⟩ (hnew.trans hold.symm) rfl fun _ j m hj => ?_
      cases hnew.symm.trans hj
  | unslotted hr hsched hphase | sandboxed hr hphase htmps | unsandboxed hr hphase
  | unlaunched hr hphase | runningDropped hr hphase | tmpDropped hr hphase htmps
  | observed hr hphase =>
      refine h.turn ⟨hr, rfl, rfl⟩ ?_ rfl fun _ j m hj => ?_
      · rw [hphase]
        rfl
      · cases hj
  | launched hr hphase => exact h.launched hmem hr (by rw [hphase]; rfl)
  | guest hr hphase hstep => exact h.guest hr hphase hstep
  | @stopped i store budget r out m hr hphase hm hidle =>
      refine h.turn ⟨hr, rfl, rfl⟩ (by rw [hphase]; rfl) rfl fun _ j m' hj hm' => ?_
      cases hj
      cases hm.symm.trans hm'
      exact hidle
  | storeDropped hr hphase hstep => exact h.dropped hr hphase hstep

end StoreSteps

/-! ## The private directories -/

/-- The run has a private `/tmp` that it has not tried to remove. -/
def HoldsTmp (s : EngineState κ) (i : Nat) : Prop :=
  ∃ r, s.runs i = some r ∧ r.request.privateTmp = true ∧ r.phase.holdsTmp = true

/-- The directories on disk are those of the runs that have one, and what could not be removed. -/
structure Tmps (s : EngineState κ) : Prop where
  held : ∀ i, i ∈ s.tmps ↔ HoldsTmp s i ∨ i ∈ s.leftovers
  left : ∀ i, i ∈ s.leftovers →
    ∃ r, s.runs i = some r ∧ r.request.privateTmp = true ∧ r.phase.past = true

section TmpSteps

variable {config : EngineConfig} {s s' : EngineState κ} {i : Nat} {r : EngineRun κ} {p : RunPhase}

omit [DecidableEq κ] in
theorem Tmps.start : Tmps (.start κ config) where
  held i := by simp [EngineState.start, HoldsTmp]
  left i hi := by cases hi

omit [DecidableEq κ] in
theorem Turns.holdsTmp_other (h : Turns s s' i r p) {k : Nat} (hk : k ≠ i) :
    HoldsTmp s' k ↔ HoldsTmp s k := by
  unfold HoldsTmp
  rw [h.other hk]

omit [DecidableEq κ] in
theorem Turns.holdsTmp_self (h : Turns s s' i r p) :
    HoldsTmp s' i ↔ r.request.privateTmp = true ∧ p.holdsTmp = true := by
  unfold HoldsTmp
  simp [h.now]

omit [DecidableEq κ] in
theorem holdsTmp_iff (hr : s.runs i = some r) :
    HoldsTmp s i ↔ r.request.privateTmp = true ∧ r.phase.holdsTmp = true := by
  unfold HoldsTmp
  simp [hr]

omit [DecidableEq κ] in
/-- What is past stays past. -/
theorem Tmps.left_turn (h : Tmps s) (hturn : Turns s s' i r p)
    (hpast : r.phase.past = true → p.past = true) {k : Nat} (hk : k ∈ s.leftovers) :
    ∃ x, s'.runs k = some x ∧ x.request.privateTmp = true ∧ x.phase.past = true := by
  rcases h.left k hk with ⟨x, hx, hwant, hxpast⟩
  by_cases hki : k = i
  · subst hki
    cases hx.symm.trans hturn.was
    exact ⟨_, hturn.now, hwant, hpast hxpast⟩
  · exact ⟨x, (hturn.other hki).trans hx, hwant, hxpast⟩

omit [DecidableEq κ] in
theorem Tmps.turn (h : Tmps s) (hturn : Turns s s' i r p) (htmp : p.holdsTmp = r.phase.holdsTmp)
    (hpast : r.phase.past = true → p.past = true) (htmps : s'.tmps = s.tmps)
    (hleft : s'.leftovers = s.leftovers) : Tmps s' where
  held k := by
    have hsame : HoldsTmp s' k ↔ HoldsTmp s k := by
      by_cases hk : k = i
      · subst hk
        rw [hturn.holdsTmp_self, holdsTmp_iff hturn.was, htmp]
      · exact hturn.holdsTmp_other hk
    rw [htmps, hleft, hsame]
    exact h.held k
  left k hk := h.left_turn hturn hpast (hleft ▸ hk)

omit [DecidableEq κ] in
theorem Tmps.arrive (h : Tmps s) (htmp : r.phase.holdsTmp = false)
    (hfresh : s.runs s.arrived = none) (sched : Option (SchedulerSystem κ)) :
    Tmps { s.arrive r with scheduler := sched } where
  held k := by
    have hsame : HoldsTmp { s.arrive r with scheduler := sched } k ↔ HoldsTmp s k := by
      by_cases hk : k = s.arrived
      · subst hk
        have hself : (s.arrive r).runs s.arrived = some r := Function.update_self _ _ _
        simp [HoldsTmp, hfresh, hself, htmp]
      · have hother : (s.arrive r).runs k = s.runs k := Function.update_of_ne hk _ _
        simp [HoldsTmp, hother]
    rw [hsame]
    exact h.held k
  left k hk := by
    rcases h.left k hk with ⟨x, hx, hrest⟩
    have hne : k ≠ s.arrived := by
      rintro rfl
      cases hfresh.symm.trans hx
    exact ⟨x, (Function.update_of_ne hne _ _).trans hx, hrest⟩

omit [DecidableEq κ] in
theorem Tmps.sandboxed (h : Tmps s) {tmps : Finset Nat} (hr : s.runs i = some r)
    (hphase : r.phase = .slotted) (htmps : TmpMade s i r tmps) :
    Tmps { s.setPhase i r .sandboxed with tmps := tmps } := by
  have hturn : Turns s { s.setPhase i r .sandboxed with tmps := tmps } i r .sandboxed :=
    ⟨hr, rfl, rfl⟩
  refine ⟨fun k => ?_, fun k hk => h.left_turn hturn (fun hpast => ?_) hk⟩
  · by_cases hk : k = i
    · subst hk
      rw [hturn.holdsTmp_self]
      cases htmps with
      | none hwant =>
          have hheld := h.held k
          rw [holdsTmp_iff hr, hwant] at hheld
          simpa [hwant, EngineState.setPhase] using hheld
      | made hwant => simp [hwant, RunPhase.holdsTmp]
    · rw [hturn.holdsTmp_other hk]
      cases htmps with
      | none hwant => exact h.held k
      | made hwant =>
          rw [Finset.mem_insert, or_iff_right hk]
          exact h.held k
  · rw [hphase] at hpast
    cases hpast

omit [DecidableEq κ] in
theorem Tmps.dropped (h : Tmps s) {result : Except Text Bytes} {tmps leftovers : Finset Nat}
    (hr : s.runs i = some r) (hphase : r.phase = .ended result)
    (htmps : TmpGone s i r tmps leftovers) :
    Tmps { s.setPhase i r (.executed result) with
      tmps := tmps
      leftovers := leftovers } := by
  have hturn : Turns s { s.setPhase i r (.executed result) with
      tmps := tmps
      leftovers := leftovers } i r (.executed result) := ⟨hr, rfl, rfl⟩
  have hnot : ¬ HoldsTmp { s.setPhase i r (.executed result) with
      tmps := tmps
      leftovers := leftovers } i := by
    rw [hturn.holdsTmp_self]
    exact fun hheld => by cases hheld.2
  have hnew : i ∉ s.leftovers := by
    intro hi
    rcases h.left i hi with ⟨x, hx, -, hpast⟩
    cases hx.symm.trans hr
    rw [hphase] at hpast
    cases hpast
  refine ⟨fun k => ?_, fun k hk => ?_⟩
  · by_cases hk : k = i
    · subst hk
      rw [or_iff_right hnot]
      cases htmps with
      | none hwant =>
          have hheld := h.held k
          rw [holdsTmp_iff hr, hwant] at hheld
          simpa using hheld
      | removed hwant => simp [hnew]
      | left hwant =>
          have hheld := (h.held k).2 (Or.inl ((holdsTmp_iff hr).2 ⟨hwant, by rw [hphase]; rfl⟩))
          simp [hheld]
    · rw [hturn.holdsTmp_other hk]
      cases htmps with
      | none hwant => exact h.held k
      | removed hwant =>
          rw [Finset.mem_erase, and_iff_right hk]
          exact h.held k
      | left hwant =>
          rw [Finset.mem_insert, or_iff_right hk]
          exact h.held k
  · have hold : k ∈ s.leftovers → ∃ x, (s.setPhase i r (.executed result)).runs k = some x ∧
        x.request.privateTmp = true ∧ x.phase.past = true :=
      fun hk => h.left_turn hturn (fun _ => rfl) hk
    cases htmps with
    | none hwant => exact hold hk
    | removed hwant => exact hold hk
    | left hwant =>
        rcases Finset.mem_insert.1 hk with rfl | hk
        · exact ⟨_, hturn.now, hwant, rfl⟩
        · exact hold hk

omit [DecidableEq κ] in
theorem SlotTurn.tmpless {a : SchedulerAction κ} (h : SlotTurn s i r a p) :
    p.holdsTmp = r.phase.holdsTmp ∧ (r.phase.past = true → p.past = true) := by
  cases h with
  | receive hphase | expire hphase hlate | reconcile hphase =>
      rw [hphase]
      exact ⟨rfl, fun hpast => by cases hpast⟩
  | drop hphase =>
      rw [hphase]
      exact ⟨rfl, fun _ => rfl⟩

theorem Tmps.step {a : EngineAction κ} (h : Tmps s)
    (hstarted : ∀ i r, s.runs i = some r → i < s.arrived) (hmove : EngineMove config s a s') :
    Tmps s' := by
  have hfresh : s.runs s.arrived = none := by
    cases hx : s.runs s.arrived with
    | none => rfl
    | some x => exact absurd (hstarted _ x hx) (Nat.lt_irrefl _)
  cases hmove with
  | elapse d => exact ⟨h.held, h.left⟩
  | ticked hactive => exact ⟨h.held, h.left⟩
  | idle => exact h
  | called hsched => exact h.arrive rfl hfresh s.scheduler
  | granted hsched hfree => exact h.arrive rfl hfresh _
  | queued hsched hfull => exact h.arrive rfl hfresh _
  | scheduled hr hsched hturn hstep =>
      rcases hturn.tmpless with ⟨htmp, hpast⟩
      exact h.turn ⟨hr, rfl, rfl⟩ htmp hpast rfl rfl
  | sandboxed hr hphase htmps => exact h.sandboxed hr hphase htmps
  | guest hr hphase hstep => exact ⟨h.held, h.left⟩
  | tmpDropped hr hphase htmps => exact h.dropped hr hphase htmps
  | unslotted hr hsched hphase | observed hr hphase =>
      exact h.turn ⟨hr, rfl, rfl⟩ (by rw [hphase]; rfl) (fun _ => rfl) rfl rfl
  | unsandboxed hr hphase | launched hr hphase | unlaunched hr hphase
  | stopped hr hphase hm hidle | storeDropped hr hphase hstep | runningDropped hr hphase =>
      refine h.turn ⟨hr, rfl, rfl⟩ (by rw [hphase]; rfl) (fun hpast => ?_) rfl rfl
      rw [hphase] at hpast
      cases hpast

end TmpSteps

end Holdings

end Engine
end FunctionWasm

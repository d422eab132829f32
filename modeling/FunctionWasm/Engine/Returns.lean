import FunctionWasm.Engine.Accounts

/-!
# Returns — the runs of an engine come back

* `ownStep` are the moves of one run and the time that passes; `Returns` says that they are enough
  for its call to return in time.
* `run_returns_alone`: they are, from every state, and whatever the others hold.
* `lone_run_reserves` says what the check of the pool's size at start is for.
-/

namespace FunctionWasm
namespace Engine

/-! ## The moves of one run -/

/-- The moves of one run, and time that passes. -/
def EngineAction.own {κ : Type} (i : Nat) : EngineAction κ → Bool
  | .elapse _ => true
  | .tick | .call _ _ => false
  | .receive j | .expire j | .reconcile j | .createTmp j _ | .configure j _ | .guest j _
  | .stop j _ | .dropStore j | .dropRunning j | .dropTmp j _ | .observe j | .dropSlot j => j = i

section Returns

variable {κ : Type} [DecidableEq κ] {config : EngineConfig} {s s' : EngineState κ} {i : Nat}
  {r : EngineRun κ}

/-- Nobody else moves. -/
def ownStep (config : EngineConfig) (i : Nat) (s : EngineState κ) (a : EngineAction κ) :
    Option (EngineState κ) :=
  if a.own i then engineStep config s a else none

/-- The call of the run returns, and no later than `d`. -/
def Returns (config : EngineConfig) (i d : Nat) (s : EngineState κ) : Prop :=
  ∃ s' r', TransitionSystem.Leads (ownStep config i) s s' ∧ s'.runs i = some r' ∧
    r'.phase.finished = true ∧ s'.now ≤ d

variable {d : Nat}

theorem Returns.head {a : EngineAction κ} (hstep : engineStep config s a = some s')
    (hown : a.own i = true) (h : Returns config i d s') : Returns config i d s := by
  rcases h with ⟨s1, r1, hleads, hr, hphase, hnow⟩
  have hfirst : ownStep config i s a = some s' := (if_pos hown).trans hstep
  exact ⟨s1, r1, .head hfirst hleads, hr, hphase, hnow⟩

/-- A move of the run to its next phase. -/
theorem Returns.turn {a : EngineAction κ} {p : RunPhase} (hs : (engineSystem κ config).Reachable s)
    (hstep : engineStep config s a = some s') (hown : a.own i = true)
    (hturn : s'.runs i = some { r with phase := p }) (hnow : s'.now = s.now) (hd : s.now ≤ d)
    (hnext : ∀ {t : EngineState κ} {x : EngineRun κ}, (engineSystem κ config).Reachable t →
      t.runs i = some x → x.phase = p → t.now ≤ d → Returns config i d t) :
    Returns config i d s :=
  .head hstep hown (hnext (.step a hs hstep) hturn rfl (hnow.trans_le hd))

omit [DecidableEq κ] in
theorem runs_setPhase (s : EngineState κ) (i : Nat) (r : EngineRun κ) (p : RunPhase) :
    (s.setPhase i r p).runs i = some { r with phase := p } :=
  Function.update_self _ _ _

/-- Time passes until the run has waited long enough. -/
theorem later_returns (hd : max s.now r.waitDeadline ≤ d)
    (hnext : ∀ k, r.waitDeadline ≤ s.now + k → s.now + k ≤ d →
      Returns config i d { s with now := s.now + k }) : Returns config i d s := by
  have hlate : r.waitDeadline ≤ s.now + (r.waitDeadline - s.now) := by omega
  have hsoon : s.now + (r.waitDeadline - s.now) ≤ d := by omega
  exact .head (a := .elapse (r.waitDeadline - s.now)) rfl rfl (hnext _ hlate hsoon)

theorem finished_returns (hr : s.runs i = some r) (hphase : r.phase.finished = true)
    (hd : s.now ≤ d) : Returns config i d s :=
  ⟨s, r, .refl s, hr, hphase, hd⟩

/-! ## From its end back to its beginning -/

theorem observed_returns {result : Except Text Bytes} (hs : (engineSystem κ config).Reachable s)
    (hr : s.runs i = some r) (hphase : r.phase = .observed result) (hd : s.now ≤ d) :
    Returns config i d s := by
  have hslots := (engineInv_reachable hs).slots
  cases hsched : s.scheduler with
  | none =>
      have hstep : engineStep config s (.dropSlot i) =
          some (s.setPhase i r (.returned result)) := by
        simp [engineStep, hr, hphase, hsched]
      refine .head hstep (decide_eq_true rfl) ?_
      exact finished_returns (runs_setPhase s i r _) rfl hd
  | some sched =>
      -- the slot of this very run is still held
      have hguards : 0 < sched.guards := by
        rw [(hslots.guards sched hsched).2]
        refine lt_of_lt_of_le ?_ (weight_le_tally (w := ofPhase _) (hslots.started i r hr) hr)
        rw [ofPhase, hphase]
        exact Nat.one_pos
      have hstep : engineStep config s (.dropSlot i) =
          some { s.setPhase i r (.returned result) with
            scheduler := some sched.dropGuard.wake } := by
        simp [engineStep, hr, hphase, hsched, EngineState.schedule, schedulerStep, hguards]
      refine .head hstep (decide_eq_true rfl) ?_
      exact finished_returns (runs_setPhase s i r _) rfl hd

theorem executed_returns {result : Except Text Bytes} (hs : (engineSystem κ config).Reachable s)
    (hr : s.runs i = some r) (hphase : r.phase = .executed result) (hd : s.now ≤ d) :
    Returns config i d s := by
  have hstep : engineStep config s (.observe i) =
      some { s.setPhase i r (.observed result) with
        runDuration := Function.update s.runDuration (runOutcome result)
          (s.runDuration (runOutcome result) + 1) } := by
    simp [engineStep, hr, hphase]
  exact .turn hs hstep (decide_eq_true rfl) (runs_setPhase s i r _) rfl hd observed_returns

theorem ended_returns {result : Except Text Bytes} (hs : (engineSystem κ config).Reachable s)
    (hr : s.runs i = some r) (hphase : r.phase = .ended result) (hd : s.now ≤ d) :
    Returns config i d s := by
  have hstep : engineStep config s (.dropTmp i true) = some (s.removeTmp i r true result) := by
    simp [engineStep, hr, hphase]
  rcases removeTmp_gone s i r true result with ⟨tmps, leftovers, -, heq⟩
  rw [heq] at hstep
  exact .turn hs hstep (decide_eq_true rfl) (runs_setPhase s i r _) rfl hd executed_returns

theorem released_returns {result : Except Text Bytes} (hs : (engineSystem κ config).Reachable s)
    (hr : s.runs i = some r) (hphase : r.phase = .released result) (hd : s.now ≤ d) :
    Returns config i d s := by
  have hstep : engineStep config s (.dropRunning i) =
      some { s.setPhase i r (.ended result) with
        active := s.active - 1
        inFlight := s.inFlight - 1 } := by
    simp [engineStep, hr, hphase]
  exact .turn hs hstep (decide_eq_true rfl) (runs_setPhase s i r _) rfl hd ended_returns

theorem stopped_returns {store : Nat} {result : Except Text Bytes}
    (hs : (engineSystem κ config).Reachable s) (hr : s.runs i = some r)
    (hphase : r.phase = .stopped store result) (hd : s.now ≤ d) : Returns config i d s := by
  have hstore : r.phase.store = some store := by rw [hphase]; rfl
  have hdriving : r.phase.driving = false := by rw [hphase]; rfl
  rcases (engineInv_reachable hs).stores.held i r store hr hstore with ⟨m, hm, -, hidle⟩
  have hfinish : Memory.governanceStep s.memory (.finish store) =
      some { s.memory.setRun store none with
        pool := s.memory.pool.map fun pool => pool.release m.held } := by
    simp [Memory.governanceStep, hm, hidle hdriving]
  have hstep : engineStep config s (.dropStore i) =
      some { s.setPhase i r (.released result) with
        memory := { s.memory.setRun store none with
          pool := s.memory.pool.map fun pool => pool.release m.held } } := by
    simp [engineStep, hr, hphase, hfinish]
  exact .turn hs hstep (decide_eq_true rfl) (runs_setPhase s i r _) rfl hd released_returns

/-! ## While the guest is driven -/

/-- A guest whose memory is not about to grow can stop. -/
theorem idle_returns {store budget : Nat} {m : Memory.Run}
    (hs : (engineSystem κ config).Reachable s) (hr : s.runs i = some r)
    (hphase : r.phase = .running store budget) (hm : s.memory.runs store = some m)
    (hidle : m.growth = .idle) (hd : s.now ≤ d) : Returns config i d s := by
  have hstep : engineStep config s (.stop i (.response [])) =
      some { s.setPhase i r (.stopped store (.ok [])) with
        hostcallDuration := s.hostcallDuration + 1 } := by
    simp [engineStep, hr, hphase, hm, hidle, GuestEnd.result]
  exact .turn hs hstep (decide_eq_true rfl) (runs_setPhase s i r _) rfl hd stopped_returns

theorem admitted_returns {store budget : Nat} {m : Memory.Run} {g : Memory.Request}
    (hs : (engineSystem κ config).Reachable s) (hr : s.runs i = some r)
    (hphase : r.phase = .running store budget) (hm : s.memory.runs store = some m)
    (hadmitted : m.growth = .admitted g) (hd : s.now ≤ d) : Returns config i d s := by
  have hmemory : Memory.governanceStep s.memory (.refused store) =
      some (s.memory.setRun store (some (m.growFailed g))) := by
    simp [Memory.governanceStep, hm, hadmitted]
  have hstep : engineStep config s (.guest i .refused) =
      some { s with memory := s.memory.setRun store (some (m.growFailed g)) } := by
    simp [engineStep, hr, hphase, GuestMove.expires, GuestMove.action, hmemory]
  refine .head hstep (decide_eq_true rfl) ?_
  exact idle_returns (.step _ hs hstep) hr hphase (Function.update_self _ _ _) rfl hd

/-- Only where there is a pool does a growth wait for it. -/
theorem waits_on_pool {store need : Nat} {m : Memory.Run} {g : Memory.Request}
    (hs : (engineSystem κ config).Reachable s) (hm : s.memory.runs store = some m)
    (hwaits : m.growth = .reserving g need) :
    ∃ n pool, m.limiter.hold = some n ∧ m.limiter.charged = n + need ∧
      s.memory.pool = some pool ∧ config.poolSize = some pool.total := by
  have hmemory := (engine_governs κ config).reachable hs
  have hpooled := pooled_reachable hmemory
  rcases ((Memory.invariant_of_reachable hmemory).runs store m hm).waits g need hwaits with
    ⟨-, -, n, hhold, hcharged⟩
  have hpool := hpooled.holds store m hm
  rw [hhold] at hpool
  rcases Option.isSome_iff_exists.1 hpool.symm with ⟨pool, hpool⟩
  have hsize := hpooled.size
  rw [hpool] at hsize
  exact ⟨n, pool, hhold, hcharged, hpool, hsize.symm⟩

/-- A guest that waits for the pool either finds the bytes or gives up at its deadline. -/
theorem reserving_returns {store budget : Nat} {m : Memory.Run} {g : Memory.Request} {need : Nat}
    (hs : (engineSystem κ config).Reachable s) (hr : s.runs i = some r)
    (hphase : r.phase = .running store budget) (hm : s.memory.runs store = some m)
    (hwaits : m.growth = .reserving g need) (hlate : r.waitDeadline ≤ s.now) (hd : s.now ≤ d) :
    Returns config i d s := by
  rcases waits_on_pool hs hm hwaits with ⟨-, pool, -, -, hpool, -⟩
  cases hreserve : pool.reserve need with
  | some pool' =>
      have hmove : Memory.governanceStep s.memory (.reserve store) =
          some { s.memory.setRun store (some
            { m with limiter := m.limiter.reserved need, growth := .admitted g }) with
              pool := some pool' } := by
        simp [Memory.governanceStep, hm, hpool, hwaits, hreserve]
      have hstep : engineStep config s (.guest i .reserve) = some { s with
          memory := { s.memory.setRun store (some
            { m with limiter := m.limiter.reserved need, growth := .admitted g }) with
              pool := some pool' } } := by
        simp [engineStep, hr, hphase, GuestMove.expires, GuestMove.action, hmove]
      refine .head hstep (decide_eq_true rfl) ?_
      exact admitted_returns (.step _ hs hstep) hr hphase (Function.update_self _ _ _) rfl hd
  | none =>
      have hmove : Memory.governanceStep s.memory (.expire store) =
          some (s.memory.setRun store (some
            { m with limiter := m.limiter.uncharge g.delta, growth := .idle })) := by
        simp [Memory.governanceStep, hm, hpool, hwaits, hreserve]
      have hstep : engineStep config s (.guest i .expire) = some { s with
          memory := s.memory.setRun store (some
            { m with limiter := m.limiter.uncharge g.delta, growth := .idle }) } := by
        simp [engineStep, hr, hphase, GuestMove.action, hmove, Nat.not_lt.2 hlate]
      refine .head hstep (decide_eq_true rfl) ?_
      exact idle_returns (.step _ hs hstep) hr hphase (Function.update_self _ _ _) rfl hd

theorem running_returns {store budget : Nat} (hs : (engineSystem κ config).Reachable s)
    (hr : s.runs i = some r) (hphase : r.phase = .running store budget)
    (hd : max s.now r.waitDeadline ≤ d) : Returns config i d s := by
  have hnow : s.now ≤ d := (le_max_left _ _).trans hd
  have hstore : r.phase.store = some store := by rw [hphase]; rfl
  rcases (engineInv_reachable hs).stores.held i r store hr hstore with ⟨m, hm, -, -⟩
  cases hgrowth : m.growth with
  | idle => exact idle_returns hs hr hphase hm hgrowth hnow
  | admitted g => exact admitted_returns hs hr hphase hm hgrowth hnow
  | reserving g need =>
      refine later_returns hd fun k hlate hsoon => ?_
      exact reserving_returns (.step (.elapse k) hs rfl) hr hphase hm hgrowth hlate hsoon

/-! ## Before it -/

theorem sandboxed_returns (hs : (engineSystem κ config).Reachable s) (hr : s.runs i = some r)
    (hphase : r.phase = .sandboxed) (hd : s.now ≤ d) : Returns config i d s := by
  have hstep : engineStep config s (.configure i (.ok ())) = some (s.launch i r) := by
    simp [engineStep, hr, hphase]
  refine .head hstep (decide_eq_true rfl) ?_
  exact idle_returns (.step _ hs hstep) (runs_setPhase s i r _) rfl (Function.update_self _ _ _)
    rfl hd

theorem slotted_returns (hs : (engineSystem κ config).Reachable s) (hr : s.runs i = some r)
    (hphase : r.phase = .slotted) (hd : s.now ≤ d) : Returns config i d s := by
  cases hwant : r.request.privateTmp with
  | false =>
      have hstep : engineStep config s (.createTmp i (.ok ())) =
          some (s.setPhase i r .sandboxed) := by
        simp [engineStep, hr, hphase, hwant]
      exact .turn hs hstep (decide_eq_true rfl) (runs_setPhase s i r _) rfl hd sandboxed_returns
  | true =>
      have hstep : engineStep config s (.createTmp i (.ok ())) =
          some { s.setPhase i r .sandboxed with tmps := insert i s.tmps } := by
        simp [engineStep, hr, hphase, hwant]
      exact .turn hs hstep (decide_eq_true rfl) (runs_setPhase s i r _) rfl hd sandboxed_returns

/-- A call that gave up takes itself off the scheduler. -/
theorem expired_returns {sched : SchedulerSystem κ} {c : Call κ} (hr : s.runs i = some r)
    (hphase : r.phase = .acquiring) (hsched : s.scheduler = some sched)
    (hc : sched.calls i = some c) (hexpired : c.phase = .expired) (hd : s.now ≤ d) :
    Returns config i d s := by
  have hmove : ∃ sched', schedulerStep config.maxConcurrentRuns sched (.reconcile i) =
      some sched' := by
    by_cases hmail : i ∈ sched.mailbox
    · exact ⟨(sched.handOn i c).wake, by simp [schedulerStep, hc, hexpired, hmail]⟩
    · exact ⟨sched.leave i c, by simp [schedulerStep, hc, hexpired, hmail]⟩
  rcases hmove with ⟨sched', hmove⟩
  have hstep : engineStep config s (.reconcile i) =
      some { s.setPhase i r (.refused deadlineExceeded) with scheduler := some sched' } := by
    simp [engineStep, hr, hphase, EngineState.schedule, hsched, hmove]
  refine .head hstep (decide_eq_true rfl) ?_
  exact finished_returns (runs_setPhase s i r _) rfl hd

theorem waiting_returns {sched : SchedulerSystem κ} {c : Call κ} (hr : s.runs i = some r)
    (hphase : r.phase = .acquiring) (hsched : s.scheduler = some sched)
    (hc : sched.calls i = some c) (hwaiting : c.phase = .waiting) (hlate : r.waitDeadline ≤ s.now)
    (hd : s.now ≤ d) : Returns config i d s := by
  have hmove : schedulerStep config.maxConcurrentRuns sched (.expire i) =
      some (sched.expire i c) := by
    simp [schedulerStep, hc, hwaiting]
  have hstep : engineStep config s (.expire i) =
      some { s.setPhase i r .acquiring with scheduler := some (sched.expire i c) } := by
    simp [engineStep, hr, hphase, hlate, EngineState.schedule, hsched, hmove]
  rcases expire_spec hmove with ⟨-, -, -, c', -, -, hexpired⟩
  refine .head hstep (decide_eq_true rfl) ?_
  exact expired_returns (runs_setPhase s i r _) rfl rfl hexpired rfl hd

theorem acquiring_returns (hs : (engineSystem κ config).Reachable s) (hr : s.runs i = some r)
    (hphase : r.phase = .acquiring) (hd : max s.now r.waitDeadline ≤ d) :
    Returns config i d s := by
  rcases (engineInv_reachable hs).slots.waits i r hr hphase with
    ⟨sched, c, hsched, hc, hwaiting | ⟨hexpired, -⟩⟩
  · refine later_returns hd fun k hlate hsoon => ?_
    exact waiting_returns hr hphase hsched hc hwaiting hlate hsoon
  · exact expired_returns hr hphase hsched hc hexpired ((le_max_left _ _).trans hd)

/-- Whatever the other runs hold and wherever they stopped, a run returns by its own moves and the
time that passes, and what it shares with them keeps it no longer than its wait deadline. -/
theorem run_returns_alone (config : EngineConfig) {s : EngineState κ}
    (hs : (engineSystem κ config).Reachable s) {i : Nat} {r : EngineRun κ}
    (hr : s.runs i = some r) : Returns config i (max s.now r.waitDeadline) s := by
  have hnow : s.now ≤ max s.now r.waitDeadline := le_max_left _ _
  cases hphase : r.phase with
  | acquiring => exact acquiring_returns hs hr hphase le_rfl
  | refused reason => exact finished_returns hr (by rw [hphase]; rfl) hnow
  | slotted => exact slotted_returns hs hr hphase hnow
  | sandboxed => exact sandboxed_returns hs hr hphase hnow
  | running store budget => exact running_returns hs hr hphase le_rfl
  | stopped store result => exact stopped_returns hs hr hphase hnow
  | released result => exact released_returns hs hr hphase hnow
  | ended result => exact ended_returns hs hr hphase hnow
  | executed result => exact executed_returns hs hr hphase hnow
  | observed result => exact observed_returns hs hr hphase hnow
  | returned result => exact finished_returns hr (by rw [hphase]; rfl) hnow

/-! ## A run alone -/

/-- What a run may have fits in the pool, so one that shares it with no other never waits. -/
theorem lone_run_reserves (config : EngineConfig) {s : EngineState κ}
    (hs : (engineSystem κ config).Reachable s) {i store budget need : Nat} {r : EngineRun κ}
    {m : Memory.Run} {g : Memory.Request} (hr : s.runs i = some r)
    (hphase : r.phase = .running store budget) (hm : s.memory.runs store = some m)
    (hwaits : m.growth = .reserving g need)
    (halone : ∀ k x, s.runs k = some x → x.phase.store.isSome = true → k = i) :
    ∃ s', engineStep config s (.guest i .reserve) = some s' := by
  have hinv := engineInv_reachable hs
  have hmemory := Memory.invariant_of_reachable ((engine_governs κ config).reachable hs)
  have hstore : r.phase.store = some store := by rw [hphase]; rfl
  rcases waits_on_pool hs hm hwaits with ⟨n, pool, hhold, hcharged, hpool, hsize⟩
  rcases poolSize_eq_some hsize with ⟨hpos, htotal⟩
  have hheld : ∀ j, j ≠ store → s.memory.held j = 0 := by
    intro j hj
    cases hother : s.memory.runs j with
    | none => simp [Memory.Governance.held, hother]
    | some m' =>
        rcases hinv.stores.owned j m' hother with ⟨k, x, hx, hxstore⟩
        have hk : k = i := halone k x hx (by rw [hxstore]; rfl)
        subst hk
        rw [hr] at hx
        cases hx
        rw [hstore] at hxstore
        exact absurd (Option.some.inj hxstore).symm hj
  have hused : pool.used = n := by
    rw [hmemory.pool.used_eq pool hpool, Finset.sum_eq_single store (fun j _ hj => hheld j hj)]
    · rw [Memory.held_of_run hm, Memory.Run.held, hhold, Option.getD_some]
    · intro hnot
      exact absurd (Finset.mem_range.2 (hmemory.pool.started hm)) hnot
  have hfits : pool.used + need ≤ pool.total := by
    rcases hinv.stores.held i r store hr hstore with ⟨m', hm', hlimit, -⟩
    rw [hm] at hm'
    cases hm'
    calc pool.used + need
        = m.limiter.charged := by rw [hused, hcharged]
      _ ≤ m.limiter.limit := (hmemory.runs store m hm).charged_le
      _ = r.limits.memoryLimit := hlimit
      _ ≤ config.memoryLimit := by
        rw [hinv.slots.limits i r hr]
        exact narrowed_le _ _
      _ ≤ config.maxTotalRunMemory := enough_reachable hs hpos
      _ = pool.total := htotal.symm
  have hreserve : pool.reserve need = some { pool with used := pool.used + need } := if_pos hfits
  simp [engineStep, hr, hphase, GuestMove.expires, GuestMove.action, Memory.governanceStep, hm,
    hpool, hwaits, hreserve]

end Returns

/-! ## Two runs and one slot -/

/-- The first run has the slot and makes no move. -/
theorem exists_queued :
    ∃ s, (engineSystem Text smallEngine).Reachable s ∧ s.now = 0 ∧
      (s.runs 1).map (fun r => (r.phase.holdsSlot, r.waitDeadline)) =
        some (false, 30000000000) := by
  have hcheck : (([.call smallRequest 0, .call smallRequest 1] :
      List (EngineAction Text)).foldlM (engineStep smallEngine) (.start Text smallEngine)).map
        (fun s => (s.now, (s.runs 1).map fun r => (r.phase.holdsSlot, r.waitDeadline))) =
          some (0, some (false, 30000000000)) := by
    decide +kernel
  rcases Option.map_eq_some_iff.1 hcheck with ⟨s, hrun, hs⟩
  simp only [Prod.mk.injEq] at hs
  exact ⟨s, .run (fun _ _ _ hstep => hstep) (.init rfl) hrun, hs⟩

/-- The second returns all the same. -/
theorem queued_run_returns :
    ∃ s : EngineState Text, (s.runs 1).map (·.phase.holdsSlot) = some false ∧
      Returns smallEngine 1 30000000000 s := by
  rcases exists_queued with ⟨s, hs, hnow, hqueued⟩
  rcases Option.map_eq_some_iff.1 hqueued with ⟨r, hr, hwaits⟩
  simp only [Prod.mk.injEq] at hwaits
  have hdeadline : max s.now r.waitDeadline = 30000000000 := by rw [hnow, hwaits.2, Nat.zero_max]
  refine ⟨s, by rw [hr, Option.map_some, hwaits.1], ?_⟩
  rw [← hdeadline]
  exact run_returns_alone smallEngine hs hr

/-! ## The first memory of a guest -/

/-- The guest has asked for it, and the pool has not answered yet. -/
theorem exists_growing :
    ∃ s, (engineSystem Text smallEngine).Reachable s ∧ s.arrived = 1 ∧
      (s.runs 0).map (fun r => (r.phase.driving, r.phase.store)) = some (true, some 0) ∧
      (s.memory.runs 0).map (·.growth) = some (.reserving ⟨0, 65536, 65536⟩ 65536) := by
  have hcheck : ((smallRun.take 5).foldlM (engineStep smallEngine) (.start Text smallEngine)).map
      (fun s => (s.arrived, (s.runs 0).map (fun r => (r.phase.driving, r.phase.store)),
        (s.memory.runs 0).map (·.growth))) =
          some (1, some (true, some 0), some (.reserving ⟨0, 65536, 65536⟩ 65536)) := by
    decide +kernel
  rcases Option.map_eq_some_iff.1 hcheck with ⟨s, hrun, hs⟩
  simp only [Prod.mk.injEq] at hs
  exact ⟨s, .run (fun _ _ _ hstep => hstep) (.init rfl) hrun, hs⟩

theorem driving_running {p : RunPhase} {store : Nat} (hdriving : p.driving = true)
    (hstore : p.store = some store) : ∃ budget, p = .running store budget := by
  cases p with
  | running store' budget =>
      cases hstore
      exact ⟨budget, rfl⟩
  | _ => cases hdriving

/-- It is there at once: the whole pool, and no other run. -/
theorem first_growth_reserves :
    ∃ s s' : EngineState Text,
      (s.memory.runs 0).map (·.growth) = some (.reserving ⟨0, 65536, 65536⟩ 65536) ∧
        engineStep smallEngine s (.guest 0 .reserve) = some s' := by
  rcases exists_growing with ⟨s, hs, harrived, hrun, hgrowth⟩
  rcases Option.map_eq_some_iff.1 hrun with ⟨r, hr, hdriven⟩
  rcases Option.map_eq_some_iff.1 hgrowth with ⟨m, hm, hwaits⟩
  simp only [Prod.mk.injEq] at hdriven
  rcases driving_running hdriven.1 hdriven.2 with ⟨budget, hphase⟩
  have halone : ∀ k x, s.runs k = some x → x.phase.store.isSome = true → k = 0 := by
    intro k x hx _
    exact Nat.lt_one_iff.1 (harrived ▸ (engineInv_reachable hs).slots.started k x hx)
  rcases lone_run_reserves smallEngine hs hr hphase hm hwaits halone with ⟨s', hstep⟩
  exact ⟨s, s', hgrowth, hstep⟩

end Engine
end FunctionWasm

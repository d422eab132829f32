import FunctionWasm.Engine.Holdings

/-!
# Accounts — what is in use of an engine, in every state

* `Pooled` and `tally_bytes_le`: what the guests have together is no more than the pool.
* `engine_schedules` and `engine_governs`: the scheduler and the memory of the runs move as they do
  on their own.
* `EngineInv` is all that runs hold, `engineInv_reachable` says that it is so in every state.
* `runs_accounted` is what holds in every state, under any interleaving and however runs end.
-/

namespace FunctionWasm
namespace Engine

section Accounts

variable {κ : Type} [DecidableEq κ]

/-! ## The memory of the stores -/

/-- The pool keeps its size, and every run has a hold on it where there is one. -/
structure Pooled (total : Option Nat) (m : Memory.Governance) : Prop where
  size : m.pool.map Memory.MemPool.total = total
  holds : ∀ j x, m.runs j = some x → x.limiter.hold.isSome = m.pool.isSome

theorem pooled_reachable {size : Option Nat} {m : Memory.Governance}
    (h : (Memory.governance size).Reachable m) : Pooled size m := by
  refine h.invariant ?_ ?_
  · rintro m rfl
    refine ⟨?_, fun _ _ h => by cases h⟩
    cases size with
    | none => rfl
    | some total => rfl
  · intro m a m' _ hpooled hstep
    cases Memory.moves_of_step hstep with
    | start limit =>
        refine ⟨hpooled.size, fun j x hx => ?_⟩
        rcases Memory.runs_setRun hx with ⟨-, hnew⟩ | ⟨-, hold⟩
        · cases hnew
          exact Option.isSome_map
        · exact hpooled.holds j x hold
    | @run i _ x x' hx hrun hmove =>
        refine ⟨hpooled.size, fun j y hy => ?_⟩
        rcases Memory.runs_setRun hy with ⟨-, hnew⟩ | ⟨-, hold⟩
        · cases hnew
          rw [hmove.hold_eq]
          exact hpooled.holds i x hx
        · exact hpooled.holds j y hold
    | @reserve i need x g pool pool' hx hpool hgrowth hreserve =>
        rcases Memory.reserve_eq_some hreserve with ⟨-, rfl⟩
        refine ⟨?_, fun j y hy => ?_⟩
        · rw [← hpooled.size, hpool]
          rfl
        · have hsome : m.pool.isSome = true := by rw [hpool]; rfl
          rcases Memory.runs_setRun hy with ⟨-, hnew⟩ | ⟨-, hold⟩
          · cases hnew
            have hhold := hpooled.holds i x hx
            rw [hsome] at hhold
            exact Option.isSome_map.trans hhold
          · exact (hpooled.holds j y hold).trans hsome
    | @finish i x hx hidle =>
        refine ⟨?_, fun j y hy => ?_⟩
        · rw [← hpooled.size]
          cases m.pool with
          | none => rfl
          | some pool => rfl
        · rcases Memory.runs_setRun hy with ⟨-, hnew⟩ | ⟨-, hold⟩
          · cases hnew
          · exact (hpooled.holds j y hold).trans Option.isSome_map.symm

/-- What a growth still waits for is no more than the growth. -/
theorem waiting_le_pending {x : Memory.Run} (h : Memory.RunInv x) :
    x.growth.waiting ≤ x.growth.pending := by
  cases hgrowth : x.growth with
  | idle => exact Nat.le_refl 0
  | admitted g => exact Nat.zero_le _
  | reserving g need => exact (h.waits g need hgrowth).2.1

/-- What a guest's memories and tables have is reserved. -/
theorem bytes_le_hold {x : Memory.Run} (h : Memory.RunInv x) {n : Nat}
    (hhold : x.limiter.hold = some n) : x.bytes ≤ n := by
  have hcharged := h.charged_eq
  have hcovered := h.covered n hhold
  have hwaiting := waiting_le_pending h
  omega

theorem bytes_le_limit {x : Memory.Run} (h : Memory.RunInv x) : x.bytes ≤ x.limiter.limit := by
  have hbytes : x.bytes ≤ x.limiter.charged := by
    rw [h.charged_eq, Nat.add_assoc]
    exact Nat.le_add_right _ _
  exact hbytes.trans h.charged_le

/-- All guests together have no more than the pool. -/
theorem tally_bytes_le {total : Nat} {m : Memory.Governance}
    (h : (Memory.governance (some total)).Reachable m) :
    tally Memory.Run.bytes m.runs m.started ≤ total := by
  have hinv := Memory.invariant_of_reachable h
  have hpooled := pooled_reachable h
  rcases Option.map_eq_some_iff.1 hpooled.size with ⟨p, hp, hsize⟩
  calc tally Memory.Run.bytes m.runs m.started
      ≤ ∑ j ∈ Finset.range m.started, m.held j := by
        refine Finset.sum_le_sum fun j _ => ?_
        cases hx : m.runs j with
        | none => exact Nat.zero_le _
        | some x =>
            have hsome := hpooled.holds j x hx
            rw [hp] at hsome
            rcases Option.isSome_iff_exists.1 hsome with ⟨n, hn⟩
            have hheld : m.held j = n := by
              rw [Memory.held_of_run hx, Memory.Run.held, hn, Option.getD_some]
            rw [hheld]
            exact bytes_le_hold (hinv.runs j x hx) hn
    _ = p.used := (hinv.pool.used_eq p hp).symm
    _ ≤ p.total := hinv.pool.used_le p hp
    _ = total := hsize

/-! ## The engine -/

/-- The size of the pool, where there is one. -/
def EngineConfig.poolSize (config : EngineConfig) : Option Nat :=
  if 0 < config.maxTotalRunMemory then some config.maxTotalRunMemory else none

theorem poolSize_eq_some {config : EngineConfig} {n : Nat} (h : config.poolSize = some n) :
    0 < config.maxTotalRunMemory ∧ n = config.maxTotalRunMemory := by
  unfold EngineConfig.poolSize at h
  split at h
  · next hpos => exact ⟨hpos, (Option.some.inj h).symm⟩
  · cases h

section Engines

variable {config : EngineConfig} {s : EngineState κ}

omit [DecidableEq κ] in
/-- The pool of an engine is large enough for one run. -/
theorem new_eq_ok (h : Wasmtime.new κ config = .ok s) :
    s = .start κ config ∧
      (0 < config.maxTotalRunMemory → config.memoryLimit ≤ config.maxTotalRunMemory) := by
  unfold Wasmtime.new at h
  split at h
  · cases h
  · next hpool =>
      split at h
      · cases h
      · cases h
        exact ⟨rfl, fun hpos => Nat.le_of_not_lt fun hlt => hpool ⟨hpos, hlt⟩⟩

/-- The memory of the runs moves as it does on its own. -/
theorem engine_governs (κ : Type) [DecidableEq κ] (config : EngineConfig) :
    TransitionSystem.Refines EngineState.memory (engineSystem κ config)
      (Memory.governance config.poolSize) where
  init s h := by
    rcases new_eq_ok h with ⟨rfl, -⟩
    rfl
  step s a s' h := by
    cases engineStep_cases h with
    | @launched i answer r hr hphase => exact Or.inr ⟨.start r.limits.memoryLimit, rfl⟩
    | guest hr hphase hstep => exact Or.inr ⟨_, hstep⟩
    | storeDropped hr hphase hstep => exact Or.inr ⟨_, hstep⟩
    | _ => exact Or.inl rfl

/-- And so does the scheduler. -/
theorem engine_schedules (κ : Type) [DecidableEq κ] (config : EngineConfig) :
    TransitionSystem.Refines (fun s : EngineState κ => s.scheduler.getD .new)
      (engineSystem κ config) (fairScheduler κ config.maxConcurrentRuns) where
  init s h := by
    rcases new_eq_ok h with ⟨rfl, -⟩
    unfold EngineState.start fairScheduler
    dsimp only
    split
    · rfl
    · rfl
  step s a s' h := by
    cases engineStep_cases h with
    | @granted request id sched hsched hfree =>
        refine Or.inr ⟨.acquire request.key id, ?_⟩
        simp [fairScheduler, schedulerStep, hsched, hfree]
    | @queued request id sched hsched hfull =>
        refine Or.inr ⟨.acquire request.key id, ?_⟩
        simp [fairScheduler, schedulerStep, hsched, hfull]
    | @scheduled _ i r sched sched' act phase hr hsched hturn hstep =>
        refine Or.inr ⟨act, ?_⟩
        simp [fairScheduler, hsched, hstep]
    | _ => exact Or.inl rfl

structure EngineInv (config : EngineConfig) (s : EngineState κ) : Prop where
  slots : Slots config s
  counters : Counters s
  stores : Stores s
  tmps : Tmps s

theorem engineInv_reachable (hs : (engineSystem κ config).Reachable s) : EngineInv config s := by
  refine hs.invariant ?_ ?_
  · intro s h
    rcases new_eq_ok h with ⟨rfl, -⟩
    exact ⟨.start, .start, .start, .start⟩
  · intro s a s' hs h hstep
    have hmove := engineStep_cases hstep
    have hpool := (Memory.invariant_of_reachable ((engine_governs κ config).reachable hs)).pool
    exact ⟨h.slots.step hmove, h.counters.step hmove,
      h.stores.step h.slots.started (fun _ _ hm => hpool.started hm) hmove,
      h.tmps.step h.slots.started hmove⟩

theorem enough_reachable (hs : (engineSystem κ config).Reachable s)
    (hpos : 0 < config.maxTotalRunMemory) : config.memoryLimit ≤ config.maxTotalRunMemory := by
  refine hs.invariant (I := fun _ => config.memoryLimit ≤ config.maxTotalRunMemory) ?_ ?_
  · intro s h
    exact (new_eq_ok h).2 hpos
  · intro _ _ _ _ h _
    exact h

theorem scheduler_reachable (hs : (engineSystem κ config).Reachable s) {sched : SchedulerSystem κ}
    (hsched : s.scheduler = some sched) : SchedulerInv config.maxConcurrentRuns sched := by
  have hreach := (engine_schedules κ config).reachable hs
  rw [hsched] at hreach
  exact schedulerInv_of_reachable hreach

/-- Nothing is in use but the directories that could not be removed. -/
structure Clean (s : EngineState κ) : Prop where
  active : s.active = 0
  slots : ∀ sched, s.scheduler = some sched → sched.state.active = 0
  memory : ∀ p, s.memory.pool = some p → p.used = 0
  tmps : s.tmps = s.leftovers

/-- Where every call has returned, nothing is in use. -/
theorem EngineInv.clean (h : EngineInv config s) (hs : (engineSystem κ config).Reachable s)
    (hfinished : ∀ i r, s.runs i = some r → r.phase.finished = true) : Clean s := by
  have hnumber : ∀ {q : RunPhase → Bool}, (∀ p, p.finished = true → q p = false) →
      s.number q = 0 := by
    intro q hq
    apply tally_eq_zero
    intro i r hr
    unfold ofPhase
    rw [hq r.phase (hfinished i r hr)]
    rfl
  refine ⟨?_, ?_, ?_, ?_⟩
  · rw [h.counters.active, hnumber fun p hp => (RunPhase.finished_free hp).2.1]
    rfl
  · intro sched hsched
    have hcounter := (scheduler_reachable hs hsched).counter
    rw [hcounter.active_eq, (h.slots.guards sched hsched).2,
      hnumber fun p hp => (RunPhase.finished_free hp).1]
    -- a grant in a channel is for a call that has not returned
    cases hmail : sched.mailbox with
    | nil => rfl
    | cons n rest =>
        have hmem : n ∈ sched.mailbox := by
          rw [hmail]
          exact List.mem_cons_self
        rcases (scheduler_reachable hs hsched).ledger.mailbox_pending hmem with ⟨c, hc, hpending⟩
        rcases h.slots.pending sched n c hsched hc hpending with ⟨r, hr, hphase⟩
        have hlast := hfinished n r hr
        rw [hphase] at hlast
        cases hlast
  · intro p hp
    have hinv := Memory.invariant_of_reachable ((engine_governs κ config).reachable hs)
    rw [hinv.pool.used_eq p hp]
    apply Finset.sum_eq_zero
    intro j _
    cases hm : s.memory.runs j with
    | none => simp [Memory.Governance.held, hm]
    | some m =>
        rcases h.stores.owned j m hm with ⟨i, r, hr, hj⟩
        rw [(RunPhase.finished_free (hfinished i r hr)).2.2.1] at hj
        cases hj
  · ext i
    rw [h.tmps.held i]
    refine or_iff_right ?_
    rintro ⟨r, hr, -, htmp⟩
    rw [(RunPhase.finished_free (hfinished i r hr)).2.2.2] at htmp
    cases htmp

/-- However many runs there are and however each of them ends: no more have a slot than there are,
the counter and the gauge are the runs in flight, each run that was executed is observed once, with
its own outcome, no guest has more memory than its run may, nor all of them more than the pool, the
private directories on disk are those in use and what could not be removed, a run is refused only
when its deadline is over, and once every call has returned nothing is in use any more. -/
theorem runs_accounted (config : EngineConfig) {s : EngineState κ}
    (hs : (engineSystem κ config).Reachable s) :
    (0 < config.maxConcurrentRuns → s.number RunPhase.holdsSlot ≤ config.maxConcurrentRuns) ∧
    (s.active = s.number RunPhase.inFlight ∧ s.inFlight = s.active) ∧
    ((∀ o, s.runDuration o = s.number (RunPhase.observedAs o)) ∧
      s.hostcallDuration + s.number RunPhase.driving = s.memory.started) ∧
    (∀ i r j, s.runs i = some r → r.phase.store = some j →
      ∃ m, s.memory.runs j = some m ∧ m.bytes ≤ r.limits.memoryLimit ∧
        r.limits.memoryLimit ≤ config.memoryLimit) ∧
    (0 < config.maxTotalRunMemory →
      tally Memory.Run.bytes s.memory.runs s.memory.started ≤ config.maxTotalRunMemory) ∧
    (∀ i, i ∈ s.tmps ↔ HoldsTmp s i ∨ i ∈ s.leftovers) ∧
    (∀ i r e, s.runs i = some r → r.phase = .refused e → r.waitDeadline ≤ s.now) ∧
    ((∀ i r, s.runs i = some r → r.phase.finished = true) → Clean s) := by
  have h := engineInv_reachable hs
  have hmemory := (engine_governs κ config).reachable hs
  refine ⟨fun hbound => ?_, ⟨h.counters.active, h.counters.gauge⟩,
    ⟨h.counters.counted, h.counters.driven⟩, fun i r j hr hj => ?_, fun hpool => ?_, h.tmps.held,
    fun i r e hr hphase => (h.slots.refused i r e hr hphase).2, h.clean hs⟩
  · rcases Option.isSome_iff_exists.1 (h.slots.bounded.2 hbound) with ⟨sched, hsched⟩
    have hcounter := (scheduler_reachable hs hsched).counter
    calc s.number RunPhase.holdsSlot
        = sched.guards := (h.slots.guards sched hsched).2.symm
      _ ≤ sched.guards + sched.mailbox.length := Nat.le_add_right _ _
      _ = sched.state.active := hcounter.active_eq.symm
      _ ≤ config.maxConcurrentRuns := hcounter.active_le
  · rcases h.stores.held i r j hr hj with ⟨m, hm, hlimit, -⟩
    refine ⟨m, hm, ?_, ?_⟩
    · rw [← hlimit]
      exact bytes_le_limit ((Memory.invariant_of_reachable hmemory).runs j m hm)
    · rw [h.slots.limits i r hr]
      exact narrowed_le _ _
  · have hsize : config.poolSize = some config.maxTotalRunMemory := if_pos hpool
    rw [hsize] at hmemory
    exact tally_bytes_le hmemory

end Engines

end Accounts

/-! ## One run -/

/-- One slot and a pool. -/
def smallEngine : EngineConfig where
  timeout := 30000000000
  memoryLimit := 65536
  maxConcurrentRuns := 1
  maxTotalRunMemory := 65536
  stackLimit := 524288

def smallRequest : RunRequest Text where
  key := "sha256:a".toList
  narrowing := ⟨none, none⟩
  deadline := none
  privateTmp := true

/-- A run that grows its memory to the limit and answers. -/
def smallRun : List (EngineAction Text) :=
  [.call smallRequest 0, .createTmp 0 (.ok ()), .configure 0 (.ok ()), .guest 0 (.declare .memory),
    .guest 0 (.growing 0 65536), .guest 0 .reserve, .guest 0 .grown, .stop 0 (.response [1]),
    .dropStore 0, .dropRunning 0, .dropTmp 0 true, .observe 0, .dropSlot 0]

theorem exists_small :
    ∃ s, (engineSystem Text smallEngine).Reachable s ∧ s.arrived = 1 ∧ s.runDuration .ok = 1 ∧
      (s.runs 0).map (·.phase.finished) = some true := by
  have hcheck : (smallRun.foldlM (engineStep smallEngine) (.start Text smallEngine)).map
      (fun s => (s.arrived, s.runDuration .ok, (s.runs 0).map (·.phase.finished))) =
        some (1, 1, some true) := by
    decide +kernel
  rcases Option.map_eq_some_iff.1 hcheck with ⟨s, hrun, hs⟩
  simp only [Prod.mk.injEq] at hs
  exact ⟨s, .run (fun _ _ _ hstep => hstep) (.init rfl) hrun, hs⟩

/-- It is counted, and leaves nothing behind. -/
theorem small_run_clean :
    ∃ s : EngineState Text, s.runDuration .ok = 1 ∧ s.number (RunPhase.observedAs .ok) = 1 ∧
      Clean s := by
  rcases exists_small with ⟨s, hs, harrived, hcount, hfinished⟩
  rcases runs_accounted smallEngine hs with ⟨-, -, ⟨hobserved, -⟩, -, -, -, -, hclean⟩
  refine ⟨s, hcount, (hobserved .ok).symm.trans hcount, hclean fun i r hr => ?_⟩
  have hi : i < s.arrived := (engineInv_reachable hs).slots.started i r hr
  have hzero : i = 0 := Nat.lt_one_iff.1 (harrived ▸ hi)
  subst hzero
  rw [hr] at hfinished
  exact Option.some.inj hfinished

end Engine
end FunctionWasm

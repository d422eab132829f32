import Mathlib.Data.Finset.Basic
import FunctionWasm.Memory.Limiter
import FunctionWasm.Runner.Admission
import FunctionWasm.Scheduler.FairScheduler

/-!
# Runs — the runs of one engine, from the wait for a slot to its return

A run waits for a slot, gets its sandbox and a store, and drives the guest; then everything is given
back, in the reverse order.  Runs share the scheduler, the pool of memory, the counter that the epoch
ticker looks at and the metrics.

* `guestError` and `runOutcome` are what an operator reads of a run that fails, and how it is
  counted.
* `RunPhase` is how far a run has come, `EngineState` the engine with its runs.
* `engineStep` is every move of them, `engineStep_cases` what a step can do.

What a guest does is not looked into: it grows its memories and tables and comes to an end in any way
that wasmtime reports.  Times are in nanoseconds.
-/

namespace FunctionWasm
namespace Engine

/-! ## What an operator reads -/

inductive Trap where
  | interrupt
  | stackOverflow
  | memoryOutOfBounds
  | unreachableCodeReached
  | other (name : Text)

/-- An error of wasmtime: the exit of a guest, a trap, or anything else. -/
inductive RunError where
  | exit (status : Int)
  | trap (trap : Trap)
  | other (text : Text)

def trapText : Trap → Text
  | .stackOverflow => "trap: call stack exhausted".toList
  | .memoryOutOfBounds => "trap: out-of-bounds memory access".toList
  | .unreachableCodeReached =>
      "trap: unreachable code reached (a Go guest prints the panic to stderr)".toList
  | .interrupt => "trap: wasm trap: interrupt".toList
  | .other name => "trap: ".toList ++ name

def firstLine (t : Text) : Text :=
  match splitOnce '\n' t with
  | some (line, _) => trim line
  | none => trim t

def guestError (what : Text) (err : RunError) (budget : Nat) : Text :=
  match err with
  | .exit status => what ++ ": module exited with status ".toList ++ (toString status).toList
  | .trap .interrupt =>
      what ++ ": module exceeded its execution deadline (".toList ++ Duration.format budget ++
        ")".toList
  | .trap t => what ++ ": ".toList ++ trapText t
  | .other text => what ++ ": ".toList ++ firstLine text

/-- What one drive of a guest came to. -/
inductive GuestEnd where
  | response (raw : Bytes)
  | guestError (msg : Text)
  | failed (what : Text) (err : RunError)

def GuestEnd.result (budget : Nat) : GuestEnd → Except Text Bytes
  | .response raw => .ok raw
  | .guestError msg => .error ("run returned an error: ".toList ++ msg)
  | .failed what err => .error (Engine.guestError what err budget)

inductive RunOutcome where
  | ok
  | error
  | timeout
  deriving DecidableEq

def runOutcome : Except Text Bytes → RunOutcome
  | .ok _ => .ok
  | .error e =>
      if (splitOnceText "exceeded its execution deadline".toList e).isSome then .timeout else .error

/-- Bytes with binary suffixes, as the engine's refusals have them. -/
def formatBytes (b : Nat) : Text :=
  if 2 ^ 30 ≤ b ∧ b % 2 ^ 30 = 0 then decimalText (b / 2 ^ 30) ++ "Gi".toList
  else if 2 ^ 20 ≤ b ∧ b % 2 ^ 20 = 0 then decimalText (b / 2 ^ 20) ++ "Mi".toList
  else if 2 ^ 10 ≤ b ∧ b % 2 ^ 10 = 0 then decimalText (b / 2 ^ 10) ++ "Ki".toList
  else decimalText b

/-! ## Runs -/

/-- What of the options of a run its bounds read; `key` is the digest of its module. -/
structure RunRequest (κ : Type) where
  key : κ
  narrowing : Narrowing
  deadline : Option Nat
  privateTmp : Bool

/-- How far a run has come.  In `running` and `stopped` it has a store, whose memory is `store`. -/
inductive RunPhase where
  /-- in `acquire` of the scheduler -/
  | acquiring
  /-- without a slot: it has returned and never ran -/
  | refused (reason : Text)
  | slotted
  /-- its `/tmp` is there, if it wants one -/
  | sandboxed
  | running (store budget : Nat)
  | stopped (store : Nat) (result : Except Text Bytes)
  /-- the store is dropped, next is the guard that marks the run in flight -/
  | released (result : Except Text Bytes)
  /-- next is the private `/tmp` -/
  | ended (result : Except Text Bytes)
  /-- `execute` has returned, next is the metric -/
  | executed (result : Except Text Bytes)
  /-- next is the slot -/
  | observed (result : Except Text Bytes)
  | returned (result : Except Text Bytes)

structure EngineRun (κ : Type) where
  request : RunRequest κ
  limits : Config
  waitDeadline : Nat
  phase : RunPhase

/-- The ceilings with the bound on the memory of all runs together, and on a guest's stack. -/
structure EngineConfig extends Config where
  maxTotalRunMemory : Nat
  stackLimit : Nat

/-- The engine and its runs by number.  `active` is what the ticker looks at and `inFlight` the gauge
beside it; `runDuration` and `hostcallDuration` are how often the metrics were observed, by outcome.
`tmps` are the runs whose private `/tmp` is on disk, `leftovers` those whose could not be removed. -/
structure EngineState (κ : Type) where
  now : Nat
  epoch : Nat
  scheduler : Option (SchedulerSystem κ)
  memory : Memory.Governance
  arrived : Nat
  runs : Nat → Option (EngineRun κ)
  active : Int
  inFlight : Int
  runDuration : RunOutcome → Nat
  hostcallDuration : Nat
  tmps : Finset Nat
  leftovers : Finset Nat

/-- What a guest does to its memory. -/
inductive GuestMove where
  | declare (kind : Memory.RegionKind)
  | growing (region desired : Nat)
  | reserve
  | expire
  | grown
  | refused

def GuestMove.action (store : Nat) : GuestMove → Memory.Action
  | .declare kind => .declare store kind
  | .growing region desired => .growing store region desired
  | .reserve => .reserve store
  | .expire => .expire store
  | .grown => .grown store
  | .refused => .refused store

/-- It gives up waiting for the pool. -/
def GuestMove.expires : GuestMove → Bool
  | .expire => true
  | _ => false

inductive EngineAction (κ : Type) where
  | elapse (d : Nat)
  | tick
  | call (request : RunRequest κ) (id : Nat)
  | receive (i : Nat)
  | expire (i : Nat)
  | reconcile (i : Nat)
  | createTmp (i : Nat) (answer : Except Text Unit)
  | configure (i : Nat) (answer : Except Text Unit)
  | guest (i : Nat) (a : GuestMove)
  | stop (i : Nat) (out : GuestEnd)
  | dropStore (i : Nat)
  | dropRunning (i : Nat)
  | dropTmp (i : Nat) (removed : Bool)
  | observe (i : Nat)
  | dropSlot (i : Nat)

namespace EngineState

variable {κ : Type}

def setPhase (s : EngineState κ) (i : Nat) (r : EngineRun κ) (phase : RunPhase) : EngineState κ :=
  { s with runs := Function.update s.runs i (some { r with phase := phase }) }

def start (κ : Type) (config : EngineConfig) : EngineState κ where
  now := 0
  epoch := 0
  scheduler := if 0 < config.maxConcurrentRuns then some .new else none
  memory := .new (if 0 < config.maxTotalRunMemory then some config.maxTotalRunMemory else none)
  arrived := 0
  runs := fun _ => none
  active := 0
  inFlight := 0
  runDuration := fun _ => 0
  hostcallDuration := 0
  tmps := ∅
  leftovers := ∅

end EngineState

/-- `Wasmtime::new` up to the engine itself. -/
def Wasmtime.new (κ : Type) (config : EngineConfig) : Except Text (EngineState κ) :=
  if 0 < config.maxTotalRunMemory ∧ config.maxTotalRunMemory < config.memoryLimit then
    .error ("--max-total-run-memory ".toList ++ formatBytes config.maxTotalRunMemory ++
      " is smaller than the per-run ceiling ".toList ++
      formatBytes config.memoryLimit ++
      (" (--module-memory-limit): no full-limit run could ever reserve its memory").toList)
  else if config.stackLimit = 0 then
    .error ("--module-stack-limit must be positive: a guest cannot run on an empty stack").toList
  else .ok (.start κ config)

/-! ## The moves -/

section Moves

variable {κ : Type} [DecidableEq κ]

/-- A call of `run`: its limits, and how long it waits for what it shares with others. -/
def EngineConfig.run (config : EngineConfig) (now : Nat) (request : RunRequest κ)
    (phase : RunPhase) : EngineRun κ :=
  let limits := config.toConfig.effective request.narrowing
  { request := request
    limits := limits
    waitDeadline :=
      match request.deadline with
      | some d => min (now + limits.timeout) d
      | none => now + limits.timeout
    phase := phase }

def EngineState.arrive (s : EngineState κ) (r : EngineRun κ) : EngineState κ :=
  { s with arrived := s.arrived + 1, runs := Function.update s.runs s.arrived (some r) }

/-- The budget of a run, capped by what remains of the request's deadline. -/
def EngineRun.budget (r : EngineRun κ) (now : Nat) : Nat :=
  match r.request.deadline with
  | some d => min r.limits.timeout (d - now)
  | none => r.limits.timeout

/-- A move of the scheduler in the name of a run that waits for its slot. -/
def EngineState.schedule (s : EngineState κ) (config : EngineConfig) (i : Nat) (r : EngineRun κ)
    (a : SchedulerAction κ) (phase : RunPhase) : Option (EngineState κ) :=
  match s.scheduler with
  | some sched =>
      (schedulerStep config.maxConcurrentRuns sched a).map fun sched =>
        { s.setPhase i r phase with scheduler := some sched }
  | none => none

/-- The store is there and the guest about to be driven. -/
def EngineState.launch (s : EngineState κ) (i : Nat) (r : EngineRun κ) : EngineState κ :=
  { s.setPhase i r (.running s.memory.started (r.budget s.now)) with
    memory := s.memory.start r.limits.memoryLimit
    active := s.active + 1
    inFlight := s.inFlight + 1 }

def EngineState.removeTmp (s : EngineState κ) (i : Nat) (r : EngineRun κ) (removed : Bool)
    (result : Except Text Bytes) : EngineState κ :=
  if r.request.privateTmp then
    if removed then
      { s.setPhase i r (.executed result) with tmps := s.tmps.erase i }
    else
      -- a failure is logged, and the directory stays
      { s.setPhase i r (.executed result) with leftovers := insert i s.leftovers }
  else s.setPhase i r (.executed result)

/-- Every move of the runs, under any interleaving. -/
def engineStep (config : EngineConfig) (s : EngineState κ) :
    EngineAction κ → Option (EngineState κ)
  | .elapse d => some { s with now := s.now + d }
  | .tick =>
      -- an idle engine's epoch stands still
      some (if 0 < s.active then { s with epoch := s.epoch + 1 } else s)
  | .call request id =>
      match s.scheduler with
      | none => some (s.arrive (config.run s.now request .slotted))
      | some sched =>
          -- a free slot is taken at once, otherwise the call joins the queue of its key
          let phase := if sched.state.active < config.maxConcurrentRuns then RunPhase.slotted
            else .acquiring
          (schedulerStep config.maxConcurrentRuns sched (.acquire request.key id)).map fun sched =>
            { s.arrive (config.run s.now request phase) with scheduler := some sched }
  | .receive i =>
      (s.runs i).bind fun r =>
        match r.phase with
        | .acquiring => s.schedule config i r (.receive i) .slotted
        | _ => none
  | .expire i =>
      (s.runs i).bind fun r =>
        match r.phase with
        | .acquiring =>
            -- the wait on its channel is over, and a grant may still come
            if r.waitDeadline ≤ s.now then s.schedule config i r (.expire i) .acquiring else none
        | _ => none
  | .reconcile i =>
      (s.runs i).bind fun r =>
        match r.phase with
        | .acquiring =>
            -- a grant that came late is handed on: the run never ran
            s.schedule config i r (.reconcile i) (.refused deadlineExceeded)
        | _ => none
  | .createTmp i answer =>
      (s.runs i).bind fun r =>
        match r.phase with
        | .slotted =>
            if r.request.privateTmp then
              match answer with
              | .ok _ => some { s.setPhase i r .sandboxed with tmps := insert i s.tmps }
              | .error e =>
                  -- nothing is there that would have to be given back
                  some (s.setPhase i r
                    (.executed (.error ("cannot create the private /tmp: ".toList ++ e))))
            else some (s.setPhase i r .sandboxed)
        | _ => none
  | .configure i answer =>
      (s.runs i).bind fun r =>
        match r.phase with
        | .sandboxed =>
            if r.request.privateTmp then
              match answer with
              | .ok _ => some (s.launch i r)
              | .error e =>
                  -- without a store or the guard of a run in flight
                  some (s.setPhase i r
                    (.ended (.error ("cannot pre-open the private /tmp: ".toList ++ e))))
            else some (s.launch i r)
        | _ => none
  | .guest i a =>
      (s.runs i).bind fun r =>
        match r.phase with
        | .running store _ =>
            -- the wait for the pool ends with the wait deadline of the run
            if a.expires ∧ s.now < r.waitDeadline then none
            else
              (Memory.governanceStep s.memory (a.action store)).map fun memory =>
                { s with memory := memory }
        | _ => none
  | .stop i out =>
      (s.runs i).bind fun r =>
        match r.phase with
        | .running store budget =>
            -- a guest that waits for the pool is blocked in its growth
            if (s.memory.runs store).any (·.growth = .idle) then
              some { s.setPhase i r (.stopped store (out.result budget)) with
                hostcallDuration := s.hostcallDuration + 1 }
            else none
        | _ => none
  | .dropStore i =>
      (s.runs i).bind fun r =>
        match r.phase with
        | .stopped store result =>
            (Memory.governanceStep s.memory (.finish store)).map fun memory =>
              { s.setPhase i r (.released result) with memory := memory }
        | _ => none
  | .dropRunning i =>
      (s.runs i).bind fun r =>
        match r.phase with
        | .released result =>
            some { s.setPhase i r (.ended result) with
              active := s.active - 1
              inFlight := s.inFlight - 1 }
        | _ => none
  | .dropTmp i removed =>
      (s.runs i).bind fun r =>
        match r.phase with
        | .ended result => some (s.removeTmp i r removed result)
        | _ => none
  | .observe i =>
      (s.runs i).bind fun r =>
        match r.phase with
        | .executed result =>
            some { s.setPhase i r (.observed result) with
              runDuration := Function.update s.runDuration (runOutcome result)
                (s.runDuration (runOutcome result) + 1) }
        | _ => none
  | .dropSlot i =>
      (s.runs i).bind fun r =>
        match r.phase with
        | .observed result =>
            match s.scheduler with
            | some _ => s.schedule config i r .drop (.returned result)
            | none => some (s.setPhase i r (.returned result))
        | _ => none

/-- An engine that `Wasmtime::new` made. -/
def engineSystem (κ : Type) [DecidableEq κ] (config : EngineConfig) :
    TransitionSystem (EngineState κ) (EngineAction κ) where
  init s := Wasmtime.new κ config = .ok s
  step s a s' := engineStep config s a = some s'

/-! ## What a step can do -/

/-- What giving back the private `/tmp` does to the directories. -/
inductive TmpGone (s : EngineState κ) (i : Nat) (r : EngineRun κ) : Finset Nat → Finset Nat → Prop where
  | none (hwant : r.request.privateTmp = false) : TmpGone s i r s.tmps s.leftovers
  | removed (hwant : r.request.privateTmp = true) : TmpGone s i r (s.tmps.erase i) s.leftovers
  | left (hwant : r.request.privateTmp = true) : TmpGone s i r s.tmps (insert i s.leftovers)

/-- What getting one does. -/
inductive TmpMade (s : EngineState κ) (i : Nat) (r : EngineRun κ) : Finset Nat → Prop where
  | none (hwant : r.request.privateTmp = false) : TmpMade s i r s.tmps
  | made (hwant : r.request.privateTmp = true) : TmpMade s i r (insert i s.tmps)

/-- What a move of the scheduler makes of the run in whose name it is. -/
inductive SlotTurn (s : EngineState κ) (i : Nat) (r : EngineRun κ) :
    SchedulerAction κ → RunPhase → Prop where
  | receive (hphase : r.phase = .acquiring) : SlotTurn s i r (.receive i) .slotted
  | expire (hphase : r.phase = .acquiring) (hlate : r.waitDeadline ≤ s.now) :
      SlotTurn s i r (.expire i) .acquiring
  | reconcile (hphase : r.phase = .acquiring) :
      SlotTurn s i r (.reconcile i) (.refused deadlineExceeded)
  | drop {result : Except Text Bytes} (hphase : r.phase = .observed result) :
      SlotTurn s i r .drop (.returned result)

inductive EngineMove (config : EngineConfig) (s : EngineState κ) :
    EngineAction κ → EngineState κ → Prop where
  | elapse (d : Nat) : EngineMove config s (.elapse d) { s with now := s.now + d }
  | ticked (hactive : 0 < s.active) : EngineMove config s .tick { s with epoch := s.epoch + 1 }
  | idle (hactive : ¬ 0 < s.active) : EngineMove config s .tick s
  | called {request : RunRequest κ} {id : Nat} (hsched : s.scheduler = none) :
      EngineMove config s (.call request id) (s.arrive (config.run s.now request .slotted))
  | granted {request : RunRequest κ} {id : Nat} {sched : SchedulerSystem κ}
      (hsched : s.scheduler = some sched) (hfree : sched.state.active < config.maxConcurrentRuns) :
      EngineMove config s (.call request id)
        { s.arrive (config.run s.now request .slotted) with
          scheduler := some (sched.takeSlot request.key id) }
  | queued {request : RunRequest κ} {id : Nat} {sched : SchedulerSystem κ}
      (hsched : s.scheduler = some sched)
      (hfull : ¬ sched.state.active < config.maxConcurrentRuns) :
      EngineMove config s (.call request id)
        { s.arrive (config.run s.now request .acquiring) with
          scheduler := some (sched.queueUp request.key id) }
  | scheduled {act : EngineAction κ} {i : Nat} {r : EngineRun κ} {sched sched' : SchedulerSystem κ}
      {a : SchedulerAction κ} {phase : RunPhase} (hr : s.runs i = some r)
      (hsched : s.scheduler = some sched) (hturn : SlotTurn s i r a phase)
      (hstep : schedulerStep config.maxConcurrentRuns sched a = some sched') :
      EngineMove config s act { s.setPhase i r phase with scheduler := some sched' }
  | unslotted {i : Nat} {r : EngineRun κ} {result : Except Text Bytes} (hr : s.runs i = some r)
      (hsched : s.scheduler = none) (hphase : r.phase = .observed result) :
      EngineMove config s (.dropSlot i) (s.setPhase i r (.returned result))
  | sandboxed {i : Nat} {answer : Except Text Unit} {r : EngineRun κ} {tmps : Finset Nat}
      (hr : s.runs i = some r) (hphase : r.phase = .slotted) (htmps : TmpMade s i r tmps) :
      EngineMove config s (.createTmp i answer) { s.setPhase i r .sandboxed with tmps := tmps }
  | unsandboxed {i : Nat} {e e' : Text} {r : EngineRun κ} (hr : s.runs i = some r)
      (hphase : r.phase = .slotted) :
      EngineMove config s (.createTmp i (.error e)) (s.setPhase i r (.executed (.error e')))
  | launched {i : Nat} {answer : Except Text Unit} {r : EngineRun κ} (hr : s.runs i = some r)
      (hphase : r.phase = .sandboxed) : EngineMove config s (.configure i answer) (s.launch i r)
  | unlaunched {i : Nat} {e e' : Text} {r : EngineRun κ} (hr : s.runs i = some r)
      (hphase : r.phase = .sandboxed) :
      EngineMove config s (.configure i (.error e)) (s.setPhase i r (.ended (.error e')))
  | guest {i store budget : Nat} {r : EngineRun κ} {a : GuestMove} {memory : Memory.Governance}
      (hr : s.runs i = some r) (hphase : r.phase = .running store budget)
      (hstep : Memory.governanceStep s.memory (a.action store) = some memory) :
      EngineMove config s (.guest i a) { s with memory := memory }
  | stopped {i store budget : Nat} {r : EngineRun κ} {out : GuestEnd} {m : Memory.Run}
      (hr : s.runs i = some r) (hphase : r.phase = .running store budget)
      (hm : s.memory.runs store = some m) (hidle : m.growth = .idle) :
      EngineMove config s (.stop i out)
        { s.setPhase i r (.stopped store (out.result budget)) with
          hostcallDuration := s.hostcallDuration + 1 }
  | storeDropped {i store : Nat} {r : EngineRun κ} {result : Except Text Bytes}
      {memory : Memory.Governance} (hr : s.runs i = some r)
      (hphase : r.phase = .stopped store result)
      (hstep : Memory.governanceStep s.memory (.finish store) = some memory) :
      EngineMove config s (.dropStore i)
        { s.setPhase i r (.released result) with memory := memory }
  | runningDropped {i : Nat} {r : EngineRun κ} {result : Except Text Bytes}
      (hr : s.runs i = some r) (hphase : r.phase = .released result) :
      EngineMove config s (.dropRunning i)
        { s.setPhase i r (.ended result) with
          active := s.active - 1
          inFlight := s.inFlight - 1 }
  | tmpDropped {i : Nat} {removed : Bool} {r : EngineRun κ} {result : Except Text Bytes}
      {tmps leftovers : Finset Nat} (hr : s.runs i = some r) (hphase : r.phase = .ended result)
      (htmps : TmpGone s i r tmps leftovers) :
      EngineMove config s (.dropTmp i removed)
        { s.setPhase i r (.executed result) with
          tmps := tmps
          leftovers := leftovers }
  | observed {i : Nat} {r : EngineRun κ} {result : Except Text Bytes} (hr : s.runs i = some r)
      (hphase : r.phase = .executed result) :
      EngineMove config s (.observe i)
        { s.setPhase i r (.observed result) with
          runDuration := Function.update s.runDuration (runOutcome result)
            (s.runDuration (runOutcome result) + 1) }

theorem schedule_eq_some {config : EngineConfig} {s s' : EngineState κ} {i : Nat} {r : EngineRun κ}
    {a : SchedulerAction κ} {phase : RunPhase} (h : s.schedule config i r a phase = some s') :
    ∃ sched sched', s.scheduler = some sched ∧
      schedulerStep config.maxConcurrentRuns sched a = some sched' ∧
      s' = { s.setPhase i r phase with scheduler := some sched' } := by
  unfold EngineState.schedule at h
  split at h
  · next sched hsched =>
      rcases Option.map_eq_some_iff.1 h with ⟨sched', hstep, rfl⟩
      exact ⟨sched, sched', hsched, hstep, rfl⟩
  · cases h

omit [DecidableEq κ] in
theorem removeTmp_gone (s : EngineState κ) (i : Nat) (r : EngineRun κ) (removed : Bool)
    (result : Except Text Bytes) :
    ∃ tmps leftovers, TmpGone s i r tmps leftovers ∧
      s.removeTmp i r removed result =
        { s.setPhase i r (.executed result) with tmps := tmps, leftovers := leftovers } := by
  cases hwant : r.request.privateTmp with
  | false => exact ⟨_, _, .none hwant, by simp [EngineState.removeTmp, hwant, EngineState.setPhase]⟩
  | true =>
      cases removed with
      | false => exact ⟨_, _, .left hwant, by simp [EngineState.removeTmp, hwant, EngineState.setPhase]⟩
      | true =>
          exact ⟨_, _, .removed hwant, by simp [EngineState.removeTmp, hwant, EngineState.setPhase]⟩

theorem engineStep_cases {config : EngineConfig} {s s' : EngineState κ} {a : EngineAction κ}
    (h : engineStep config s a = some s') : EngineMove config s a s' := by
  cases a with
  | elapse d =>
      cases h
      exact .elapse d
  | tick =>
      simp only [engineStep] at h
      split at h
      · next hactive =>
          cases h
          exact .ticked hactive
      · next hactive =>
          cases h
          exact .idle hactive
  | call request id =>
      simp only [engineStep] at h
      split at h
      · next hsched =>
          cases h
          exact .called hsched
      · next sched hsched =>
          by_cases hfree : sched.state.active < config.maxConcurrentRuns
          · simp only [schedulerStep, if_pos hfree, Option.map_some, Option.some.injEq] at h
            subst h
            exact .granted hsched hfree
          · simp only [schedulerStep, if_neg hfree, Option.map_some, Option.some.injEq] at h
            subst h
            exact .queued hsched hfree
  | receive i =>
      rcases Option.bind_eq_some_iff.1 h with ⟨r, hr, hnext⟩
      split at hnext
      · next hphase =>
          rcases schedule_eq_some hnext with ⟨sched, sched', hsched, hstep, rfl⟩
          exact .scheduled hr hsched (.receive hphase) hstep
      · cases hnext
  | expire i =>
      rcases Option.bind_eq_some_iff.1 h with ⟨r, hr, hnext⟩
      split at hnext
      · next hphase =>
          split at hnext
          · next hlate =>
              rcases schedule_eq_some hnext with ⟨sched, sched', hsched, hstep, rfl⟩
              exact .scheduled hr hsched (.expire hphase hlate) hstep
          · cases hnext
      · cases hnext
  | reconcile i =>
      rcases Option.bind_eq_some_iff.1 h with ⟨r, hr, hnext⟩
      split at hnext
      · next hphase =>
          rcases schedule_eq_some hnext with ⟨sched, sched', hsched, hstep, rfl⟩
          exact .scheduled hr hsched (.reconcile hphase) hstep
      · cases hnext
  | createTmp i answer =>
      rcases Option.bind_eq_some_iff.1 h with ⟨r, hr, hnext⟩
      split at hnext
      · next hphase =>
          split at hnext
          · next hwant =>
              cases answer with
              | ok =>
                  cases hnext
                  exact .sandboxed hr hphase (.made hwant)
              | error e =>
                  cases hnext
                  exact .unsandboxed hr hphase
          · next hwant =>
              cases hnext
              exact .sandboxed hr hphase (.none (Bool.eq_false_iff.2 hwant))
      · cases hnext
  | configure i answer =>
      rcases Option.bind_eq_some_iff.1 h with ⟨r, hr, hnext⟩
      split at hnext
      · next hphase =>
          split at hnext
          · cases answer with
            | ok =>
                cases hnext
                exact .launched hr hphase
            | error e =>
                cases hnext
                exact .unlaunched hr hphase
          · cases hnext
            exact .launched hr hphase
      · cases hnext
  | guest i a =>
      rcases Option.bind_eq_some_iff.1 h with ⟨r, hr, hnext⟩
      split at hnext
      · next hphase =>
          split at hnext
          · cases hnext
          · rcases Option.map_eq_some_iff.1 hnext with ⟨memory, hstep, rfl⟩
            exact .guest hr hphase hstep
      · cases hnext
  | stop i out =>
      rcases Option.bind_eq_some_iff.1 h with ⟨r, hr, hnext⟩
      split at hnext
      · next store budget hphase =>
          split at hnext
          · next hany =>
              cases hnext
              cases hm : s.memory.runs store with
              | none => simp [hm] at hany
              | some m => exact .stopped hr hphase hm (by simpa [hm] using hany)
          · cases hnext
      · cases hnext
  | dropStore i =>
      rcases Option.bind_eq_some_iff.1 h with ⟨r, hr, hnext⟩
      split at hnext
      · next hphase =>
          rcases Option.map_eq_some_iff.1 hnext with ⟨memory, hstep, rfl⟩
          exact .storeDropped hr hphase hstep
      · cases hnext
  | dropRunning i =>
      rcases Option.bind_eq_some_iff.1 h with ⟨r, hr, hnext⟩
      split at hnext
      · next hphase =>
          cases hnext
          exact .runningDropped hr hphase
      · cases hnext
  | dropTmp i removed =>
      rcases Option.bind_eq_some_iff.1 h with ⟨r, hr, hnext⟩
      split at hnext
      · next result hphase =>
          cases hnext
          rcases removeTmp_gone s i r removed result with ⟨tmps, leftovers, hgone, heq⟩
          rw [heq]
          exact .tmpDropped hr hphase hgone
      · cases hnext
  | observe i =>
      rcases Option.bind_eq_some_iff.1 h with ⟨r, hr, hnext⟩
      split at hnext
      · next hphase =>
          cases hnext
          exact .observed hr hphase
      · cases hnext
  | dropSlot i =>
      rcases Option.bind_eq_some_iff.1 h with ⟨r, hr, hnext⟩
      split at hnext
      · next hphase =>
          split at hnext
          · rcases schedule_eq_some hnext with ⟨sched, sched', hsched, hstep, rfl⟩
            exact .scheduled hr hsched (.drop hphase) hstep
          · next hsched =>
              cases hnext
              exact .unslotted hr hsched hphase
      · cases hnext

end Moves

end Engine
end FunctionWasm

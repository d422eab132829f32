import Mathlib.Data.Finset.Card
import FunctionWasm.Cache.MemoryTier
import FunctionWasm.Cache.SingleFlight

/-!
# Compiles — the compile permits of the cache, and that no call is stuck

A load that has to compile takes a permit to its thread.  The thread keeps it until the compile ends,
whatever has become of the call by then.

* `CacheEdge` is every move with what it needs; `ThreadMove` says what it does to the threads, their
  permits and the memory tier.
* `Permits` is what holds of them in every state.
* `compiles_bounded` is how many compile at once, `every_call_returns` that each call can be answered.
-/

namespace FunctionWasm

open TransitionSystem (Leads)

variable {μ : Type}

/-- What a call is told whose compile took too long. -/
def compileExceeded (bound : Nat) : Text :=
  "compile exceeded --module-compile-timeout ".toList ++ Duration.format bound

/-! ## The moves, guards included -/

/-- What each move needs and where it leads. -/
inductive CacheEdge (o : CacheOptions) (s : CacheState μ) : CacheAction μ → CacheState μ → Prop where
  | elapse (d : Nat) : CacheEdge o s (.elapse d) { s with now := s.now + d }
  | arrive (digest : Text) : CacheEdge o s (.arrive digest) (s.arrive digest)
  | lookup {i : Nat} {digest : Text} (hx : s.callers i = some ⟨digest, .looking⟩) :
      CacheEdge o s (.lookup i) (s.lookup o i digest)
  | enter {i : Nat} {digest : Text} {c : Nat} (hx : s.callers i = some ⟨digest, .missed⟩)
      (hc : s.loading digest = some c) :
      CacheEdge o s (.enter i) (s.setPhase i digest (.waiting c))
  | launch {i : Nat} {digest : Text} (hx : s.callers i = some ⟨digest, .missed⟩)
      (hc : s.loading digest = none) : CacheEdge o s (.enter i) (s.launch i digest)
  | ready {i : Nat} {digest : Text} {c : Nat} {y : FlightCell μ} {m : μ}
      (hx : s.callers i = some ⟨digest, .waiting c⟩) (hy : s.cells c = some y)
      (hm : y.value = some m) : CacheEdge o s (.ready i) (s.setPhase i digest (.settled (.ok m)))
  | acquire {i : Nat} {digest : Text} {c : Nat} {y : FlightCell μ}
      (hx : s.callers i = some ⟨digest, .waiting c⟩) (hy : s.cells c = some y)
      (hvalue : y.value = none) (hfree : y.holder = none) :
      CacheEdge o s (.acquire i) (s.acquire o i digest c y)
  | diskHit {i : Nat} {digest : Text} {c : Nat} {y : FlightCell μ}
      (hx : s.callers i = some ⟨digest, .loading c .disk⟩) (hy : s.cells c = some y) (m : μ) :
      CacheEdge o s (.diskHit i m) (s.settle i digest c y (.ok m))
  | diskMiss {i : Nat} {digest : Text} {c : Nat}
      (hx : s.callers i = some ⟨digest, .loading c .disk⟩) :
      CacheEdge o s (.diskMiss i) (s.setPhase i digest (.loading c .permit))
  | spawn {i : Nat} {digest : Text} {c : Nat}
      (hx : s.callers i = some ⟨digest, .loading c .permit⟩) (hfree : 0 < s.compiles) :
      CacheEdge o s (.spawn i) (s.spawn i digest c)
  | finish {j : Nat} (hjob : s.jobs j = some none) (outcome : JobOutcome μ) :
      CacheEdge o s (.finish j outcome) (s.finish j outcome)
  | join {i : Nat} {digest : Text} {c j : Nat} {y : FlightCell μ} {outcome : JobOutcome μ}
      (hx : s.callers i = some ⟨digest, .loading c (.compiling j)⟩)
      (hjob : s.jobs j = some (some outcome)) (hy : s.cells c = some y) :
      CacheEdge o s (.join i) (s.settle i digest c y outcome.joined)
  | timeout {i : Nat} {digest : Text} {c j : Nat} {y : FlightCell μ} {bound : Nat}
      (hx : s.callers i = some ⟨digest, .loading c (.compiling j)⟩)
      (hbound : o.compileTimeout = some bound) (hjob : s.jobs j = some none)
      (hy : s.cells c = some y) :
      CacheEdge o s (.timeout i) (s.settle i digest c y (.error (compileExceeded bound)))
  | remove {i : Nat} {digest : Text} {r : Except Text μ}
      (hx : s.callers i = some ⟨digest, .settled r⟩) :
      CacheEdge o s (.remove i) (s.remove i digest r)
  | put {i : Nat} {digest : Text} {m : μ} {victims : List Text} {entries : MemoryTier μ}
      (hx : s.callers i = some ⟨digest, .dropped (.ok m)⟩)
      (hput : MemoryTier.put o s.now digest m victims s.entries = some entries) :
      CacheEdge o s (.put i victims)
        ({ s with entries := entries }.setPhase i digest (.returned (.ok m)))
  | fail {i : Nat} {digest e : Text} (hx : s.callers i = some ⟨digest, .dropped (.error e)⟩)
      (victims : List Text) :
      CacheEdge o s (.put i victims) (s.setPhase i digest (.returned (.error e)))
  | leave {i : Nat} {x : Caller μ} (hx : s.callers i = some x)
      (hidle : ∀ c p, x.phase ≠ .loading c p) : CacheEdge o s (.cancel i) (s.setCaller i none)
  | abandon {i : Nat} {digest : Text} {c : Nat} {p : LoadPhase} {y : FlightCell μ}
      (hx : s.callers i = some ⟨digest, .loading c p⟩) (hy : s.cells c = some y) :
      CacheEdge o s (.cancel i) ((s.setCell c { y with holder := none }).setCaller i none)

theorem cacheEdge_of_step {o : CacheOptions} {s s' : CacheState μ} {a : CacheAction μ}
    (h : cacheStep o s a = some s') : CacheEdge o s a s' := by
  cases a with
  | elapse d =>
      cases h
      exact .elapse d
  | arrive digest =>
      cases h
      exact .arrive digest
  | lookup i =>
      simp only [cacheStep] at h
      split at h
      · next hx =>
          cases h
          exact .lookup hx
      · cases h
  | enter i =>
      simp only [cacheStep] at h
      split at h
      · next hx =>
          split at h
          · next hc =>
              cases h
              exact .enter hx hc
          · next hc =>
              cases h
              exact .launch hx hc
      · cases h
  | ready i =>
      simp only [cacheStep] at h
      split at h
      · next hx =>
          split at h
          · next hm =>
              cases h
              rcases Option.bind_eq_some_iff.1 hm with ⟨y, hy, hm⟩
              exact .ready hx hy hm
          · cases h
      · cases h
  | acquire i =>
      simp only [cacheStep] at h
      split at h
      · next hx =>
          split at h
          · next hy =>
              split at h
              · next hcond =>
                  cases h
                  exact .acquire hx hy (Option.isNone_iff_eq_none.1 hcond.1) hcond.2
              · cases h
          · cases h
      · cases h
  | diskHit i m =>
      simp only [cacheStep] at h
      split at h
      · next hx =>
          rcases Option.map_eq_some_iff.1 h with ⟨y, hy, rfl⟩
          exact .diskHit hx hy m
      · cases h
  | diskMiss i =>
      simp only [cacheStep] at h
      split at h
      · next hx =>
          cases h
          exact .diskMiss hx
      · cases h
  | spawn i =>
      simp only [cacheStep] at h
      split at h
      · next hx =>
          split at h
          · next hfree =>
              cases h
              exact .spawn hx hfree
          · cases h
      · cases h
  | finish j outcome =>
      simp only [cacheStep] at h
      split at h
      · next hjob =>
          cases h
          exact .finish hjob outcome
      · cases h
  | join i =>
      simp only [cacheStep] at h
      split at h
      · next hx =>
          split at h
          · next hjob =>
              rcases Option.map_eq_some_iff.1 h with ⟨y, hy, rfl⟩
              rcases Option.bind_eq_some_iff.1 hjob with ⟨job, hjob, hid⟩
              cases hid
              exact .join hx hjob hy
          · cases h
      · cases h
  | timeout i =>
      simp only [cacheStep] at h
      split at h
      · next hx hbound =>
          split at h
          · next hjob =>
              rcases Option.map_eq_some_iff.1 h with ⟨y, hy, rfl⟩
              exact .timeout hx hbound hjob hy
          · cases h
      · cases h
  | remove i =>
      simp only [cacheStep] at h
      split at h
      · next hx =>
          cases h
          exact .remove hx
      · cases h
  | put i victims =>
      simp only [cacheStep] at h
      split at h
      · next hx =>
          rcases Option.map_eq_some_iff.1 h with ⟨entries, hput, rfl⟩
          exact .put hx hput
      · next hx =>
          cases h
          exact .fail hx victims
      · cases h
  | cancel i =>
      simp only [cacheStep] at h
      split at h
      · cases h
      · cases h
      · next hx =>
          rcases Option.map_eq_some_iff.1 h with ⟨y, hy, rfl⟩
          exact .abandon hx hy
      · next x _ _ hidle hx =>
          cases h
          -- dropped outside a load, so it holds no cell
          refine .leave hx fun c p hp => ?_
          exact hidle x.digest c p (by rw [← hp])
      · cases h

/-! ## Threads -/

namespace CacheState

/-- Whether the compile of a job goes on. -/
def compilesAt (s : CacheState μ) (j : Nat) : Bool :=
  match s.jobs j with
  | some none => true
  | _ => false

/-- The compiles that go on. -/
def running (s : CacheState μ) : Finset Nat :=
  (Finset.range s.started).filter fun j => s.compilesAt j = true

theorem compilesAt_iff {s : CacheState μ} {j : Nat} :
    s.compilesAt j = true ↔ s.jobs j = some none := by
  unfold compilesAt
  split
  · next h => exact ⟨fun _ => h, fun _ => rfl⟩
  · next h => exact ⟨fun hfalse => Bool.noConfusion hfalse, fun hsome => absurd hsome h⟩

theorem mem_running {s : CacheState μ} {j : Nat} :
    j ∈ s.running ↔ j < s.started ∧ s.jobs j = some none := by
  rw [running, Finset.mem_filter, Finset.mem_range, compilesAt_iff]

theorem callers_of_setPhase {s : CacheState μ} {i j : Nat} {digest : Text} {p : GetPhase μ}
    {x : Caller μ} (h : (s.setPhase i digest p).callers j = some x) :
    (j = i ∧ x = ⟨digest, p⟩) ∨ (j ≠ i ∧ s.callers j = some x) := by
  by_cases hj : j = i
  · subst hj
    rw [callers_setPhase] at h
    exact Or.inl ⟨rfl, (Option.some.inj h).symm⟩
  · rw [callers_setPhase_ne s hj] at h
    exact Or.inr ⟨hj, h⟩

end CacheState

/-- What a step can do to the memory tier. -/
inductive TierMove (o : CacheOptions) (now : Nat) (t : MemoryTier μ) : MemoryTier μ → Prop where
  | still : TierMove o now t t
  | get (digest : Text) : TierMove o now t (MemoryTier.get o now digest t).2
  | put {digest : Text} {value : μ} {victims : List Text} {t' : MemoryTier μ}
      (hput : MemoryTier.put o now digest value victims t = some t') : TierMove o now t t'

theorem TierMove.keys {o : CacheOptions} {now : Nat} {t t' : MemoryTier μ}
    (h : TierMove o now t t') (hkeys : (t.map Prod.fst).Nodup) : (t'.map Prod.fst).Nodup := by
  cases h with
  | still => exact hkeys
  | get digest => exact hkeys.sublist MemoryTier.get_keys
  | @put digest value victims _ hput =>
      cases hmem : o.noMemory with
      | true =>
          rw [MemoryTier.put, if_pos hmem] at hput
          cases hput
          exact hkeys
      | false =>
          rw [MemoryTier.put_eq hmem] at hput
          have hinserted := MemoryTier.inserted_keys hkeys now digest value
          exact hinserted.sublist ((MemoryTier.evict_spec hinserted hput).1.map Prod.fst)

/-- What a step can do to the threads: only a load that takes a permit begins a compile, and only
the end of a compile gives one back. -/
inductive ThreadMove (o : CacheOptions) (s : CacheState μ) : CacheAction μ → CacheState μ → Prop where
  | still {a : CacheAction μ} {s' : CacheState μ} (htier : TierMove o s.now s.entries s'.entries)
      (hcompiles : s'.compiles = s.compiles) (hstarted : s'.started = s.started)
      (hjobs : s'.jobs = s.jobs)
      (hcallers : ∀ i digest c j, s'.callers i = some ⟨digest, .loading c (.compiling j)⟩ →
        s.callers i = some ⟨digest, .loading c (.compiling j)⟩) : ThreadMove o s a s'
  | spawn {i : Nat} {digest : Text} {c : Nat}
      (hx : s.callers i = some ⟨digest, .loading c .permit⟩) (hfree : 0 < s.compiles) :
      ThreadMove o s (.spawn i) (s.spawn i digest c)
  | finish {j : Nat} (outcome : JobOutcome μ) (hrun : s.jobs j = some none) :
      ThreadMove o s (.finish j outcome) (s.finish j outcome)

/-- A caller goes on to something other than a compile. -/
theorem ThreadMove.setPhase {o : CacheOptions} {s t : CacheState μ} {a : CacheAction μ} {i : Nat}
    {digest : Text} {p : GetPhase μ} (htier : TierMove o s.now s.entries t.entries)
    (hcompiles : t.compiles = s.compiles) (hstarted : t.started = s.started)
    (hjobs : t.jobs = s.jobs) (hcallers : t.callers = s.callers)
    (hp : ∀ c j, p ≠ .loading c (.compiling j)) : ThreadMove o s a (t.setPhase i digest p) := by
  refine .still htier hcompiles hstarted hjobs fun k d c j hk => ?_
  rcases CacheState.callers_of_setPhase hk with ⟨-, heq⟩ | ⟨-, hold⟩
  · cases heq
    exact absurd rfl (hp c j)
  · rw [← hcallers]
    exact hold

/-- A caller goes away. -/
theorem ThreadMove.leave {o : CacheOptions} {s t : CacheState μ} {a : CacheAction μ} (i : Nat)
    (hentries : t.entries = s.entries) (hcompiles : t.compiles = s.compiles)
    (hstarted : t.started = s.started) (hjobs : t.jobs = s.jobs) (hcallers : t.callers = s.callers) :
    ThreadMove o s a (t.setCaller i none) := by
  refine .still (hentries ▸ .still) hcompiles hstarted hjobs fun k d c j hk => ?_
  by_cases hki : k = i
  · subst hki
    simp [CacheState.setCaller] at hk
  · rw [← hcallers]
    simpa [CacheState.setCaller, hki] using hk

theorem ThreadMove.settle {o : CacheOptions} {s : CacheState μ} {a : CacheAction μ} {i : Nat}
    {digest : Text} {c : Nat} {y : FlightCell μ} (r : Except Text μ) :
    ThreadMove o s a (s.settle i digest c y r) := by
  cases r with
  | ok m =>
      exact .setPhase (t := { s.setCell c { y with value := some m, holder := none } with
        loaded := (digest, m) :: s.loaded }) .still rfl rfl rfl rfl fun _ _ h => by cases h
  | error e => exact .setPhase .still rfl rfl rfl rfl fun _ _ h => by cases h

theorem threadMove_of_step {o : CacheOptions} {s s' : CacheState μ} {a : CacheAction μ}
    (h : cacheStep o s a = some s') : ThreadMove o s a s' := by
  cases cacheEdge_of_step h with
  | elapse d => exact .still .still rfl rfl rfl fun _ _ _ _ hx => hx
  | arrive digest =>
      exact .setPhase (t := { s with arrived := s.arrived + 1 }) .still rfl rfl rfl rfl
        fun _ _ h => by cases h
  | @lookup i digest hx =>
      refine .setPhase (t := { s with entries := (MemoryTier.get o s.now digest s.entries).2 })
        (.get digest) rfl rfl rfl rfl fun c j hp => ?_
      split at hp <;> cases hp
  | @launch i digest hx hc =>
      exact .setPhase
        (t := { s.setCell s.made { digest := digest, value := none, holder := none } with
          loading := Function.update s.loading digest (some s.made), made := s.made + 1 })
        .still rfl rfl rfl rfl fun _ _ h => by cases h
  | acquire hx hy hvalue hfree =>
      refine .setPhase .still rfl rfl rfl rfl fun c j hp => ?_
      split at hp <;> cases hp
  | enter hx hc => exact .setPhase .still rfl rfl rfl rfl fun _ _ h => by cases h
  | ready hx hy hm => exact .setPhase .still rfl rfl rfl rfl fun _ _ h => by cases h
  | diskMiss hx => exact .setPhase .still rfl rfl rfl rfl fun _ _ h => by cases h
  | fail hx victims => exact .setPhase .still rfl rfl rfl rfl fun _ _ h => by cases h
  | spawn hx hfree => exact .spawn hx hfree
  | finish hjob outcome => exact .finish outcome hjob
  -- the thread of a load that is cut short goes on
  | diskHit | join | timeout => exact .settle _
  | @remove i digest r hx =>
      exact .setPhase (t := { s with loading := Function.update s.loading digest none })
        .still rfl rfl rfl rfl fun _ _ h => by cases h
  | @put i digest m victims entries hx hput =>
      exact .setPhase (t := { s with entries := entries }) (.put hput) rfl rfl rfl rfl
        fun _ _ h => by cases h
  | leave hx hidle => exact .leave _ rfl rfl rfl rfl rfl
  | abandon hx hy => exact .leave _ rfl rfl rfl rfl rfl

/-! ## Permits -/

/-- What holds of the threads and the tier in every state. -/
structure Permits (o : CacheOptions) (s : CacheState μ) : Prop where
  keys : (s.entries.map Prod.fst).Nodup
  fresh : ∀ j, s.started ≤ j → s.jobs j = none
  begun : ∀ i digest c j, s.callers i = some ⟨digest, .loading c (.compiling j)⟩ →
    (s.jobs j).isSome = true
  all : s.compiles + s.running.card = max 1 o.maxConcurrentCompiles

/-- A compile that begins is one more. -/
theorem running_spawn {s : CacheState μ} (i : Nat) (digest : Text) (c : Nat) :
    (s.spawn i digest c).running = insert s.started s.running := by
  ext j
  rw [CacheState.mem_running, Finset.mem_insert, CacheState.mem_running]
  have hstarted : (s.spawn i digest c).started = s.started + 1 := rfl
  have hjobs : (s.spawn i digest c).jobs = Function.update s.jobs s.started (some none) := rfl
  rw [hstarted, hjobs]
  by_cases hj : j = s.started
  · subst hj
    simp
  · rw [Function.update_of_ne hj]
    have hlt : j < s.started + 1 ↔ j < s.started := by omega
    simp [hj, hlt]

/-- A compile that ends is one less. -/
theorem running_finish {s : CacheState μ} (j : Nat) (outcome : JobOutcome μ) :
    (s.finish j outcome).running = s.running.erase j := by
  ext k
  rw [CacheState.mem_running, Finset.mem_erase, CacheState.mem_running]
  have hjobs : (s.finish j outcome).jobs = Function.update s.jobs j (some (some outcome)) := rfl
  have hstarted : (s.finish j outcome).started = s.started := rfl
  rw [hstarted, hjobs]
  by_cases hk : k = j
  · subst hk
    simp
  · rw [Function.update_of_ne hk]
    simp [hk]

theorem Permits.step {o : CacheOptions} {s s' : CacheState μ} {a : CacheAction μ}
    (h : Permits o s) (hmove : ThreadMove o s a s') : Permits o s' := by
  cases hmove with
  | still htier hcompiles hstarted hjobs hcallers =>
      have hrunning : s'.running = s.running := by
        ext j
        rw [CacheState.mem_running, CacheState.mem_running, hstarted, hjobs]
      refine ⟨htier.keys h.keys, ?_, fun i digest c j hx => ?_, ?_⟩
      · rw [hstarted, hjobs]
        exact h.fresh
      · rw [hjobs]
        exact h.begun i digest c j (hcallers i digest c j hx)
      · rw [hcompiles, hrunning]
        exact h.all
  | @spawn i digest c hx hfree =>
      refine ⟨h.keys, fun j hj => ?_, fun k d c' j hk => ?_, ?_⟩
      · have hlt : s.started < j := hj
        calc (s.spawn i digest c).jobs j = s.jobs j := Function.update_of_ne hlt.ne' _ _
          _ = none := h.fresh j hlt.le
      · by_cases hj : j = s.started
        · subst hj
          simp [CacheState.spawn, CacheState.setJob, CacheState.setPhase, CacheState.setCaller]
        · -- an older compile is another caller's
          rcases CacheState.callers_of_setPhase hk with ⟨-, heq⟩ | ⟨-, hold⟩
          · cases heq
            exact absurd rfl hj
          · calc ((s.spawn i digest c).jobs j).isSome
                = (s.jobs j).isSome := congrArg _ (Function.update_of_ne hj _ _)
              _ = true := h.begun k d c' j hold
      · have hnew : s.started ∉ s.running := fun hmem =>
          absurd (CacheState.mem_running.1 hmem).1 (Nat.lt_irrefl _)
        have hcompiles : (s.spawn i digest c).compiles = s.compiles - 1 := rfl
        rw [running_spawn, Finset.card_insert_of_notMem hnew, hcompiles, ← h.all]
        omega
  | @finish j outcome hrun =>
      have hlt : j < s.started := by
        by_contra hge
        cases (h.fresh j (Nat.le_of_not_lt hge)).symm.trans hrun
      refine ⟨h.keys, fun k hk => ?_, fun i digest c k hx => ?_, ?_⟩
      · have hne : k ≠ j := fun heq => absurd hlt (Nat.not_lt.2 (heq ▸ hk))
        calc (s.finish j outcome).jobs k = s.jobs k := Function.update_of_ne hne _ _
          _ = none := h.fresh k hk
      · have hold := h.begun i digest c k hx
        by_cases hk : k = j
        · subst hk
          simp [CacheState.finish, CacheState.setJob]
        · calc ((s.finish j outcome).jobs k).isSome
              = (s.jobs k).isSome := congrArg _ (Function.update_of_ne hk _ _)
            _ = true := hold
      · have hmem : j ∈ s.running := CacheState.mem_running.2 ⟨hlt, hrun⟩
        have hpos : 0 < s.running.card := Finset.card_pos.2 ⟨j, hmem⟩
        have hcompiles : (s.finish j outcome).compiles = s.compiles + 1 := rfl
        rw [running_finish, Finset.card_erase_of_mem hmem, hcompiles, ← h.all]
        omega

theorem permits_reachable {o : CacheOptions} {s : CacheState μ}
    (h : (cacheSystem μ o).Reachable s) : Permits o s := by
  refine h.invariant ?_ fun s a s' _ hpermits hstep => hpermits.step (threadMove_of_step hstep)
  rintro s rfl
  exact ⟨List.nodup_nil, fun _ _ => rfl, (fun _ _ _ _ hx => by cases hx), rfl⟩

/-- No more compiles than the bound go on at once, whatever calls have been cut short or dropped;
a load waits for its turn only while that many go on, and nothing but its end ends a compile. -/
theorem compiles_bounded (o : CacheOptions) {s : CacheState μ} (hs : (cacheSystem μ o).Reachable s) :
    s.running.card ≤ max 1 o.maxConcurrentCompiles ∧
    (∀ i digest c, s.callers i = some ⟨digest, .loading c .permit⟩ →
      ((cacheStep o s (.spawn i)).isSome = true ↔
        s.running.card < max 1 o.maxConcurrentCompiles)) ∧
    ∀ a s', cacheStep o s a = some s' → ∀ j ∈ s.running, j ∉ s'.running →
      ∃ outcome, a = .finish j outcome := by
  have hpermits := permits_reachable hs
  have hall := hpermits.all
  refine ⟨by omega, fun i digest c hx => ?_, fun a s' hstep j hj hgone => ?_⟩
  · have hstep : cacheStep o s (.spawn i) =
        if 0 < s.compiles then some (s.spawn i digest c) else none := by
      simp only [cacheStep, hx]
    rw [hstep]
    split
    · next hfree => exact ⟨fun _ => by omega, fun _ => rfl⟩
    · next hnone => exact ⟨fun h => Bool.noConfusion h, fun _ => by omega⟩
  · cases threadMove_of_step hstep with
    | still _ _ hstarted hjobs _ =>
        rw [CacheState.mem_running] at hj hgone
        rw [hstarted, hjobs] at hgone
        exact absurd hj hgone
    | spawn _ _ =>
        rw [running_spawn] at hgone
        exact absurd (Finset.mem_insert_of_mem hj) hgone
    | @finish k outcome _ =>
        rw [running_finish] at hgone
        have heq : j = k := by
          by_contra hne
          exact hgone (Finset.mem_erase.2 ⟨hne, hj⟩)
        exact ⟨outcome, heq ▸ rfl⟩

/-! ## Every call returns -/

section Progress

variable {o : CacheOptions} {s s1 : CacheState μ} {a : CacheAction μ} {i : Nat} {digest : Text}
  {c : Nat}

/-- Some moves answer the caller. -/
def Returns (o : CacheOptions) (s : CacheState μ) (i : Nat) (digest : Text) : Prop :=
  ∃ s1 r, Leads (cacheStep o) s s1 ∧ s1.callers i = some ⟨digest, .returned r⟩

theorem Returns.head (hstep : cacheStep o s a = some s1) (h : Returns o s1 i digest) :
    Returns o s i digest := by
  rcases h with ⟨s2, r, hleads, hx⟩
  exact ⟨s2, r, .head hstep hleads, hx⟩

theorem dropped_returns (hkeys : (s.entries.map Prod.fst).Nodup) {r : Except Text μ}
    (hx : s.callers i = some ⟨digest, .dropped r⟩) : Returns o s i digest := by
  cases r with
  | ok m =>
      have hput : ∃ victims entries,
          MemoryTier.put o s.now digest m victims s.entries = some entries := by
        cases hmem : o.noMemory with
        | true => exact ⟨[], s.entries, if_pos hmem⟩
        | false =>
            have hinserted := MemoryTier.inserted_keys hkeys s.now digest m
            rcases MemoryTier.exists_evict o _ _ hinserted (Nat.le_refl _) with ⟨vs, t, hevict⟩
            exact ⟨vs, t, by rw [MemoryTier.put_eq hmem, hevict]⟩
      rcases hput with ⟨victims, entries, hput⟩
      have hstep : cacheStep o s (.put i victims) =
          some ({ s with entries := entries }.setPhase i digest (.returned (.ok m))) := by
        simp only [cacheStep, hx, hput, Option.map_some]
      exact ⟨_, .ok m, .head hstep (.refl _), CacheState.callers_setPhase _ _ _ _⟩
  | error e =>
      have hstep : cacheStep o s (.put i []) =
          some (s.setPhase i digest (.returned (.error e))) := by
        simp only [cacheStep, hx]
      exact ⟨_, .error e, .head hstep (.refl _), CacheState.callers_setPhase _ _ _ _⟩

theorem settled_returns (hkeys : (s.entries.map Prod.fst).Nodup) {r : Except Text μ}
    (hx : s.callers i = some ⟨digest, .settled r⟩) : Returns o s i digest := by
  have hstep : cacheStep o s (.remove i) = some (s.remove i digest r) := by
    simp only [cacheStep, hx]
  have hnext : (s.remove i digest r).callers i = some ⟨digest, .dropped r⟩ :=
    CacheState.callers_setPhase _ _ _ _
  exact .head hstep (dropped_returns hkeys hnext)

/-- Some moves bring the load of a caller to its end, and leave its cell to others. -/
def Lands (o : CacheOptions) (s : CacheState μ) (i : Nat) (digest : Text) (c : Nat) : Prop :=
  ∃ s1 r y, Leads (cacheStep o) s s1 ∧ s1.callers i = some ⟨digest, .settled r⟩ ∧
    (∀ j, j ≠ i → s1.callers j = s.callers j) ∧ s1.cells c = some y ∧ y.holder = none

theorem Lands.head (hstep : cacheStep o s a = some s1)
    (hothers : ∀ j, j ≠ i → s1.callers j = s.callers j) (h : Lands o s1 i digest c) :
    Lands o s i digest c := by
  rcases h with ⟨s2, r, y, hleads, hx, hrest, hy⟩
  exact ⟨s2, r, y, .head hstep hleads, hx, fun j hj => (hrest j hj).trans (hothers j hj), hy⟩

theorem settle_lands {y : FlightCell μ} {r : Except Text μ}
    (hstep : cacheStep o s a = some (s.settle i digest c y r)) : Lands o s i digest c := by
  cases r with
  | ok m =>
      exact ⟨_, .ok m, { y with value := some m, holder := none }, .head hstep (.refl _),
        CacheState.callers_setPhase _ _ _ _, fun j hj => CacheState.callers_setPhase_ne _ hj _ _,
        CacheState.cells_setCell _ _ _, rfl⟩
  | error e =>
      exact ⟨_, .error e, { y with holder := none }, .head hstep (.refl _),
        CacheState.callers_setPhase _ _ _ _, fun j hj => CacheState.callers_setPhase_ne _ hj _ _,
        CacheState.cells_setCell _ _ _, rfl⟩

/-- The cell that a caller sits at. -/
theorem exists_cell (hs : (cacheSystem μ o).Reachable s) {x : Caller μ} {t : Seat}
    (hx : s.callers i = some x) (hseat : x.seat = some (x.digest, t)) :
    ∃ y, s.cells t.cell = some y := by
  have hsits : s.flights.seats i = some (x.digest, t) :=
    (CacheState.seats_of_caller hx).trans hseat
  rcases (cacheInv_of_reachable hs).flights.seated i x.digest t hsits with ⟨z, hz, -⟩
  rcases Option.map_eq_some_iff.1 hz with ⟨y, hy, -⟩
  exact ⟨y, hy⟩

theorem compiling_lands (hs : (cacheSystem μ o).Reachable s) {j : Nat}
    (hx : s.callers i = some ⟨digest, .loading c (.compiling j)⟩) : Lands o s i digest c := by
  rcases exists_cell hs hx (t := .loading c) rfl with ⟨y, hy⟩
  have hjoin : ∀ {t : CacheState μ} {outcome : JobOutcome μ}, t.callers = s.callers →
      t.cells = s.cells → t.jobs j = some (some outcome) → Lands o t i digest c := by
    intro t outcome hcallers hcells hjob
    have hstep : cacheStep o t (.join i) = some (t.settle i digest c y outcome.joined) := by
      have hx' : t.callers i = some ⟨digest, .loading c (.compiling j)⟩ := hcallers ▸ hx
      have hy' : t.cells c = some y := hcells ▸ hy
      simp [cacheStep, hx', hjob, hy']
    exact settle_lands hstep
  rcases Option.isSome_iff_exists.1 ((permits_reachable hs).begun i digest c j hx) with ⟨job, hjob⟩
  cases job with
  | some outcome => exact hjoin rfl rfl hjob
  | none =>
      have hstep : cacheStep o s (.finish j (.panicked [])) = some (s.finish j (.panicked [])) := by
        simp only [cacheStep, hjob]
      have hended : (s.finish j (.panicked [])).jobs j = some (some (.panicked [])) :=
        Function.update_self _ _ _
      exact .head hstep (fun _ _ => rfl) (hjoin rfl rfl hended)

/-- A permit is free once some compile has ended. -/
theorem exists_free (hs : (cacheSystem μ o).Reachable s) :
    ∃ s1, Leads (cacheStep o) s s1 ∧ (cacheSystem μ o).Reachable s1 ∧ s1.callers = s.callers ∧
      0 < s1.compiles := by
  by_cases hfree : 0 < s.compiles
  · exact ⟨s, .refl s, hs, rfl, hfree⟩
  · have hcard : 0 < s.running.card := by
      have hall := (permits_reachable hs).all
      have hone := Nat.le_max_left 1 o.maxConcurrentCompiles
      omega
    rcases Finset.card_pos.1 hcard with ⟨j, hj⟩
    have hstep : cacheStep o s (.finish j (.panicked [])) = some (s.finish j (.panicked [])) := by
      simp only [cacheStep, (CacheState.mem_running.1 hj).2]
    exact ⟨_, .head hstep (.refl _), .step _ hs hstep, rfl, Nat.succ_pos _⟩

theorem permit_lands (hs : (cacheSystem μ o).Reachable s)
    (hx : s.callers i = some ⟨digest, .loading c .permit⟩) : Lands o s i digest c := by
  rcases exists_free hs with ⟨s1, hleads, hs1, hcallers, hfree⟩
  have hx1 : s1.callers i = some ⟨digest, .loading c .permit⟩ := hcallers ▸ hx
  have hspawn : cacheStep o s1 (.spawn i) = some (s1.spawn i digest c) := by
    simp only [cacheStep, hx1, if_pos hfree]
  have hnext : (s1.spawn i digest c).callers i =
      some ⟨digest, .loading c (.compiling s1.started)⟩ := CacheState.callers_setPhase _ _ _ _
  have hlands : Lands o s1 i digest c :=
    .head hspawn (fun j hj => CacheState.callers_setPhase_ne _ hj _ _)
      (compiling_lands (.step _ hs1 hspawn) hnext)
  rcases hlands with ⟨s2, r, y, hmore, hx2, hothers, hy⟩
  exact ⟨s2, r, y, hleads.trans hmore, hx2, fun j hj => hcallers ▸ hothers j hj, hy⟩

theorem loading_lands (hs : (cacheSystem μ o).Reachable s) {p : LoadPhase}
    (hx : s.callers i = some ⟨digest, .loading c p⟩) : Lands o s i digest c := by
  cases p with
  | disk =>
      have hstep : cacheStep o s (.diskMiss i) =
          some (s.setPhase i digest (.loading c .permit)) := by
        simp only [cacheStep, hx]
      exact .head hstep (fun j hj => CacheState.callers_setPhase_ne _ hj _ _)
        (permit_lands (.step _ hs hstep) (CacheState.callers_setPhase _ _ _ _))
  | permit => exact permit_lands hs hx
  | compiling j => exact compiling_lands hs hx

theorem leads_reachable (hs : (cacheSystem μ o).Reachable s) (h : Leads (cacheStep o) s s1) :
    (cacheSystem μ o).Reachable s1 := by
  rcases h with ⟨as, has⟩
  exact TransitionSystem.Reachable.run (fun _ _ _ hstep => hstep) hs has

theorem Lands.returns (hs : (cacheSystem μ o).Reachable s) (h : Lands o s i digest c) :
    Returns o s i digest := by
  rcases h with ⟨s1, r, y, hleads, hx, -⟩
  rcases settled_returns (permits_reachable (leads_reachable hs hleads)).keys hx with
    ⟨s2, r', hmore, hx2⟩
  exact ⟨s2, r', hleads.trans hmore, hx2⟩

/-- At a cell that nobody holds, a caller takes its module or loads one. -/
theorem free_cell_returns (hs : (cacheSystem μ o).Reachable s)
    (hx : s.callers i = some ⟨digest, .waiting c⟩) {y : FlightCell μ} (hy : s.cells c = some y)
    (hfree : y.holder = none) : Returns o s i digest := by
  cases hvalue : y.value with
  | some m =>
      have hstep : cacheStep o s (.ready i) = some (s.setPhase i digest (.settled (.ok m))) := by
        simp [cacheStep, hx, hy, hvalue]
      exact .head hstep (settled_returns (permits_reachable hs).keys
        (CacheState.callers_setPhase _ _ _ _))
  | none =>
      have hstep : cacheStep o s (.acquire i) = some (s.acquire o i digest c y) := by
        simp [cacheStep, hx, hy, hvalue, hfree]
      have hnext := loading_lands (.step _ hs hstep)
        (CacheState.callers_setPhase (s.setCell c { y with holder := some i }) i digest
          (.loading c (if o.disk then .disk else .permit)))
      exact .head hstep (hnext.returns (.step _ hs hstep))

theorem waiting_returns (hs : (cacheSystem μ o).Reachable s)
    (hx : s.callers i = some ⟨digest, .waiting c⟩) : Returns o s i digest := by
  rcases exists_cell hs hx (t := .waiting c) rfl with ⟨y, hy⟩
  cases hholder : y.holder with
  | none => exact free_cell_returns hs hx hy hholder
  | some k =>
      -- the holder's load ends first
      rcases (cacheInv_of_reachable hs).flights.held c y.seatCell k
        (CacheState.cells_of_cell hy) hholder with ⟨d, hseat⟩
      have hloading : ∃ p, s.callers k = some ⟨d, .loading c p⟩ := by
        rcases Option.bind_eq_some_iff.1 hseat with ⟨⟨xdigest, phase⟩, hk, hkseat⟩
        rcases Option.map_eq_some_iff.1 hkseat with ⟨t, ht, heq⟩
        cases heq
        cases phase with
        | loading c' p =>
            cases ht
            exact ⟨p, hk⟩
        | waiting c' => cases ht
        | looking | missed | settled | dropped | returned => cases ht
      rcases hloading with ⟨p, hk⟩
      have hne : i ≠ k := by
        rintro rfl
        cases hx.symm.trans hk
      rcases loading_lands hs hk with ⟨s1, r, z, hleads, -, hothers, hz, hfree⟩
      have hx1 : s1.callers i = some ⟨digest, .waiting c⟩ := (hothers i hne).trans hx
      rcases free_cell_returns (leads_reachable hs hleads) hx1 hz hfree with
        ⟨s2, r', hmore, hx2⟩
      exact ⟨s2, r', hleads.trans hmore, hx2⟩

theorem missed_returns (hs : (cacheSystem μ o).Reachable s)
    (hx : s.callers i = some ⟨digest, .missed⟩) : Returns o s i digest := by
  cases hloading : s.loading digest with
  | some c =>
      have hstep : cacheStep o s (.enter i) = some (s.setPhase i digest (.waiting c)) := by
        simp only [cacheStep, hx, hloading]
      exact .head hstep (waiting_returns (.step _ hs hstep) (CacheState.callers_setPhase _ _ _ _))
  | none =>
      have hstep : cacheStep o s (.enter i) = some (s.launch i digest) := by
        simp only [cacheStep, hx, hloading]
      exact .head hstep (waiting_returns (.step _ hs hstep) (CacheState.callers_setPhase _ _ _ _))

theorem looking_returns (hs : (cacheSystem μ o).Reachable s)
    (hx : s.callers i = some ⟨digest, .looking⟩) : Returns o s i digest := by
  have hstep : cacheStep o s (.lookup i) = some (s.lookup o i digest) := by
    simp only [cacheStep, hx]
  refine .head hstep ?_
  cases hget : (MemoryTier.get o s.now digest s.entries).1 with
  | some m =>
      have hnext : (s.lookup o i digest).callers i = some ⟨digest, .returned (.ok m)⟩ := by
        simp only [CacheState.lookup, CacheState.callers_setPhase, hget]
      exact ⟨_, .ok m, .refl _, hnext⟩
  | none =>
      have hnext : (s.lookup o i digest).callers i = some ⟨digest, .missed⟩ := by
        simp only [CacheState.lookup, CacheState.callers_setPhase, hget]
      exact missed_returns (.step _ hs hstep) hnext

/-- No call is stuck: whatever has happened, each that is still there can be answered. -/
theorem every_call_returns (o : CacheOptions) {s : CacheState μ}
    (hs : (cacheSystem μ o).Reachable s) {i : Nat} {x : Caller μ} (hx : s.callers i = some x) :
    ∃ s1 r, Leads (cacheStep o) s s1 ∧ s1.callers i = some ⟨x.digest, .returned r⟩ := by
  rcases x with ⟨digest, phase⟩
  cases phase with
  | looking => exact looking_returns hs hx
  | missed => exact missed_returns hs hx
  | waiting c => exact waiting_returns hs hx
  | loading c p => exact (loading_lands hs hx).returns hs
  | settled r => exact settled_returns (permits_reachable hs).keys hx
  | dropped r => exact dropped_returns (permits_reachable hs).keys hx
  | returned r => exact ⟨s, r, .refl s, hx⟩

end Progress

/-! ## A compile that takes too long -/

def slowOptions : CacheOptions := { compileTimeout := some 50000000 }

/-- The first call gives up on its compile, and the second has none of its own yet. -/
def slowCompile : List (CacheAction Nat) :=
  [.arrive "a".toList, .lookup 0, .enter 0, .acquire 0, .spawn 0, .timeout 0, .arrive "b".toList,
    .lookup 1, .enter 1, .acquire 1]

theorem exists_slow :
    ∃ s, (cacheSystem Nat slowOptions).Reachable s ∧ s.jobs 0 = some none ∧ 0 < s.started ∧
      s.callers 1 = some ⟨"b".toList, .loading 1 .permit⟩ := by
  have hrun : ∃ s, slowCompile.foldlM (cacheStep slowOptions) (CacheState.new Nat slowOptions) =
      some s ∧ s.jobs 0 = some none ∧ 0 < s.started ∧
        s.callers 1 = some ⟨"b".toList, .loading 1 .permit⟩ := ⟨_, rfl, rfl, Nat.one_pos, rfl⟩
  rcases hrun with ⟨s, hs, hrest⟩
  exact ⟨s, .run (fun _ _ _ h => h) (.init rfl) hs, hrest⟩

/-- The compile that was given up goes on, and the second call waits for it. -/
theorem slow_compile_waits :
    ∃ s, (cacheSystem Nat slowOptions).Reachable s ∧ s.running.card = 1 ∧
      cacheStep slowOptions s (.spawn 1) = none := by
  rcases exists_slow with ⟨s, hs, hjob, hstarted, hx⟩
  rcases compiles_bounded slowOptions hs with ⟨hle, hspawn, -⟩
  have hpos : 0 < s.running.card :=
    Finset.card_pos.2 ⟨0, CacheState.mem_running.2 ⟨hstarted, hjob⟩⟩
  have hone : s.running.card = 1 := Nat.le_antisymm hle hpos
  refine ⟨s, hs, hone, Option.not_isSome_iff_eq_none.1 fun hsome => ?_⟩
  have hlt : s.running.card < 1 := (hspawn 1 _ 1 hx).1 hsome
  exact absurd hpos (Nat.not_lt.2 (Nat.lt_succ_iff.1 hlt))

/-- And is answered in the end. -/
theorem slow_call_returns :
    ∃ s s1 r, (cacheSystem Nat slowOptions).Reachable s ∧ Leads (cacheStep slowOptions) s s1 ∧
      s1.callers 1 = some ⟨"b".toList, .returned r⟩ := by
  rcases exists_slow with ⟨s, hs, -, -, hx⟩
  rcases every_call_returns slowOptions hs hx with ⟨s1, r, hleads, hreturned⟩
  exact ⟨s, s1, r, hs, hleads, hreturned⟩

end FunctionWasm

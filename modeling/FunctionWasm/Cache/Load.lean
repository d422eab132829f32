import FunctionWasm.Cache.Compiles
import FunctionWasm.Cache.Keyed

/-!
# Load — where the modules that the cache answers with are from

The cache with what its loads do: a load looks for the artifact in the keyed store and has the engine
map what it finds, or a thread fetches the module, compiles it and stores the artifact, whether or
not the call still waits for it.

* `loadStep` is every move; `loadSystem_refines` says that the cache sees moves of its own.
* `Trusted` is what is asked of the directory: no entry under another's name, nothing mapped that was
  not handed out.
* `Built` and `Compiled` say what a module is made of, `LoadInv` is what holds in every state.
* `answers_compiled` is where answers are from, errors included.
-/

namespace FunctionWasm

variable {μ : Type}

/-! ## Loads -/

/-- What the engine makes of modules and of their artifacts. -/
structure ModuleEngine (μ : Type) where
  compile : Bytes → Except Text μ
  serialize : μ → Option Bytes
  deserialize : Bytes → Option μ

/-- Where the thread of a compile is: at the fetch, or at the store with a module. -/
inductive LoadThread (μ : Type) where
  | fetching
  | storing (m : μ)

/-- The cache and what its loads have to do with.  `mapping` are the callers whose artifact was found
and is not mapped yet, `keys` the digests that the jobs are for; `fetched` is what was fetched for
which digest, `unfetched` why a fetch for a digest failed. -/
structure LoadState (μ : Type) where
  cache : CacheState μ
  store : Keyed.State
  mapping : Nat → Bool
  keys : Nat → Text
  threads : Nat → Option (LoadThread μ)
  fetched : List (Text × Bytes)
  unfetched : List (Text × Text)

inductive LoadAction (μ : Type) where
  | cache (a : CacheAction μ)
  | path (i : Nat)
  | map (i : Nat) (raw : Bytes)
  | spawn (i : Nat)
  | fetched (j : Nat) (answer : Except Text Bytes)
  | store (j : Nat)
  | panic (j : Nat) (e : Text)

/-- The moves of the cache that its loads have no part in. -/
def CacheAction.plain : CacheAction μ → Bool
  | .diskHit _ _ | .diskMiss _ | .spawn _ | .finish _ _ => false
  | _ => true

section Moves

variable [RegistryLibrary] [MacLibrary] (o : CacheOptions) (engine : ModuleEngine μ) (st : Store)
  (key : StoreKey)

namespace LoadState

def new (store : Keyed.State) : LoadState μ where
  cache := .new μ o
  store := store
  mapping := fun _ => false
  keys := fun _ => []
  threads := fun _ => none
  fetched := []
  unfetched := []

/-- The thread of a job ends, and gives its permit back. -/
def ended (s : LoadState μ) (j : Nat) (outcome : JobOutcome μ) : Option (LoadState μ) :=
  (cacheStep o s.cache (.finish j outcome)).map fun cache =>
    { s with cache := cache, threads := Function.update s.threads j none }

/-- The artifact is stored under the digest, if the engine has one. -/
def stored (s : LoadState μ) (j : Nat) (m : μ) : LoadState μ :=
  if o.disk then
    match engine.serialize m with
    -- best effort: what the store answers is not looked at
    | some artifact => { s with store := Keyed.after st key s.store (.put (s.keys j) artifact) }
    | none => s
  else s

end LoadState

/-- Every move, under any interleaving of calls and threads. -/
def loadStep (s : LoadState μ) : LoadAction μ → Option (LoadState μ)
  | .cache a =>
      if a.plain then (cacheStep o s.cache a).map fun cache => { s with cache := cache } else none
  | .path i =>
      match s.cache.callers i with
      | some ⟨digest, .loading _ .disk⟩ =>
          if s.mapping i then none
          else
            let store := Keyed.after st key s.store (.path digest)
            match ((st.withKey key).path digest s.store.disk).1 with
            | .hit _ =>
                some { s with store := store, mapping := Function.update s.mapping i true }
            | _ =>
                (cacheStep o s.cache (.diskMiss i)).map fun cache =>
                  { s with store := store, cache := cache }
      | _ => none
  | .map i raw =>
      if s.mapping i then
        -- an artifact that the engine refuses is a miss
        let answer := match engine.deserialize raw with
          | some m => .diskHit i m
          | none => .diskMiss i
        (cacheStep o s.cache answer).map fun cache =>
          { s with cache := cache, mapping := Function.update s.mapping i false }
      else none
  | .spawn i =>
      match s.cache.callers i with
      | some ⟨digest, .loading _ .permit⟩ =>
          (cacheStep o s.cache (.spawn i)).map fun cache =>
            { s with
              cache := cache
              keys := Function.update s.keys s.cache.started digest
              threads := Function.update s.threads s.cache.started (some .fetching) }
      | _ => none
  | .fetched j answer =>
      match s.threads j with
      | some .fetching =>
          match answer with
          | .error e =>
              { s with unfetched := (s.keys j, e) :: s.unfetched }.ended o j (.done (.error e))
          | .ok wasm =>
              let s := { s with fetched := (s.keys j, wasm) :: s.fetched }
              match engine.compile wasm with
              | .error e => s.ended o j (.done (.error e))
              | .ok m =>
                  some { s with threads := Function.update s.threads j (some (.storing m)) }
      | _ => none
  | .store j =>
      match s.threads j with
      | some (.storing m) => (s.stored o engine st key j m).ended o j (.done (.ok m))
      | _ => none
  | .panic j e =>
      match s.threads j with
      | some _ => s.ended o j (.panicked e)
      | none => none

/-- The runs of a process, which starts with some directory and a fresh key. -/
def loadSystem : TransitionSystem (LoadState μ) (LoadAction μ) where
  init s := ∃ store, store.puts = [] ∧ store.hits = [] ∧ s = .new o store
  step s a s' := loadStep o engine st key s a = some s'

/-- What is found under a digest was put under it, and what is mapped for it was found or put
there. -/
def Trusted (s : LoadState μ) : LoadAction μ → Prop
  | .path i =>
      ∀ digest c, s.cache.callers i = some ⟨digest, .loading c .disk⟩ →
        Keyed.Unforged st key s.store (.path digest) ∧ Keyed.NotReplayed st key s.store (.path digest)
  | .map i raw =>
      ∀ digest c, s.cache.callers i = some ⟨digest, .loading c .disk⟩ →
        (digest, raw) ∈ s.store.hits ∨ (digest, raw) ∈ s.store.puts
  | _ => True

end Moves

/-! ## What a step can do -/

section Steps

variable [RegistryLibrary] [MacLibrary] {o : CacheOptions} {engine : ModuleEngine μ} {st : Store}
  {key : StoreKey}

/-- The state after the thread of a job has ended. -/
def LoadState.closed (s : LoadState μ) (j : Nat) (outcome : JobOutcome μ) : LoadState μ :=
  { s with cache := s.cache.finish j outcome, threads := Function.update s.threads j none }

/-- To store an artifact changes nothing but the store. -/
theorem LoadState.stored_eq (s : LoadState μ) (j : Nat) (m : μ) :
    s.stored o engine st key j m =
      { s with store := (s.stored o engine st key j m).store } := by
  unfold LoadState.stored
  split
  · split <;> rfl
  · rfl

theorem LoadState.stored_cache (s : LoadState μ) (j : Nat) (m : μ) :
    (s.stored o engine st key j m).cache = s.cache := by
  rw [s.stored_eq]

omit [RegistryLibrary] [MacLibrary] in
theorem ended_eq_some {s s' : LoadState μ} {j : Nat} {outcome : JobOutcome μ}
    (h : s.ended o j outcome = some s') : s.cache.jobs j = some none ∧ s' = s.closed j outcome := by
  rcases Option.map_eq_some_iff.1 h with ⟨cache, hstep, rfl⟩
  cases cacheEdge_of_step hstep with
  | finish hjob outcome => exact ⟨hjob, rfl⟩

inductive LoadMove (o : CacheOptions) (engine : ModuleEngine μ) (st : Store) (key : StoreKey)
    (s : LoadState μ) : LoadAction μ → LoadState μ → Prop where
  | cache {a : CacheAction μ} {cache : CacheState μ} (hplain : a.plain = true)
      (hstep : cacheStep o s.cache a = some cache) :
      LoadMove o engine st key s (.cache a) { s with cache := cache }
  | found {i : Nat} {digest : Text} {c : Nat}
      (hx : s.cache.callers i = some ⟨digest, .loading c .disk⟩) :
      LoadMove o engine st key s (.path i)
        { s with
          store := Keyed.after st key s.store (.path digest)
          mapping := Function.update s.mapping i true }
  | missing {i : Nat} {digest : Text} {c : Nat} {cache : CacheState μ}
      (hx : s.cache.callers i = some ⟨digest, .loading c .disk⟩)
      (hstep : cacheStep o s.cache (.diskMiss i) = some cache) :
      LoadMove o engine st key s (.path i)
        { s with store := Keyed.after st key s.store (.path digest), cache := cache }
  | mapped {i : Nat} {raw : Bytes} {m : μ} {cache : CacheState μ}
      (hm : engine.deserialize raw = some m) (hstep : cacheStep o s.cache (.diskHit i m) = some cache) :
      LoadMove o engine st key s (.map i raw)
        { s with cache := cache, mapping := Function.update s.mapping i false }
  | refused {i : Nat} {raw : Bytes} {cache : CacheState μ} (hm : engine.deserialize raw = none)
      (hstep : cacheStep o s.cache (.diskMiss i) = some cache) :
      LoadMove o engine st key s (.map i raw)
        { s with cache := cache, mapping := Function.update s.mapping i false }
  | spawn {i : Nat} {digest : Text} {c : Nat}
      (hx : s.cache.callers i = some ⟨digest, .loading c .permit⟩) (hfree : 0 < s.cache.compiles) :
      LoadMove o engine st key s (.spawn i)
        { s with
          cache := s.cache.spawn i digest c
          keys := Function.update s.keys s.cache.started digest
          threads := Function.update s.threads s.cache.started (some .fetching) }
  | unfetched {j : Nat} {e : Text} (hjob : s.cache.jobs j = some none)
      (hthread : s.threads j = some .fetching) :
      LoadMove o engine st key s (.fetched j (.error e))
        ({ s with unfetched := (s.keys j, e) :: s.unfetched }.closed j (.done (.error e)))
  | uncompiled {j : Nat} {wasm : Bytes} {e : Text} (hjob : s.cache.jobs j = some none)
      (hthread : s.threads j = some .fetching) (hcompile : engine.compile wasm = .error e) :
      LoadMove o engine st key s (.fetched j (.ok wasm))
        ({ s with fetched := (s.keys j, wasm) :: s.fetched }.closed j (.done (.error e)))
  | compiled {j : Nat} {wasm : Bytes} {m : μ} (hthread : s.threads j = some .fetching)
      (hcompile : engine.compile wasm = .ok m) :
      LoadMove o engine st key s (.fetched j (.ok wasm))
        { s with
          fetched := (s.keys j, wasm) :: s.fetched
          threads := Function.update s.threads j (some (.storing m)) }
  | stored {j : Nat} {m : μ} (hjob : s.cache.jobs j = some none)
      (hthread : s.threads j = some (.storing m)) :
      LoadMove o engine st key s (.store j)
        ((s.stored o engine st key j m).closed j (.done (.ok m)))
  | panicked {j : Nat} {t : LoadThread μ} (hjob : s.cache.jobs j = some none)
      (hthread : s.threads j = some t) (e : Text) :
      LoadMove o engine st key s (.panic j e) (s.closed j (.panicked e))

theorem loadMove_of_step {s s' : LoadState μ} {a : LoadAction μ}
    (h : loadStep o engine st key s a = some s') : LoadMove o engine st key s a s' := by
  cases a with
  | cache a =>
      simp only [loadStep] at h
      split at h
      · next hplain =>
          rcases Option.map_eq_some_iff.1 h with ⟨cache, hstep, rfl⟩
          exact .cache hplain hstep
      · cases h
  | path i =>
      simp only [loadStep] at h
      split at h
      · next hx =>
          split at h
          · cases h
          · split at h
            · cases h
              exact .found hx
            · rcases Option.map_eq_some_iff.1 h with ⟨cache, hstep, rfl⟩
              exact .missing hx hstep
      · cases h
  | map i raw =>
      simp only [loadStep] at h
      split at h
      · rcases Option.map_eq_some_iff.1 h with ⟨cache, hstep, rfl⟩
        split at hstep
        · next hm => exact .mapped hm hstep
        · next hm => exact .refused hm hstep
      · cases h
  | spawn i =>
      simp only [loadStep] at h
      split at h
      · next hx =>
          rcases Option.map_eq_some_iff.1 h with ⟨cache, hstep, rfl⟩
          cases cacheEdge_of_step hstep with
          | spawn hx' hfree =>
              cases hx.symm.trans hx'
              exact .spawn hx hfree
      · cases h
  | fetched j answer =>
      simp only [loadStep] at h
      split at h
      · next hthread =>
          split at h
          · rcases ended_eq_some h with ⟨hjob, rfl⟩
            exact .unfetched hjob hthread
          · split at h
            · next hcompile =>
                rcases ended_eq_some h with ⟨hjob, rfl⟩
                exact .uncompiled hjob hthread hcompile
            · next hcompile =>
                cases h
                exact .compiled hthread hcompile
      · cases h
  | store j =>
      simp only [loadStep] at h
      split at h
      · next hthread =>
          rcases ended_eq_some h with ⟨hjob, rfl⟩
          exact .stored (s.stored_cache j _ ▸ hjob) hthread
      · cases h
  | panic j e =>
      simp only [loadStep] at h
      split at h
      · next hthread =>
          rcases ended_eq_some h with ⟨hjob, rfl⟩
          exact .panicked hjob hthread e
      · cases h

/-- What the cache makes of every run is a run of its own. -/
theorem loadSystem_refines :
    TransitionSystem.Refines LoadState.cache (loadSystem o engine st key) (cacheSystem μ o) where
  init s h := by
    rcases h with ⟨store, -, -, rfl⟩
    rfl
  step s a s' h := by
    have hover : ∀ {t : LoadState μ} {j : Nat} (outcome : JobOutcome μ), t.cache = s.cache →
        s.cache.jobs j = some none → (t.closed j outcome).cache = s.cache ∨
          ∃ b, (cacheSystem μ o).step s.cache b (t.closed j outcome).cache := by
      intro t j outcome hsame hjob
      refine Or.inr ⟨.finish j outcome, ?_⟩
      have hcache : (t.closed j outcome).cache = s.cache.finish j outcome := by
        rw [← hsame]
        rfl
      rw [hcache]
      simp only [cacheSystem, cacheStep, hjob]
    cases loadMove_of_step h with
    | cache hplain hstep => exact Or.inr ⟨_, hstep⟩
    | found hx => exact Or.inl rfl
    | missing hx hstep => exact Or.inr ⟨_, hstep⟩
    | mapped hm hstep => exact Or.inr ⟨_, hstep⟩
    | refused hm hstep => exact Or.inr ⟨_, hstep⟩
    | @spawn i digest c hx hfree =>
        refine Or.inr ⟨.spawn i, ?_⟩
        simp only [cacheSystem, cacheStep, hx, if_pos hfree]
    | unfetched hjob hthread => exact hover _ rfl hjob
    | uncompiled hjob hthread hcompile => exact hover _ rfl hjob
    | compiled hthread hcompile => exact Or.inl rfl
    | stored hjob hthread => exact hover _ (s.stored_cache _ _) hjob
    | panicked hjob hthread e => exact hover _ rfl hjob

end Steps

/-! ## What a module is made of -/

section Sources

variable (o : CacheOptions) (engine : ModuleEngine μ)

/-- The engine compiled the module from bytes that were fetched for the digest. -/
def Built (fetched : List (Text × Bytes)) (digest : Text) (m : μ) : Prop :=
  ∃ wasm, (digest, wasm) ∈ fetched ∧ engine.compile wasm = .ok m

/-- It is a module that was built for the digest, or read back from the artifact of one. -/
def Compiled (fetched : List (Text × Bytes)) (digest : Text) (m : μ) : Prop :=
  ∃ m0, Built engine fetched digest m0 ∧
    (m = m0 ∨ ∃ artifact, engine.serialize m0 = some artifact ∧
      engine.deserialize artifact = some m)

/-- Why a call has no module. -/
inductive LoadFailure (fetched : List (Text × Bytes)) (unfetched : List (Text × Text))
    (digest : Text) : Text → Prop where
  | fetch {e : Text} (h : (digest, e) ∈ unfetched) : LoadFailure fetched unfetched digest e
  | compile {wasm : Bytes} {e : Text} (h : (digest, wasm) ∈ fetched)
      (hcompile : engine.compile wasm = .error e) : LoadFailure fetched unfetched digest e
  | panic (e : Text) :
      LoadFailure fetched unfetched digest ("internal error while loading the module: ".toList ++ e)
  | timeout {bound : Nat} (h : o.compileTimeout = some bound) :
      LoadFailure fetched unfetched digest (compileExceeded bound)

variable {o engine} {fetched fetched' : List (Text × Bytes)}
  {unfetched unfetched' : List (Text × Text)}
  {digest : Text}

theorem Built.mono (hsub : fetched ⊆ fetched') {m : μ} (h : Built engine fetched digest m) :
    Built engine fetched' digest m := by
  rcases h with ⟨wasm, hwasm, hcompile⟩
  exact ⟨wasm, hsub hwasm, hcompile⟩

theorem Compiled.mono (hsub : fetched ⊆ fetched') {m : μ} (h : Compiled engine fetched digest m) :
    Compiled engine fetched' digest m := by
  rcases h with ⟨m0, hbuilt, hsame⟩
  exact ⟨m0, hbuilt.mono hsub, hsame⟩

theorem LoadFailure.mono (hsub : fetched ⊆ fetched') (hsub' : unfetched ⊆ unfetched') {e : Text}
    (h : LoadFailure o engine fetched unfetched digest e) :
    LoadFailure o engine fetched' unfetched' digest e := by
  cases h with
  | fetch h => exact .fetch (hsub' h)
  | compile h hcompile => exact .compile (hsub h) hcompile
  | panic e => exact .panic e
  | timeout h => exact .timeout h

end Sources

/-! ## What the cache learns of a load -/

section Results

variable {o : CacheOptions} {s s' : CacheState μ} {a : CacheAction μ}

/-- A module is loaded off the disk or from a job. -/
theorem loaded_of_step (h : cacheStep o s a = some s') {digest : Text} {m : μ}
    (hloaded : (digest, m) ∈ s'.loaded) :
    (digest, m) ∈ s.loaded ∨
      (∃ i c, a = .diskHit i m ∧ s.callers i = some ⟨digest, .loading c .disk⟩) ∨
      ∃ i c j outcome, s.callers i = some ⟨digest, .loading c (.compiling j)⟩ ∧
        s.jobs j = some (some outcome) ∧ outcome.joined = .ok m := by
  have hsettle : ∀ {i : Nat} {d : Text} {c : Nat} {y : FlightCell μ} {r : Except Text μ},
      (digest, m) ∈ (s.settle i d c y r).loaded →
        (digest, m) ∈ s.loaded ∨ (d = digest ∧ r = .ok m) := by
    intro i d c y r hmem
    cases r with
    | ok m' =>
        rcases List.mem_cons.1 hmem with heq | hold
        · cases heq
          exact Or.inr ⟨rfl, rfl⟩
        · exact Or.inl hold
    | error e => exact Or.inl hmem
  cases cacheEdge_of_step h with
  | @diskHit i d c y hx hy m' =>
      rcases hsettle hloaded with hold | ⟨rfl, heq⟩
      · exact Or.inl hold
      · cases heq
        exact Or.inr (Or.inl ⟨i, c, rfl, hx⟩)
  | @join i d c j y outcome hx hjob hy =>
      rcases hsettle hloaded with hold | ⟨rfl, heq⟩
      · exact Or.inl hold
      · exact Or.inr (Or.inr ⟨i, c, j, outcome, hx, hjob, heq⟩)
  | timeout hx hbound hjob hy =>
      rcases hsettle hloaded with hold | ⟨rfl, heq⟩
      · exact Or.inl hold
      · cases heq
  | _ => exact Or.inl hloaded

/-- A call for a digest has failed. -/
def FailedWith (s : CacheState μ) (i : Nat) (digest e : Text) : Prop :=
  ∃ y, s.callers i = some y ∧ y.digest = digest ∧ y.phase.result = some (.error e)

section Failures

variable {t : CacheState μ} {i k : Nat} {x : Caller μ} {d e : Text} {p : GetPhase μ}

/-- The phase that a call is set to says whether it fails. -/
theorem failed_setPhase (ht : t.callers = s.callers) (he : x.phase.result = some (.error e))
    (hi : (t.setPhase k d p).callers i = some x) :
    FailedWith s i x.digest e ∨ (i = k ∧ d = x.digest ∧ p.result = some (.error e)) := by
  rcases CacheState.callers_of_setPhase hi with ⟨hik, rfl⟩ | ⟨-, hold⟩
  · exact Or.inr ⟨hik, rfl, he⟩
  · exact Or.inl ⟨x, ht ▸ hold, rfl, he⟩

/-- Most moves do not fail a call. -/
theorem failed_quiet (ht : t.callers = s.callers) (he : x.phase.result = some (.error e))
    (hp : ∀ e, p.result ≠ some (.error e)) (hi : (t.setPhase k d p).callers i = some x) :
    FailedWith s i x.digest e := by
  rcases failed_setPhase ht he hi with hold | ⟨-, -, hr⟩
  · exact hold
  · exact absurd hr (hp e)

theorem failed_gone (ht : t.callers = s.callers) (he : x.phase.result = some (.error e))
    (hi : (t.setCaller k none).callers i = some x) : FailedWith s i x.digest e := by
  by_cases hik : i = k
  · subst hik
    simp [CacheState.setCaller] at hi
  · refine ⟨x, ?_, rfl, he⟩
    rw [← ht]
    simpa [CacheState.setCaller, hik] using hi

theorem failed_settle {c : Nat} {y : FlightCell μ} {r : Except Text μ}
    (he : x.phase.result = some (.error e)) (hi : (s.settle k d c y r).callers i = some x) :
    FailedWith s i x.digest e ∨ (i = k ∧ d = x.digest ∧ r = .error e) := by
  cases r with
  | ok m =>
      rcases failed_setPhase (t := { s.setCell c { y with value := some m, holder := none } with
        loaded := (d, m) :: s.loaded }) rfl he hi with hold | ⟨-, -, hr⟩
      · exact Or.inl hold
      · cases hr
  | error e' =>
      rcases failed_setPhase (t := s.setCell c { y with holder := none }) rfl he hi
        with hold | ⟨hik, hd, hr⟩
      · exact Or.inl hold
      · exact Or.inr ⟨hik, hd, Option.some.inj hr⟩

end Failures

/-- A call fails with what its job came to, or for the time it takes. -/
theorem failed_of_step (h : cacheStep o s a = some s') {i : Nat} {x : Caller μ} {e : Text}
    (hx : s'.callers i = some x) (he : x.phase.result = some (.error e)) :
    FailedWith s i x.digest e ∨
      (∃ c j outcome, s.callers i = some ⟨x.digest, .loading c (.compiling j)⟩ ∧
        s.jobs j = some (some outcome) ∧ outcome.joined = .error e) ∨
      ∃ bound, o.compileTimeout = some bound ∧ e = compileExceeded bound := by
  cases cacheEdge_of_step h with
  | elapse d => exact Or.inl ⟨x, hx, rfl, he⟩
  | finish hjob outcome => exact Or.inl ⟨x, hx, rfl, he⟩
  | arrive digest =>
      exact Or.inl (failed_quiet (t := { s with arrived := s.arrived + 1 }) rfl he
        (fun _ h => by cases h) hx)
  | @lookup k digest hk =>
      refine Or.inl (failed_quiet
        (t := { s with entries := (MemoryTier.get o s.now digest s.entries).2 }) rfl he
        (fun _ h => ?_) hx)
      -- memory answers with a module or not at all
      split at h <;> cases h
  | @launch k digest hk hc =>
      exact Or.inl (failed_quiet
        (t := { s.setCell s.made { digest := digest, value := none, holder := none } with
          loading := Function.update s.loading digest (some s.made), made := s.made + 1 }) rfl he
        (fun _ h => by cases h) hx)
  | acquire hk hy hvalue hfree =>
      exact Or.inl (failed_quiet (t := s.setCell _ _) rfl he (fun _ h => by cases h) hx)
  | enter hk hc => exact Or.inl (failed_quiet rfl he (fun _ h => by cases h) hx)
  | ready hk hy hm => exact Or.inl (failed_quiet rfl he (fun _ h => by cases h) hx)
  | diskMiss hk => exact Or.inl (failed_quiet rfl he (fun _ h => by cases h) hx)
  | @spawn k digest c hk hfree =>
      exact Or.inl (failed_quiet (t := { s.setJob s.started none with
        compiles := s.compiles - 1, started := s.started + 1 }) rfl he (fun _ h => by cases h) hx)
  | diskHit hk hy m =>
      rcases failed_settle he hx with hold | ⟨-, -, hr⟩
      · exact Or.inl hold
      · cases hr
  | @join k d c j y outcome hk hjob hy =>
      rcases failed_settle he hx with hold | ⟨rfl, rfl, hr⟩
      · exact Or.inl hold
      · exact Or.inr (Or.inl ⟨c, j, outcome, hk, hjob, hr⟩)
  | @timeout k d c j y bound hk hbound hjob hy =>
      rcases failed_settle he hx with hold | ⟨-, -, hr⟩
      · exact Or.inl hold
      · exact Or.inr (Or.inr ⟨bound, hbound, (Except.error.inj hr).symm⟩)
  | @remove k digest r hk =>
      rcases failed_setPhase (t := { s with loading := Function.update s.loading digest none }) rfl
        he hx with hold | ⟨rfl, hd, hr⟩
      · exact Or.inl hold
      · exact Or.inl ⟨_, hk, hd, hr⟩
  | @put k digest m victims entries hk hput =>
      exact Or.inl (failed_quiet (t := { s with entries := entries }) rfl he
        (fun _ h => by cases h) hx)
  | @fail k digest e' hk victims =>
      rcases failed_setPhase rfl he hx with hold | ⟨rfl, hd, hr⟩
      · exact Or.inl hold
      · exact Or.inl ⟨_, hk, hd, hr⟩
  | leave hk hidle => exact Or.inl (failed_gone rfl he hx)
  | abandon hk hy => exact Or.inl (failed_gone (t := s.setCell _ _) rfl he hx)

end Results

/-! ## What holds in every state -/

section Invariant

variable [RegistryLibrary] [MacLibrary] {o : CacheOptions} {engine : ModuleEngine μ} {st : Store}
  {key : StoreKey}

/-- Artifacts, jobs and results are of the digest that they are under. -/
structure LoadInv (o : CacheOptions) (engine : ModuleEngine μ) (s : LoadState μ) : Prop where
  authentic : Keyed.Authentic s.store
  puts : ∀ p ∈ s.store.puts, ∃ m, Built engine s.fetched p.1 m ∧ engine.serialize m = some p.2
  begun : ∀ j t, s.threads j = some t → j < s.cache.started
  storing : ∀ j m, s.threads j = some (.storing m) → Built engine s.fetched (s.keys j) m
  working : ∀ i digest c j, s.cache.callers i = some ⟨digest, .loading c (.compiling j)⟩ →
    s.keys j = digest
  done : ∀ j m, s.cache.jobs j = some (some (.done (.ok m))) →
    Built engine s.fetched (s.keys j) m
  kept : ∀ j m artifact, s.cache.jobs j = some (some (.done (.ok m))) → o.disk = true →
    engine.serialize m = some artifact → (s.keys j, artifact) ∈ s.store.puts
  broken : ∀ j outcome e, s.cache.jobs j = some (some outcome) → outcome.joined = .error e →
    LoadFailure o engine s.fetched s.unfetched (s.keys j) e
  loaded : ∀ p ∈ s.cache.loaded, Compiled engine s.fetched p.1 p.2
  failed : ∀ i x e, s.cache.callers i = some x → x.phase.result = some (.error e) →
    LoadFailure o engine s.fetched s.unfetched x.digest e

omit [RegistryLibrary] [MacLibrary] in
/-- A move of the cache in which no job begins or ends, and nothing comes off the disk but what was
compiled. -/
theorem LoadInv.cacheMove {s : LoadState μ} {a : CacheAction μ} {cache : CacheState μ}
    (h : LoadInv o engine s) (hstep : cacheStep o s.cache a = some cache)
    (hspawn : ∀ i, a ≠ .spawn i) (hfinish : ∀ j outcome, a ≠ .finish j outcome)
    (hdisk : ∀ i m digest c, a = .diskHit i m →
      s.cache.callers i = some ⟨digest, .loading c .disk⟩ → Compiled engine s.fetched digest m)
    (mapping : Nat → Bool) :
    LoadInv o engine { s with cache := cache, mapping := mapping } := by
  have hthreads : cache.started = s.cache.started ∧ cache.jobs = s.cache.jobs ∧
      ∀ i digest c j, cache.callers i = some ⟨digest, .loading c (.compiling j)⟩ →
        s.cache.callers i = some ⟨digest, .loading c (.compiling j)⟩ := by
    cases threadMove_of_step hstep with
    | still _ _ hstarted hjobs hcallers => exact ⟨hstarted, hjobs, hcallers⟩
    | @spawn i digest c hx hfree => exact absurd rfl (hspawn i)
    | @finish j outcome hrun => exact absurd rfl (hfinish j outcome)
  rcases hthreads with ⟨hstarted, hjobs, hcompiling⟩
  refine ⟨h.authentic, h.puts, fun j t ht => ?_, h.storing, fun i digest c j hx => ?_,
    fun j m hj => ?_, fun j m artifact hj => ?_, fun j outcome e hj => ?_, fun p hp => ?_,
    fun i x e hx he => ?_⟩
  · exact lt_of_lt_of_eq (h.begun j t ht) hstarted.symm
  · exact h.working i digest c j (hcompiling i digest c j hx)
  · exact h.done j m (hjobs ▸ hj)
  · exact h.kept j m artifact (hjobs ▸ hj)
  · exact h.broken j outcome e (hjobs ▸ hj)
  · rcases loaded_of_step hstep hp with hold | ⟨i, c, rfl, hx⟩ | ⟨i, c, j, outcome, hx, hjob, hok⟩
    · exact h.loaded p hold
    · exact hdisk i p.2 p.1 c rfl hx
    · -- what the job came to was built for the digest it is for
      have hkey : s.keys j = p.1 := h.working i p.1 c j hx
      cases outcome with
      | done r =>
          have hr : r = .ok p.2 := hok
          subst hr
          exact ⟨p.2, hkey ▸ h.done j p.2 hjob, Or.inl rfl⟩
      | panicked e => cases hok
  · rcases failed_of_step hstep hx he with ⟨y, hy, hdigest, hye⟩ |
      ⟨c, j, outcome, hy, hjob, herror⟩ | ⟨bound, hbound, rfl⟩
    · exact hdigest ▸ h.failed i y e hy hye
    · exact h.working i x.digest c j hy ▸ h.broken j outcome e hjob herror
    · exact .timeout hbound

omit [RegistryLibrary] [MacLibrary] in
/-- More is known of what was fetched. -/
theorem LoadInv.learn {s : LoadState μ} (h : LoadInv o engine s) {fetched : List (Text × Bytes)}
    {unfetched : List (Text × Text)} (hsub : s.fetched ⊆ fetched)
    (hsub' : s.unfetched ⊆ unfetched) :
    LoadInv o engine { s with fetched := fetched, unfetched := unfetched } where
  authentic := h.authentic
  puts p hp := by
    rcases h.puts p hp with ⟨m, hbuilt, hartifact⟩
    exact ⟨m, hbuilt.mono hsub, hartifact⟩
  begun := h.begun
  storing j m hj := (h.storing j m hj).mono hsub
  working := h.working
  done j m hj := (h.done j m hj).mono hsub
  kept := h.kept
  broken j outcome e hj he := (h.broken j outcome e hj he).mono hsub hsub'
  loaded p hp := (h.loaded p hp).mono hsub
  failed i x e hx he := (h.failed i x e hx he).mono hsub hsub'

omit [RegistryLibrary] [MacLibrary] in
/-- The thread of a job ends with what its digest's bytes came to. -/
theorem LoadInv.closed {s : LoadState μ} (h : LoadInv o engine s) {j : Nat} {outcome : JobOutcome μ}
    (hdone : ∀ m, outcome = .done (.ok m) → Built engine s.fetched (s.keys j) m ∧
      ∀ artifact, o.disk = true → engine.serialize m = some artifact →
        (s.keys j, artifact) ∈ s.store.puts)
    (hbroken : ∀ e, outcome.joined = .error e →
      LoadFailure o engine s.fetched s.unfetched (s.keys j) e) :
    LoadInv o engine (s.closed j outcome) := by
  -- of the outcomes only this one is new, and its thread is gone
  have hjob : ∀ {k outcome'}, (s.closed j outcome).cache.jobs k = some (some outcome') →
      (k = j ∧ outcome' = outcome) ∨ s.cache.jobs k = some (some outcome') := by
    intro k outcome' hk
    by_cases hkj : k = j
    · subst hkj
      have hself : (s.closed k outcome).cache.jobs k = some (some outcome) :=
        Function.update_self _ _ _
      cases hself.symm.trans hk
      exact Or.inl ⟨rfl, rfl⟩
    · have hother : (s.closed j outcome).cache.jobs k = s.cache.jobs k :=
        Function.update_of_ne hkj _ _
      exact Or.inr (hother.symm.trans hk)
  have hthread : ∀ {k t}, (s.closed j outcome).threads k = some t → s.threads k = some t := by
    intro k t hk
    by_cases hkj : k = j
    · subst hkj
      have hself : (s.closed k outcome).threads k = none := Function.update_self _ _ _
      cases hself.symm.trans hk
    · have hother : (s.closed j outcome).threads k = s.threads k := Function.update_of_ne hkj _ _
      exact hother.symm.trans hk
  refine ⟨h.authentic, h.puts, fun k t hk => h.begun k t (hthread hk),
    fun k m hk => h.storing k m (hthread hk), h.working, fun k m hk => ?_,
    fun k m artifact hk hdisk hartifact => ?_, fun k outcome' e hk he => ?_, h.loaded, h.failed⟩
  · rcases hjob hk with ⟨rfl, heq⟩ | hold
    · exact (hdone m heq.symm).1
    · exact h.done k m hold
  · rcases hjob hk with ⟨rfl, heq⟩ | hold
    · exact (hdone m heq.symm).2 artifact hdisk hartifact
    · exact h.kept k m artifact hold hdisk hartifact
  · rcases hjob hk with ⟨rfl, rfl⟩ | hold
    · exact hbroken e he
    · exact h.broken k outcome' e hold he

theorem LoadInv.path {s : LoadState μ} (h : LoadInv o engine s) {digest : Text}
    (hforge : Keyed.Unforged st key s.store (.path digest))
    (hreplay : Keyed.NotReplayed st key s.store (.path digest)) :
    LoadInv o engine { s with store := Keyed.after st key s.store (.path digest) } :=
  { h with authentic := Keyed.authentic_after h.authentic hforge hreplay }

omit [RegistryLibrary] [MacLibrary] in
/-- A job begins for the digest of the caller whose load it is. -/
theorem LoadInv.spawn {s : LoadState μ} (h : LoadInv o engine s) (hpermits : Permits o s.cache)
    {i : Nat} {digest : Text} {c : Nat} :
    LoadInv o engine
      { s with
        cache := s.cache.spawn i digest c
        keys := Function.update s.keys s.cache.started digest
        threads := Function.update s.threads s.cache.started (some .fetching) } := by
  -- the new job has a number that none had before
  have hkeys : ∀ {j}, j ≠ s.cache.started →
      Function.update s.keys s.cache.started digest j = s.keys j :=
    fun hj => Function.update_of_ne hj _ _
  have hjob : ∀ {j outcome}, (s.cache.spawn i digest c).jobs j = some (some outcome) →
      j ≠ s.cache.started ∧ s.cache.jobs j = some (some outcome) := by
    intro j outcome hj
    by_cases hnew : j = s.cache.started
    · subst hnew
      have hself : (s.cache.spawn i digest c).jobs s.cache.started = some none :=
        Function.update_self _ _ _
      cases hself.symm.trans hj
    · have hother : (s.cache.spawn i digest c).jobs j = s.cache.jobs j :=
        Function.update_of_ne hnew _ _
      exact ⟨hnew, hother.symm.trans hj⟩
  have hthread : ∀ {j t}, Function.update s.threads s.cache.started (some .fetching) j = some t →
      (j = s.cache.started ∧ t = .fetching) ∨ (j ≠ s.cache.started ∧ s.threads j = some t) := by
    intro j t hj
    by_cases hnew : j = s.cache.started
    · subst hnew
      rw [Function.update_self] at hj
      exact Or.inl ⟨rfl, (Option.some.inj hj).symm⟩
    · rw [Function.update_of_ne hnew] at hj
      exact Or.inr ⟨hnew, hj⟩
  refine ⟨h.authentic, h.puts, fun j t hj => ?_, fun j m hj => ?_, fun k d c' j hk => ?_,
    fun j m hj => ?_, fun j m artifact hj hdisk hartifact => ?_, fun j outcome e hj he => ?_,
    h.loaded, fun k x e hk he => ?_⟩
  · rcases hthread hj with ⟨rfl, -⟩ | ⟨-, hold⟩
    · exact Nat.lt_succ_self _
    · exact Nat.lt_succ_of_lt (h.begun j t hold)
  · rcases hthread hj with ⟨-, hfetching⟩ | ⟨hne, hold⟩
    · cases hfetching
    · dsimp only
      rw [hkeys hne]
      exact h.storing j m hold
  · rcases CacheState.callers_of_setPhase hk with ⟨-, heq⟩ | ⟨-, hold⟩
    · cases heq
      exact Function.update_self _ _ _
    · -- an older job has begun, so its number is not the new one's
      have hbegun := hpermits.begun k d c' j hold
      have hne : j ≠ s.cache.started := by
        rintro rfl
        rw [hpermits.fresh _ (Nat.le_refl _)] at hbegun
        cases hbegun
      exact (hkeys hne).trans (h.working k d c' j hold)
  · rcases hjob hj with ⟨hne, hold⟩
    dsimp only
    rw [hkeys hne]
    exact h.done j m hold
  · rcases hjob hj with ⟨hne, hold⟩
    dsimp only
    rw [hkeys hne]
    exact h.kept j m artifact hold hdisk hartifact
  · rcases hjob hj with ⟨hne, hold⟩
    dsimp only
    rw [hkeys hne]
    exact h.broken j outcome e hold he
  · rcases CacheState.callers_of_setPhase hk with ⟨-, rfl⟩ | ⟨-, hold⟩
    · cases he
    · exact h.failed k x e hold he

omit [RegistryLibrary] [MacLibrary] in
/-- A thread goes on to store what it has built. -/
theorem LoadInv.built {s : LoadState μ} (h : LoadInv o engine s) {j : Nat} {t : LoadThread μ}
    (hthread : s.threads j = some t) {m : μ} (hbuilt : Built engine s.fetched (s.keys j) m) :
    LoadInv o engine { s with threads := Function.update s.threads j (some (.storing m)) } := by
  refine { h with begun := fun k u hk => ?_, storing := fun k m' hk => ?_ }
  · by_cases hkj : k = j
    · exact hkj ▸ h.begun j t hthread
    · exact h.begun k u ((Function.update_of_ne hkj _ _).symm.trans hk)
  · by_cases hkj : k = j
    · subst hkj
      cases (Function.update_self k _ s.threads).symm.trans hk
      exact hbuilt
    · exact h.storing k m' ((Function.update_of_ne hkj _ _).symm.trans hk)

/-- Storing the artifact of what was built for the digest. -/
theorem LoadInv.stored {s : LoadState μ} (h : LoadInv o engine s) (st : Store) (key : StoreKey)
    {j : Nat} {m : μ} (hbuilt : Built engine s.fetched (s.keys j) m) :
    LoadInv o engine (s.stored o engine st key j m) ∧
      ∀ artifact, o.disk = true → engine.serialize m = some artifact →
        (s.keys j, artifact) ∈ (s.stored o engine st key j m).store.puts := by
  unfold LoadState.stored
  by_cases hdisk : o.disk = true
  · rw [if_pos hdisk]
    cases hartifact : engine.serialize m with
    | none => exact ⟨h, fun _ _ h => by cases h⟩
    | some artifact =>
        -- the entry is written under the digest that the module was built for
        refine ⟨?_, fun a _ ha => Option.some.inj ha ▸ List.mem_cons_self⟩
        refine { h with
          authentic := Keyed.authentic_after h.authentic trivial trivial
          puts := fun p hp => ?_
          kept := fun k m' a hk hd ha => List.mem_cons_of_mem _ (h.kept k m' a hk hd ha) }
        rcases List.mem_cons.1 hp with rfl | hold
        · exact ⟨m, hbuilt, hartifact⟩
        · exact h.puts p hold
  · rw [if_neg hdisk]
    exact ⟨h, fun _ hon => absurd hon hdisk⟩

theorem LoadInv.step {s s' : LoadState μ} {a : LoadAction μ} (h : LoadInv o engine s)
    (hpermits : Permits o s.cache) (htrusted : Trusted st key s a)
    (hmove : LoadMove o engine st key s a s') : LoadInv o engine s' := by
  -- a load that finds nothing on disk goes on to compile
  have hmiss : ∀ {t : LoadState μ} {i : Nat} {cache : CacheState μ}, LoadInv o engine t →
      cacheStep o t.cache (.diskMiss i) = some cache → ∀ mapping : Nat → Bool,
        LoadInv o engine { t with cache := cache, mapping := mapping } := fun ht hstep =>
    ht.cacheMove hstep (fun _ h => by cases h) (fun _ _ h => by cases h)
      (fun _ _ _ _ h => by cases h)
  cases hmove with
  | @cache a cache hplain hstep =>
      refine h.cacheMove hstep (fun i ha => ?_) (fun j outcome ha => ?_)
        (fun i m digest c ha _ => ?_) s.mapping
      · subst ha
        cases hplain
      · subst ha
        cases hplain
      · subst ha
        cases hplain
  | @found i digest c hx =>
      rcases htrusted digest c hx with ⟨hforge, hreplay⟩
      exact { h.path hforge hreplay with }
  | @missing i digest c cache hx hstep =>
      rcases htrusted digest c hx with ⟨hforge, hreplay⟩
      exact hmiss (h.path hforge hreplay) hstep s.mapping
  | @mapped i raw m cache hm hstep =>
      refine h.cacheMove hstep (fun _ h => by cases h) (fun _ _ h => by cases h)
        (fun k m' digest c ha hx => ?_) _
      cases ha
      -- what is mapped was put, and what was put is the artifact of a module that was built
      have hput : (digest, raw) ∈ s.store.puts :=
        (htrusted digest c hx).elim (h.authentic _) id
      rcases h.puts _ hput with ⟨m0, hbuilt, hartifact⟩
      exact ⟨m0, hbuilt, Or.inr ⟨raw, hartifact, hm⟩⟩
  | refused hm hstep => exact hmiss h hstep _
  | spawn hx hfree => exact h.spawn hpermits
  | @unfetched j e hjob hthread =>
      refine (h.learn (List.Subset.refl _) (List.subset_cons_self (s.keys j, e) _)).closed
        (fun _ h => by cases h) fun e' he => ?_
      cases he
      exact .fetch List.mem_cons_self
  | @uncompiled j wasm e hjob hthread hcompile =>
      refine (h.learn (List.subset_cons_self (s.keys j, wasm) _) (List.Subset.refl _)).closed
        (fun _ h => by cases h) fun e' he => ?_
      cases he
      exact .compile List.mem_cons_self hcompile
  | @compiled j wasm m hthread hcompile =>
      have hlearnt := h.learn (List.subset_cons_self (s.keys j, wasm) _)
        (List.Subset.refl s.unfetched)
      exact hlearnt.built hthread ⟨wasm, List.mem_cons_self, hcompile⟩
  | @stored j m hjob hthread =>
      rcases h.stored st key (h.storing j m hthread) with ⟨hstored, hkept⟩
      have hkeys : (s.stored o engine st key j m).keys = s.keys := by rw [s.stored_eq]
      have hfetched : (s.stored o engine st key j m).fetched = s.fetched := by rw [s.stored_eq]
      refine hstored.closed (fun m' hm => ?_) fun e he => ?_
      · cases hm
        rw [hkeys, hfetched]
        exact ⟨h.storing j m hthread, hkept⟩
      · cases he
  | panicked hjob hthread e =>
      refine h.closed (fun _ h => by cases h) fun e' he => ?_
      cases he
      exact .panic e

omit [RegistryLibrary] [MacLibrary] in
theorem LoadInv.new {store : Keyed.State} (hputs : store.puts = []) (hhits : store.hits = []) :
    LoadInv o engine (.new o store : LoadState μ) where
  authentic hit hmem := by
    have hnone : hit ∈ store.hits := hmem
    rw [hhits] at hnone
    cases hnone
  puts p hp := by
    have hnone : p ∈ store.puts := hp
    rw [hputs] at hnone
    cases hnone
  begun _ _ h := by cases h
  storing _ _ h := by cases h
  working _ _ _ _ h := by cases h
  done _ _ h := by cases h
  kept _ _ _ h := by cases h
  broken _ _ _ h := by cases h
  loaded _ h := by cases h
  failed _ _ _ h := by cases h

theorem loadInv_reachable {s : LoadState μ}
    (h : ((loadSystem o engine st key).restrict (Trusted st key)).Reachable s) :
    (loadSystem o engine st key).Reachable s ∧ LoadInv o engine s := by
  refine TransitionSystem.Reachable.restrict_invariant ?_ ?_ h
  · rintro s ⟨store, hputs, hhits, rfl⟩
    exact .new hputs hhits
  · intro s a s' hs hinv htrusted hstep
    have hpermits := permits_reachable (loadSystem_refines.reachable hs)
    exact hinv.step hpermits htrusted (loadMove_of_step hstep)

end Invariant

/-- Whatever the order of calls, threads, time-outs and evictions, as long as the directory of the
store can be trusted: a call is answered with a module that was compiled from what a fetch for its
digest answered, or with why it was not; memory and the store hold nothing else, and a compile that
no call waits for any more is stored as well. -/
theorem answers_compiled [RegistryLibrary] [MacLibrary] (o : CacheOptions) (engine : ModuleEngine μ)
    (st : Store) (key : StoreKey) {s : LoadState μ}
    (hs : ((loadSystem o engine st key).restrict (Trusted st key)).Reachable s) :
    (∀ i digest m, s.cache.callers i = some ⟨digest, .returned (.ok m)⟩ →
      Compiled engine s.fetched digest m) ∧
    (∀ i digest e, s.cache.callers i = some ⟨digest, .returned (.error e)⟩ →
      LoadFailure o engine s.fetched s.unfetched digest e) ∧
    (∀ x ∈ s.cache.entries, Compiled engine s.fetched x.1 x.2.value) ∧
    (∀ p ∈ s.store.puts, ∃ m, Built engine s.fetched p.1 m ∧ engine.serialize m = some p.2) ∧
    ∀ j m artifact, s.cache.jobs j = some (some (.done (.ok m))) → o.disk = true →
      engine.serialize m = some artifact → (s.keys j, artifact) ∈ s.store.puts := by
  rcases loadInv_reachable hs with ⟨hreach, hinv⟩
  have hsourced := (cacheInv_of_reachable (loadSystem_refines.reachable hreach)).sourced
  refine ⟨fun i digest m hx => ?_, fun i digest e hx => ?_, fun x hx => ?_, hinv.puts, hinv.kept⟩
  · exact hinv.loaded _ (hsourced.results i _ m hx rfl)
  · exact hinv.failed i _ e hx rfl
  · exact hinv.loaded _ (hsourced.entries x hx)

/-! ## An artifact read back -/

section Sample

open Keyed (fixtureMac fixtureDigests compiledStore fixtureKey emptyDirectory)

attribute [local instance] fixtureMac fixtureDigests

/-- A module is the number of its bytes, an artifact the number alone. -/
def countEngine : ModuleEngine Nat where
  compile wasm := .ok wasm.length
  serialize n := some [UInt8.ofNat n]
  deserialize raw := raw.head?.map UInt8.toNat

def diskOnly : CacheOptions := { disk := true, noMemory := true }

def diskStep : LoadState Nat → LoadAction Nat → Option (LoadState Nat) :=
  loadStep diskOnly countEngine compiledStore fixtureKey

/-- The state that some moves lead to. -/
def afterMoves (s : LoadState Nat) (as : List (LoadAction Nat)) : LoadState Nat :=
  (as.foldlM diskStep s).getD s

def diskRun (s : LoadState Nat) : Prop :=
  ((loadSystem diskOnly countEngine compiledStore fixtureKey).restrict
    (Trusted compiledStore fixtureKey)).Reachable s

theorem diskRun.moves {as : List (LoadAction Nat)} :
    ∀ {s : LoadState Nat}, diskRun s → (as.foldlM diskStep s).isSome = true →
      (∀ a ∈ as, ∀ t, Trusted compiledStore fixtureKey t a) → diskRun (afterMoves s as) := by
  induction as with
  | nil => exact fun hs _ _ => hs
  | cons a as ih =>
      intro s hs hsome htrusted
      cases hstep : diskStep s a with
      | none => simp [List.foldlM_cons, hstep] at hsome
      | some s1 =>
          have hrest : (as.foldlM diskStep s1).isSome = true := by
            simpa [List.foldlM_cons, hstep] using hsome
          have hs1 : diskRun s1 := .step a hs ⟨htrusted a List.mem_cons_self s, hstep⟩
          have hend := ih hs1 hrest fun b hb => htrusted b (List.mem_cons_of_mem _ hb)
          have heq : afterMoves s (a :: as) = afterMoves s1 as := by
            rcases Option.isSome_iff_exists.1 hrest with ⟨s2, hs2⟩
            simp [afterMoves, List.foldlM_cons, hstep, hs2]
          exact heq ▸ hend

def aDigest : Text := "sha256:a".toList

/-- A call looks for the artifact on disk. -/
def askedOnce : LoadState Nat :=
  afterMoves (.new diskOnly emptyDirectory)
    [.cache (.arrive aDigest), .cache (.lookup 0), .cache (.enter 0), .cache (.acquire 0)]

def missedOnce : LoadState Nat := afterMoves askedOnce [.path 0]

/-- It is answered, and another looks for the artifact. -/
def askedAgain : LoadState Nat :=
  afterMoves missedOnce
    [.spawn 0, .fetched 0 (.ok [7, 7]), .store 0, .cache (.join 0), .cache (.remove 0),
      .cache (.put 0 []), .cache (.arrive aDigest), .cache (.lookup 1), .cache (.enter 1),
      .cache (.acquire 1)]

def foundAgain : LoadState Nat := afterMoves askedAgain [.path 1]

def mappedAgain : LoadState Nat := afterMoves foundAgain [.map 1 [2]]

def readBack : LoadState Nat := afterMoves mappedAgain [.cache (.remove 1), .cache (.put 1 [])]

theorem missedOnce_run : diskRun missedOnce := by
  have hasked : diskRun askedOnce := by
    refine diskRun.moves (.init ⟨emptyDirectory, rfl, rfl, rfl⟩) (by decide +kernel) fun a ha t => ?_
    simp only [List.mem_cons, List.not_mem_nil, or_false] at ha
    rcases ha with rfl | rfl | rfl | rfl <;> trivial
  have hstep : diskStep askedOnce (.path 0) = some missedOnce := rfl
  refine .step (.path 0) hasked ⟨fun digest c hx => ?_, hstep⟩
  have hcaller : askedOnce.cache.callers 0 = some ⟨aDigest, .loading 0 .disk⟩ := rfl
  cases hcaller.symm.trans hx
  -- the directory is empty
  have hnone : Keyed.vouched compiledStore fixtureKey aDigest askedOnce.store.disk = none := by
    decide +kernel
  refine ⟨fun b hb => ?_, fun b _ hb => ?_⟩
  · cases hnone.symm.trans hb
  · cases hnone.symm.trans hb

theorem foundAgain_run : diskRun foundAgain := by
  have hasked : diskRun askedAgain := by
    refine diskRun.moves missedOnce_run (by decide +kernel) fun a ha t => ?_
    simp only [List.mem_cons, List.not_mem_nil, or_false] at ha
    rcases ha with rfl | rfl | rfl | rfl | rfl | rfl | rfl | rfl | rfl | rfl <;> trivial
  have hstep : diskStep askedAgain (.path 1) = some foundAgain := rfl
  refine .step (.path 1) hasked ⟨fun digest c hx => ?_, hstep⟩
  have hcaller : askedAgain.cache.callers 1 = some ⟨aDigest, .loading 1 .disk⟩ := rfl
  cases hcaller.symm.trans hx
  have hfound : Keyed.vouched compiledStore fixtureKey aDigest askedAgain.store.disk = some [2] := by
    decide +kernel
  have hput : (aDigest, ([2] : Bytes)) ∈ askedAgain.store.puts := by decide +kernel
  refine ⟨fun b hb => ?_, fun b _ hb _ => ?_⟩
  · cases hfound.symm.trans hb
    exact ⟨aDigest, hput⟩
  · cases hfound.symm.trans hb
    exact hput

/-- The second call is answered with the artifact that the first one's compile left. -/
theorem artifact_read_back :
    ∃ s, diskRun s ∧ (aDigest, [2]) ∈ s.store.hits ∧
      s.cache.callers 1 = some ⟨aDigest, .returned (.ok 2)⟩ ∧
        Compiled countEngine s.fetched aDigest 2 := by
  have hmapped : diskRun mappedAgain := by
    have hstep : diskStep foundAgain (.map 1 [2]) = some mappedAgain := rfl
    refine .step (.map 1 [2]) foundAgain_run ⟨fun digest c hx => ?_, hstep⟩
    have hcaller : foundAgain.cache.callers 1 = some ⟨aDigest, .loading 1 .disk⟩ := rfl
    cases hcaller.symm.trans hx
    exact Or.inl (by decide +kernel)
  have hread : diskRun readBack := by
    refine diskRun.moves hmapped (by decide +kernel) fun a ha t => ?_
    simp only [List.mem_cons, List.not_mem_nil, or_false] at ha
    rcases ha with rfl | rfl <;> trivial
  have hanswer : readBack.cache.callers 1 = some ⟨aDigest, .returned (.ok 2)⟩ := rfl
  have hcompiled := answers_compiled diskOnly countEngine compiledStore fixtureKey hread
  exact ⟨readBack, hread, by decide +kernel, hanswer, hcompiled.1 1 aDigest 2 hanswer⟩

end Sample

end FunctionWasm

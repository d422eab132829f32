import FunctionWasm.Cache.ModuleCache
import FunctionWasm.Foundation.Flights

/-!
# SingleFlight — one load of a digest at a time

The callers of the cache are in flights: each waits at a cell of its digest or loads for it.  A
caller whose load is settled drops the digest's flight from the map without looking whether it is
the one it was in.

* `CacheState.flights` reads the flights off the callers, `CacheMove.flight` says that every move is
  a move of them.
* `Sourced` says where every module in the cache is from.
* `single_flight` says that loads of one digest do not overlap as long as nobody drops a flight that
  still goes on, and that any other drop can make them.
-/

namespace FunctionWasm

variable {μ : Type}

/-! ## Flights -/

def GetPhase.seat : GetPhase μ → Option Seat
  | .waiting c => some (.waiting c)
  | .loading c _ => some (.loading c)
  | _ => none

def Caller.seat (x : Caller μ) : Option (Text × Seat) :=
  x.phase.seat.map fun t => (x.digest, t)

def FlightCell.seatCell (y : FlightCell μ) : SeatCell Text where
  key := y.digest
  filled := y.value.isSome
  holder := y.holder

namespace CacheState

def flights (s : CacheState μ) : Flights Text where
  current := s.loading
  made := s.made
  cells := fun c => (s.cells c).map FlightCell.seatCell
  seats := fun i => (s.callers i).bind Caller.seat

theorem flights_setCaller (s : CacheState μ) (i : Nat) (x : Option (Caller μ)) :
    (s.setCaller i x).flights = s.flights.setSeat i (x.bind Caller.seat) := by
  have hseats : (s.setCaller i x).flights.seats =
      Function.update s.flights.seats i (x.bind Caller.seat) := by
    funext j
    by_cases hj : j = i
    · subst hj
      simp [flights, setCaller]
    · simp [flights, setCaller, hj]
  calc (s.setCaller i x).flights
      = { s.flights with seats := (s.setCaller i x).flights.seats } := rfl
    _ = s.flights.setSeat i (x.bind Caller.seat) := by rw [hseats]; rfl

theorem flights_setCell (s : CacheState μ) (c : Nat) (y : FlightCell μ) :
    (s.setCell c y).flights = s.flights.setCell c y.seatCell := by
  have hcells : (s.setCell c y).flights.cells =
      Function.update s.flights.cells c (some y.seatCell) := by
    funext c'
    by_cases hc : c' = c
    · subst hc
      simp [flights, setCell]
    · simp [flights, setCell, hc]
  calc (s.setCell c y).flights
      = { s.flights with cells := (s.setCell c y).flights.cells } := rfl
    _ = s.flights.setCell c y.seatCell := by rw [hcells]; rfl

theorem seats_of_caller {s : CacheState μ} {i : Nat} {x : Caller μ} (hx : s.callers i = some x) :
    s.flights.seats i = x.seat := by
  simp [flights, hx]

theorem cells_of_cell {s : CacheState μ} {c : Nat} {y : FlightCell μ} (hy : s.cells c = some y) :
    s.flights.cells c = some y.seatCell := by
  simp [flights, hy]

/-- A caller that changes nothing but what it does outside its seat. -/
theorem flights_keep {s : CacheState μ} {i : Nat} {x : Option (Caller μ)}
    (h : s.flights.seats i = x.bind Caller.seat) : (s.setCaller i x).flights = s.flights := by
  rw [flights_setCaller, ← h]
  exact congrArg (fun f => { s.flights with seats := f }) (Function.update_eq_self i _)

end CacheState

/-- Numbers are given out in order. -/
def Young (s : CacheState μ) : Prop :=
  ∀ i, s.arrived ≤ i → s.callers i = none

/-- Every move of the cache is a move of its flights; the key it forgets is that of the caller who
drops its flight. -/
theorem CacheMove.flight {o : CacheOptions} {s s' : CacheState μ} {a : CacheAction μ}
    (hmove : CacheMove o s a s') (hyoung : Young s) :
    ∃ f, FlightMove s.flights f s'.flights ∧
      ∀ k, f = some k → ∃ i x, a = .remove i ∧ s.callers i = some x ∧ x.digest = k := by
  -- only `remove` forgets a key
  have hnone : ∀ k : Text, (none : Option Text) = some k →
      ∃ i x, a = .remove i ∧ s.callers i = some x ∧ x.digest = k := fun _ h => by cases h
  have hstill : ∀ {t : CacheState μ}, t.flights = s.flights → ∃ f,
      FlightMove s.flights f t.flights ∧
        ∀ k, f = some k → ∃ i x, a = .remove i ∧ s.callers i = some x ∧ x.digest = k :=
    fun h => ⟨none, h ▸ .still, hnone⟩
  cases hmove with
  | elapse d => exact hstill rfl
  | arrive digest =>
      -- a newcomer has a number that no caller has had
      have haway : s.flights.seats s.arrived = none := by
        simp [CacheState.flights, hyoung s.arrived (Nat.le_refl _)]
      exact hstill (CacheState.flights_keep (x := some ⟨digest, .looking⟩) haway)
  | @lookup i digest hx =>
      -- a lookup seats no one, whether or not it finds a module
      refine hstill (CacheState.flights_keep (s := { s with entries := _ }) ?_)
      have hseat : s.flights.seats i = none := CacheState.seats_of_caller hx
      calc s.flights.seats i = none := hseat
        _ = _ := by
          cases (MemoryTier.get o s.now digest s.entries).1 <;> rfl
  | @enter i digest c hx hc =>
      refine ⟨none, ?_, hnone⟩
      have hseat : s.flights.seats i = none := CacheState.seats_of_caller hx
      rw [CacheState.setPhase, CacheState.flights_setCaller]
      exact .join hc hseat
  | @launch i digest hx hc =>
      refine ⟨none, ?_, hnone⟩
      have hseat : s.flights.seats i = none := CacheState.seats_of_caller hx
      have heq : (s.launch i digest).flights = s.flights.launch i digest := by
        have hset := CacheState.flights_setCaller
          (s.setCell s.made { digest := digest, value := none, holder := none }) i
          (some { digest := digest, phase := .waiting s.made })
        rw [CacheState.flights_setCell] at hset
        exact congrArg (fun f : Flights Text => { f with
          current := Function.update s.loading digest (some s.made), made := s.made + 1 }) hset
      rw [heq]
      exact .launch hc hseat
  | @ready i digest c y m hx hy hm =>
      refine ⟨none, ?_, hnone⟩
      have hseat : s.flights.seats i = some (digest, .waiting c) := CacheState.seats_of_caller hx
      rw [CacheState.setPhase, CacheState.flights_setCaller]
      exact .leave hseat
  | @acquire i digest c y hx hy hvalue hfree =>
      refine ⟨none, ?_, hnone⟩
      have hseat : s.flights.seats i = some (digest, .waiting c) := CacheState.seats_of_caller hx
      have hcell : s.flights.cells c = some y.seatCell := CacheState.cells_of_cell hy
      rw [CacheState.acquire, CacheState.setPhase, CacheState.flights_setCaller,
        CacheState.flights_setCell]
      refine .board hseat hcell ?_ hfree
      simp [FlightCell.seatCell, hvalue]
  -- the load goes on in the same seat
  | @goOn _ i digest c p hx p' compiles started jobs =>
      have hseat : s.flights.seats i = some (digest, .loading c) := CacheState.seats_of_caller hx
      exact hstill (CacheState.flights_keep (x := some ⟨digest, .loading c p'⟩) hseat)
  | finish j outcome => exact hstill rfl
  | @settle _ i digest c p y hx hy r =>
      have hseat : s.flights.seats i = some (digest, .loading c) := CacheState.seats_of_caller hx
      have hcell : s.flights.cells c = some y.seatCell := CacheState.cells_of_cell hy
      -- a module fills the cell, an error leaves it for the next in line
      cases r with
      | ok m =>
          refine ⟨none, ?_, hnone⟩
          have heq : (s.settle i digest c y (.ok m)).flights =
              s.flights.land i c y.seatCell true := by
            have hset := CacheState.flights_setCaller
              (s.setCell c { y with value := some m, holder := none }) i
              (some { digest := digest, phase := .settled (.ok m) })
            rw [CacheState.flights_setCell] at hset
            exact hset
          rw [heq]
          exact .land true hseat hcell
      | error e =>
          refine ⟨none, ?_, hnone⟩
          have heq : (s.settle i digest c y (.error e)).flights =
              s.flights.land i c y.seatCell y.seatCell.filled := by
            have hset := CacheState.flights_setCaller (s.setCell c { y with holder := none }) i
              (some { digest := digest, phase := .settled (.error e) })
            rw [CacheState.flights_setCell] at hset
            exact hset
          rw [heq]
          exact .land _ hseat hcell
  | @remove i digest r hx =>
      refine ⟨some digest, ?_, fun k hk => ⟨i, _, rfl, hx, Option.some.inj hk⟩⟩
      have hseat : s.flights.seats i = none := CacheState.seats_of_caller hx
      have hkeep : (s.setPhase i digest (.dropped r)).flights = s.flights :=
        CacheState.flights_keep hseat
      have heq : (s.remove i digest r).flights = s.flights.forget digest :=
        congrArg (fun f : Flights Text => { f with
          current := Function.update s.loading digest none }) hkeep
      rw [heq]
      exact .forget digest
  | @put i digest r victims hx entries hentries =>
      have hseat : s.flights.seats i = none := CacheState.seats_of_caller hx
      exact hstill (CacheState.flights_keep (s := { s with entries := entries }) hseat)
  | @leave i x hx hidle =>
      have hseat : s.flights.seats i = x.seat := CacheState.seats_of_caller hx
      -- a dropped caller leaves a seat only if it waited for a cell
      cases hphase : x.phase.seat with
      | none =>
          refine hstill (CacheState.flights_keep ?_)
          rw [hseat]
          simp [Caller.seat, hphase]
      | some t =>
          refine ⟨none, ?_, hnone⟩
          have hwaits : ∃ c, t = .waiting c := by
            rcases x with ⟨digest, phase⟩
            cases phase with
            | waiting c => exact ⟨c, (Option.some.inj hphase).symm⟩
            | loading c p => exact absurd rfl (hidle c p)
            | looking | missed | settled | dropped | returned => cases hphase
          rcases hwaits with ⟨c, rfl⟩
          rw [CacheState.flights_setCaller]
          refine .leave (k := x.digest) (c := c) ?_
          rw [hseat]
          simp [Caller.seat, hphase]
  | @abandon i digest c p y hx hy =>
      refine ⟨none, ?_, hnone⟩
      have hseat : s.flights.seats i = some (digest, .loading c) := CacheState.seats_of_caller hx
      have hcell : s.flights.cells c = some y.seatCell := CacheState.cells_of_cell hy
      rw [CacheState.flights_setCaller, CacheState.flights_setCell]
      exact .land y.seatCell.filled hseat hcell

/-! ## What holds in every state -/

theorem young_setCaller {s : CacheState μ} (h : Young s) {i : Nat} {y : Caller μ}
    (hy : s.callers i = some y) (x : Option (Caller μ)) : Young (s.setCaller i x) := by
  intro j hj
  have hne : j ≠ i := by
    rintro rfl
    cases (h j hj).symm.trans hy
  simpa [CacheState.setCaller, hne] using h j hj

theorem CacheMove.young {o : CacheOptions} {s s' : CacheState μ} {a : CacheAction μ}
    (hmove : CacheMove o s a s') (h : Young s) : Young s' := by
  cases hmove with
  | elapse | finish => exact h
  | arrive digest =>
      intro j hj
      have hlt : s.arrived < j := hj
      simpa [CacheState.arrive, CacheState.setPhase, CacheState.setCaller, Nat.ne_of_gt hlt]
        using h j (Nat.le_of_lt hlt)
  | lookup hx | enter hx | ready hx | goOn hx | remove hx | put hx | leave hx =>
      exact young_setCaller h hx _
  | @launch i digest hx =>
      exact young_setCaller (s := s.setCell s.made { digest := digest, value := none, holder := none })
        h hx _
  | @acquire i digest c y hx =>
      exact young_setCaller (s := s.setCell c { y with holder := some i }) h hx _
  | @settle _ i digest c p y hx hy r =>
      cases r with
      | ok m =>
          exact young_setCaller (s := s.setCell c { y with value := some m, holder := none }) h hx _
      | error e => exact young_setCaller (s := s.setCell c { y with holder := none }) h hx _
  | @abandon i digest c p y hx =>
      exact young_setCaller (s := s.setCell c { y with holder := none }) h hx _

/-- What a call has come to. -/
def GetPhase.result : GetPhase μ → Option (Except Text μ)
  | .settled r | .dropped r | .returned r => some r
  | _ => none

/-- Every module in the cache, and every one that a call has come to, was loaded for its digest. -/
structure Sourced (s : CacheState μ) : Prop where
  entries : ∀ x ∈ s.entries, (x.1, x.2.value) ∈ s.loaded
  cells : ∀ c y m, s.cells c = some y → y.value = some m → (y.digest, m) ∈ s.loaded
  results : ∀ i x m, s.callers i = some x → x.phase.result = some (.ok m) →
    (x.digest, m) ∈ s.loaded

theorem Sourced.setCaller {s : CacheState μ} (h : Sourced s) (i : Nat) {x : Option (Caller μ)}
    (hx : ∀ y m, x = some y → y.phase.result = some (.ok m) → (y.digest, m) ∈ s.loaded) :
    Sourced (s.setCaller i x) where
  entries := h.entries
  cells := h.cells
  results := fun j y m hy hm => by
    by_cases hj : j = i
    · subst hj
      exact hx y m (by simpa [CacheState.setCaller] using hy) hm
    · exact h.results j y m (by simpa [CacheState.setCaller, hj] using hy) hm

theorem Sourced.setPhase {s : CacheState μ} (h : Sourced s) (i : Nat) {digest : Text}
    {p : GetPhase μ} (hp : ∀ m, p.result = some (.ok m) → (digest, m) ∈ s.loaded) :
    Sourced (s.setPhase i digest p) :=
  h.setCaller i fun _ m heq hm => by
    cases heq
    exact hp m hm

theorem Sourced.setCell {s : CacheState μ} (h : Sourced s) (c : Nat) {y : FlightCell μ}
    (hy : ∀ m, y.value = some m → (y.digest, m) ∈ s.loaded) : Sourced (s.setCell c y) where
  entries := h.entries
  cells := fun c' z m hz hm => by
    by_cases hc : c' = c
    · subst hc
      have heq : y = z := by simpa [CacheState.setCell] using hz
      subst heq
      exact hy m hm
    · exact h.cells c' z m (by simpa [CacheState.setCell, hc] using hz) hm
  results := h.results

theorem Sourced.withEntries {s : CacheState μ} (h : Sourced s) {entries : MemoryTier μ}
    (hentries : ∀ x ∈ entries, (x.1, x.2.value) ∈ s.loaded) :
    Sourced { s with entries := entries } :=
  ⟨hentries, h.cells, h.results⟩

theorem CacheMove.sourced {o : CacheOptions} {s s' : CacheState μ} {a : CacheAction μ}
    (hmove : CacheMove o s a s') (hflights : FlightsInv s.flights) (h : Sourced s) :
    Sourced s' := by
  have hnothing : ∀ {digest : Text} {p : GetPhase μ}, p.result = none → ∀ m,
      p.result = some (.ok m) → (digest, m) ∈ s.loaded := fun hp _ hm => by
    cases hp.symm.trans hm
  cases hmove with
  | elapse d => exact ⟨h.entries, h.cells, h.results⟩
  | finish j outcome => exact ⟨h.entries, h.cells, h.results⟩
  | arrive digest =>
      have hset := h.setPhase s.arrived (p := .looking) (@hnothing digest _ rfl)
      exact ⟨hset.entries, hset.cells, hset.results⟩
  | @lookup i digest hx =>
      rcases @MemoryTier.get_sound μ o s.now digest s.entries with ⟨hfound, hkept⟩
      refine (h.withEntries fun x hmem => ?_).setPhase i fun m hm => ?_
      · rcases hkept x hmem with ⟨y, hy, hkey, hvalue⟩
        exact hkey ▸ hvalue ▸ h.entries y hy
      · -- only a hit settles the call, and a hit was in the tier
        cases hget : (MemoryTier.get o s.now digest s.entries).1 with
        | none =>
            rw [hget] at hm
            cases hm
        | some m' =>
            rw [hget] at hm
            cases hm
            rcases hfound m hget with ⟨e, he, rfl⟩
            exact h.entries _ he
  | enter hx hc => exact h.setPhase _ (hnothing rfl)
  | @launch i digest hx hc =>
      have hcell := h.setCell s.made (y := { digest := digest, value := none, holder := none })
        fun _ hm => by cases hm
      have hset := @Sourced.setPhase μ _ hcell i digest (.waiting s.made) (hnothing rfl)
      exact ⟨hset.entries, hset.cells, hset.results⟩
  | @ready i digest c y m hx hy hm =>
      -- the cell is one of the caller's own digest
      have hseat : s.flights.seats i = some (digest, .waiting c) := CacheState.seats_of_caller hx
      rcases hflights.seated i digest _ hseat with ⟨z, hz, hkey⟩
      cases (CacheState.cells_of_cell hy).symm.trans hz
      have hdigest : y.digest = digest := hkey
      refine h.setPhase i fun m' hm' => ?_
      cases hm'
      exact hdigest ▸ h.cells c y m hy hm
  | @acquire i digest c y hx hy hvalue hfree =>
      refine (h.setCell c fun m hm => ?_).setPhase i (hnothing rfl)
      cases hvalue.symm.trans hm
  | @goOn _ i digest c p hx p' compiles started jobs =>
      have hset := h.setPhase i (p := .loading c p') (@hnothing digest _ rfl)
      exact ⟨hset.entries, hset.cells, hset.results⟩
  | @settle _ i digest c p y hx hy r =>
      cases r with
      | ok m =>
          have hseat : s.flights.seats i = some (digest, .loading c) :=
            CacheState.seats_of_caller hx
          rcases hflights.seated i digest _ hseat with ⟨z, hz, hkey⟩
          cases (CacheState.cells_of_cell hy).symm.trans hz
          have hdigest : y.digest = digest := hkey
          -- the load adds to what was loaded, and its cell is of its own digest
          have hmore : Sourced { s with loaded := (digest, m) :: s.loaded } :=
            ⟨fun x hmem => List.mem_cons_of_mem _ (h.entries x hmem),
              fun c' z' m' hz' hm' => List.mem_cons_of_mem _ (h.cells c' z' m' hz' hm'),
              fun j x m' hx' hm' => List.mem_cons_of_mem _ (h.results j x m' hx' hm')⟩
          have hcell := hmore.setCell c (y := { y with value := some m, holder := none })
            fun m' hm' => by
              cases hm'
              exact hdigest ▸ List.mem_cons_self
          have hset := @Sourced.setPhase μ _ hcell i digest (.settled (.ok m)) fun m' hm' => by
            cases hm'
            exact List.mem_cons_self
          exact ⟨hset.entries, hset.cells, hset.results⟩
      | error e =>
          refine (h.setCell c (y := { y with holder := none }) fun m hm =>
            h.cells c y m hy hm).setPhase i fun m hm => ?_
          cases hm
  | @remove i digest r hx =>
      have hset := @Sourced.setPhase μ s h i digest (.dropped r) fun m hm => h.results i _ m hx hm
      exact ⟨hset.entries, hset.cells, hset.results⟩
  | @put i digest r victims hx entries hentries =>
      refine (h.withEntries fun x hmem => ?_).setPhase i fun m hm => h.results i _ m hx hm
      -- what is put was what the call had come to
      rcases hentries x hmem with hold | ⟨hkey, hr⟩
      · exact h.entries x hold
      · rw [hkey]
        exact h.results i _ x.2.value hx (congrArg some hr)
  | leave hx hidle => exact h.setCaller _ fun _ _ heq => by cases heq
  | @abandon i digest c p y hx hy =>
      refine (h.setCell c (y := { y with holder := none }) fun m hm =>
        h.cells c y m hy hm).setCaller i fun _ _ heq => ?_
      cases heq

/-- What holds in every state of every run. -/
structure CacheInv (s : CacheState μ) : Prop where
  flights : FlightsInv s.flights
  young : Young s
  sourced : Sourced s

theorem cacheInv_of_reachable {o : CacheOptions} {s : CacheState μ}
    (h : (cacheSystem μ o).Reachable s) : CacheInv s := by
  refine h.invariant ?_ ?_
  · rintro s rfl
    refine ⟨⟨?_, ?_, ?_, ?_, ?_⟩, fun _ _ => rfl, ⟨?_, ?_, ?_⟩⟩
    · exact fun _ _ _ h => by cases h
    · exact fun _ _ _ _ h => by cases h
    · exact fun _ _ _ h => by cases h
    · exact fun _ _ h => by cases h
    · exact fun _ _ => rfl
    · exact fun _ h => by cases h
    · exact fun _ _ _ h => by cases h
    · exact fun _ _ _ h => by cases h
  · intro s a s' _ hinv hstep
    have hmove : CacheMove o s a s' := cacheMove_of_step hstep
    rcases hmove.flight hinv.young with ⟨f, hflight, -⟩
    exact ⟨hflight.inv hinv.flights, hmove.young hinv.young,
      hmove.sourced hinv.flights hinv.sourced⟩

/-! ## One load at a time -/

def Caller.loads (x : Caller μ) (c : Nat) : Prop :=
  x.seat = some (x.digest, .loading c)

/-- No two loads of one digest are in progress. -/
def OneLoad (s : CacheState μ) : Prop :=
  ∀ i j x y c c', s.callers i = some x → s.callers j = some y → x.digest = y.digest →
    x.loads c → y.loads c' → i = j

/-- No caller drops a flight in which another waits or loads while its cell has no module. -/
def Undisturbed (s : CacheState μ) (a : CacheAction μ) : Prop :=
  ∀ i x, a = .remove i → s.callers i = some x → s.flights.Idle x.digest

theorem undisturbed_reachable {o : CacheOptions} {s : CacheState μ}
    (h : ((cacheSystem μ o).restrict Undisturbed).Reachable s) :
    (cacheSystem μ o).Reachable s ∧ Seated s.flights := by
  refine TransitionSystem.Reachable.restrict_invariant (I := fun s => Seated s.flights) ?_ ?_ h
  · rintro s rfl i k t y hi
    cases hi
  · intro s a s' hs hseated hcond hstep
    have hinv := cacheInv_of_reachable hs
    have hmove : CacheMove o s a s' := cacheMove_of_step hstep
    rcases hmove.flight hinv.young with ⟨f, hflight, hforgets⟩
    refine hflight.seated hinv.flights hseated fun k hk => ?_
    rcases hforgets k hk with ⟨i, x, ha, hx, rfl⟩
    exact hcond i x ha hx

theorem oneLoad_of_seated {s : CacheState μ} (h : FlightsInv s.flights)
    (hseated : Seated s.flights) : OneLoad s := by
  intro i j x y c c' hx hy hdigest hxc hyc
  have hi : s.flights.seats i = some (x.digest, .loading c) :=
    (CacheState.seats_of_caller hx).trans hxc
  have hj : s.flights.seats j = some (x.digest, .loading c') := by
    rw [hdigest]
    exact (CacheState.seats_of_caller hy).trans hyc
  exact hseated.single h hi hj

/-! ## A newcomer -/

open TransitionSystem (Leads)

namespace CacheState

theorem callers_setPhase (s : CacheState μ) (i : Nat) (digest : Text) (p : GetPhase μ) :
    (s.setPhase i digest p).callers i = some ⟨digest, p⟩ := by
  simp [setPhase, setCaller]

theorem callers_setPhase_ne (s : CacheState μ) {i j : Nat} (h : j ≠ i) (digest : Text)
    (p : GetPhase μ) : (s.setPhase i digest p).callers j = s.callers j := by
  simp [setPhase, setCaller, h]

theorem cells_setCell (s : CacheState μ) (c : Nat) (y : FlightCell μ) :
    (s.setCell c y).cells c = some y := by
  simp [setCell]

end CacheState

/-- Some time later nothing is in memory any more. -/
theorem exists_expired (o : CacheOptions) (now : Nat) (digest : Text) (t : MemoryTier μ) :
    ∃ d, (MemoryTier.get o (now + d) digest t).1 = none := by
  have hlater : ∃ d, ∀ x ∈ t, o.ttl + x.2.lastUsed ≤ d := by
    induction t with
    | nil => exact ⟨0, fun _ h => by cases h⟩
    | cons x t ih =>
        rcases ih with ⟨d, hd⟩
        refine ⟨max d (o.ttl + x.2.lastUsed), fun y hy => ?_⟩
        rcases List.mem_cons.1 hy with rfl | hy
        · exact Nat.le_max_right _ _
        · exact Nat.le_trans (hd y hy) (Nat.le_max_left _ _)
  rcases hlater with ⟨d, hd⟩
  refine ⟨d, ?_⟩
  have hkept : t.filter (fun x => now + d - x.2.lastUsed < o.ttl) = [] := by
    refine List.filter_eq_nil_iff.2 fun x hx => ?_
    have hexpired := hd x hx
    simp only [decide_eq_true_eq]
    omega
  unfold MemoryTier.get
  split
  · rfl
  · simp only [hkept, List.lookup_nil]

/-- With no flight of its digest in the map, a newcomer loads whoever else does. -/
theorem newcomer_loads (o : CacheOptions) {s : CacheState μ} {digest : Text}
    (hnone : s.loading digest = none) :
    ∃ s1, Leads (cacheStep o) s s1 ∧ (∀ j, j ≠ s.arrived → s1.callers j = s.callers j) ∧
      ∃ x, s1.callers s.arrived = some x ∧ x.digest = digest ∧ x.loads s.made := by
  rcases exists_expired o s.now digest s.entries with ⟨d, hd⟩
  let t0 : CacheState μ := { s with now := s.now + d }
  let t1 := t0.arrive digest
  have hx1 : t1.callers s.arrived = some ⟨digest, .looking⟩ := t0.callers_setPhase _ _ _
  have hlookup : cacheStep o t1 (.lookup s.arrived) = some (t1.lookup o s.arrived digest) := by
    simp only [cacheStep, hx1]
  let t2 := t1.lookup o s.arrived digest
  have hx2 : t2.callers s.arrived = some ⟨digest, .missed⟩ := by
    have hmiss : (MemoryTier.get o t1.now digest t1.entries).1 = none := hd
    simp only [t2, CacheState.lookup, hmiss]
    exact CacheState.callers_setPhase _ _ _ _
  have henter : cacheStep o t2 (.enter s.arrived) = some (t2.launch s.arrived digest) := by
    have hloading : t2.loading digest = none := hnone
    simp only [cacheStep, hx2, hloading]
  let t3 := t2.launch s.arrived digest
  have hx3 : t3.callers s.arrived = some ⟨digest, .waiting s.made⟩ :=
    CacheState.callers_setPhase _ _ _ _
  have hy3 : t3.cells s.made = some { digest := digest, value := none, holder := none } :=
    CacheState.cells_setCell _ _ _
  have hacquire : cacheStep o t3 (.acquire s.arrived) =
      some (t3.acquire o s.arrived digest s.made
        { digest := digest, value := none, holder := none }) := by
    simp only [cacheStep, hx3, hy3, Option.isNone_none, and_self, if_true]
  refine ⟨t3.acquire o s.arrived digest s.made { digest := digest, value := none, holder := none },
    ?_, fun j hj => ?_,
    { digest := digest, phase := .loading s.made (if o.disk then .disk else .permit) },
    CacheState.callers_setPhase _ _ _ _, rfl, rfl⟩
  · have harrive : cacheStep o t0 (.arrive digest) = some t1 := rfl
    have helapse : cacheStep o s (.elapse d) = some t0 := rfl
    exact .head helapse (.head harrive (.head hlookup (.head henter (.head hacquire (.refl _)))))
  · calc _ = t3.callers j := CacheState.callers_setPhase_ne _ hj _ _
      _ = t2.callers j := CacheState.callers_setPhase_ne _ hj _ _
      _ = t1.callers j := CacheState.callers_setPhase_ne _ hj _ _
      _ = s.callers j := CacheState.callers_setPhase_ne _ hj _ _

/-- Where someone sits at a cell without a module, someone loads for it or may begin to. -/
theorem awaited_loads (o : CacheOptions) {s : CacheState μ} (hinv : FlightsInv s.flights)
    {j : Nat} {digest : Text} {t : Seat} {y : SeatCell Text}
    (hseat : s.flights.seats j = some (digest, t)) (hy : s.flights.cells t.cell = some y)
    (hunfilled : y.filled = false) :
    ∃ s1, Leads (cacheStep o) s s1 ∧ s1.loading = s.loading ∧ s1.arrived = s.arrived ∧
      ∃ i x, s1.callers i = some x ∧ (s.callers i).isSome = true ∧ x.digest = digest ∧
        x.loads t.cell := by
  have hcaller : ∀ {i k u}, s.flights.seats i = some (k, u) →
      ∃ x, s.callers i = some x ∧ x.digest = k ∧ x.phase.seat = some u := by
    intro i k u hi
    rcases Option.bind_eq_some_iff.1 hi with ⟨x, hx, hxseat⟩
    rcases Option.map_eq_some_iff.1 hxseat with ⟨u', hu', heq⟩
    cases heq
    exact ⟨x, hx, rfl, hu'⟩
  have hkey : y.key = digest := by
    rcases hinv.seated j digest t hseat with ⟨z, hz, hzkey⟩
    cases hy.symm.trans hz
    exact hzkey
  have hloads : ∀ {i k}, s.flights.seats i = some (k, .loading t.cell) →
      ∃ x, s.callers i = some x ∧ x.digest = digest ∧ x.loads t.cell := by
    intro i k hi
    rcases hcaller hi with ⟨x, hx, hxkey, hxseat⟩
    rcases hinv.seated i k _ hi with ⟨z, hz, hzkey⟩
    cases hy.symm.trans hz
    refine ⟨x, hx, hxkey.trans (hzkey.symm.trans hkey), ?_⟩
    simp [Caller.loads, Caller.seat, hxseat]
  have hnow : (∃ i k, s.flights.seats i = some (k, .loading t.cell)) →
      ∃ s1, Leads (cacheStep o) s s1 ∧ s1.loading = s.loading ∧ s1.arrived = s.arrived ∧
        ∃ i x, s1.callers i = some x ∧ (s.callers i).isSome = true ∧ x.digest = digest ∧
          x.loads t.cell := by
    rintro ⟨i, k, hi⟩
    rcases hloads hi with ⟨x, hx, hdigest, hxloads⟩
    exact ⟨s, .refl s, rfl, rfl, i, x, hx, by rw [hx]; rfl, hdigest, hxloads⟩
  cases t with
  | loading c => exact hnow ⟨j, digest, hseat⟩
  | waiting c =>
      cases hholder : y.holder with
      | some i =>
          -- the permit is held, so the holder loads
          rcases hinv.held c y i hy hholder with ⟨k, hi⟩
          exact hnow ⟨i, k, hi⟩
      | none =>
          rcases hcaller hseat with ⟨⟨xdigest, xphase⟩, hx, rfl, hxseat⟩
          have hphase : xphase = .waiting c := by
            cases xphase with
            | waiting c' =>
                cases hxseat
                rfl
            | loading c' p => cases hxseat
            | looking | missed | settled | dropped | returned => cases hxseat
          subst hphase
          rcases Option.map_eq_some_iff.1 hy with ⟨z, hcell, rfl⟩
          have hz : s.cells c = some z := hcell
          have hvalue : z.value.isNone = true := by
            have hsome : z.value.isSome = false := hunfilled
            simpa using hsome
          have hfree : z.holder = none := hholder
          have hacquire : cacheStep o s (.acquire j) = some (s.acquire o j xdigest c z) := by
            simp only [cacheStep, hx, hz, hvalue, hfree, and_self, if_true]
          refine ⟨s.acquire o j xdigest c z, .head hacquire (.refl _), rfl, rfl, j,
            { digest := xdigest, phase := .loading c (if o.disk then .disk else .permit) },
            CacheState.callers_setPhase _ _ _ _, by rw [hx]; rfl, rfl, rfl⟩

theorem flights_remove {o : CacheOptions} {s s' : CacheState μ} {i : Nat} {x : Caller μ}
    (hstep : cacheStep o s (.remove i) = some s') (hx : s.callers i = some x) :
    s'.flights = s.flights.forget x.digest := by
  simp only [cacheStep] at hstep
  split at hstep
  · next digest r hr =>
      cases hr.symm.trans hx
      cases hstep
      have haway : s.flights.seats i = none := CacheState.seats_of_caller hr
      have hkeep : (s.setPhase i digest (.dropped r)).flights = s.flights :=
        CacheState.flights_keep haway
      exact congrArg (fun f : Flights Text => { f with
        current := Function.update s.loading digest none }) hkeep
  · cases hstep

/-- After a caller drops a flight that still goes on, a newcomer and someone in that flight can load
at once. -/
theorem disturbed_overlaps {o : CacheOptions} {s s' : CacheState μ} {a : CacheAction μ}
    (hs : (cacheSystem μ o).Reachable s) (hstep : (cacheSystem μ o).step s a s')
    (hcond : ¬ Undisturbed s a) : ∃ s1, Leads (cacheStep o) s' s1 ∧ ¬ OneLoad s1 := by
  have hinv := cacheInv_of_reachable (.step a hs hstep)
  have hbefore := cacheInv_of_reachable hs
  simp only [Undisturbed, not_forall] at hcond
  rcases hcond with ⟨i, x, rfl, hx, hidle⟩
  simp only [Flights.Idle, not_forall, ne_eq, not_not] at hidle
  rcases hidle with ⟨c, y, j, k, t, hcurrent, hy, hunfilled, hseat, rfl⟩
  have hk : k = x.digest := by
    rcases hbefore.flights.seated j k t hseat with ⟨z, hz, hzkey⟩
    rcases hbefore.flights.keyed x.digest t.cell hcurrent with ⟨w, hw, hwkey⟩
    cases hz.symm.trans hw
    exact hzkey.symm.trans hwkey
  have hflights : s'.flights = s.flights.forget x.digest := flights_remove hstep hx
  have hnone : s'.loading x.digest = none := by
    have heq : s'.loading = Function.update s.loading x.digest none :=
      congrArg Flights.current hflights
    simp [heq]
  have hseat' : s'.flights.seats j = some (x.digest, t) := by
    rw [hflights, ← hk]
    exact hseat
  have hy' : s'.flights.cells t.cell = some y := by
    rw [hflights]
    exact hy
  rcases awaited_loads o hinv.flights hseat' hy' hunfilled with
    ⟨s1, hleads, hloading, harrived, m, z, hz, hsome, hzdigest, hzloads⟩
  have hnone1 : s1.loading x.digest = none := by rw [hloading, hnone]
  rcases newcomer_loads o hnone1 with ⟨s2, hleads2, hothers, w, hw, hwdigest, hwloads⟩
  have hne : m ≠ s1.arrived := by
    rintro rfl
    rw [harrived, hinv.young _ (Nat.le_refl _)] at hsome
    cases hsome
  refine ⟨s2, hleads.trans hleads2, fun hone => hne ?_⟩
  exact hone m s1.arrived z w _ _ ((hothers m hne).trans hz) hw (hzdigest.trans hwdigest.symm)
    hzloads hwloads

/-- What a step adds to the loaded modules is what a load of that digest comes to in it. -/
theorem CacheMove.loaded {o : CacheOptions} {s s' : CacheState μ} {a : CacheAction μ}
    (hmove : CacheMove o s a s') {digest : Text} {m : μ} (h : (digest, m) ∈ s'.loaded) :
    (digest, m) ∈ s.loaded ∨ ∃ i c p, s.callers i = some ⟨digest, .loading c p⟩ ∧
      s'.callers i = some ⟨digest, .settled (.ok m)⟩ := by
  cases hmove with
  | @settle _ i digest' c p y hx hy r =>
      cases r with
      | ok m' =>
          rcases List.mem_cons.1 h with heq | hold
          · cases heq
            exact Or.inr ⟨i, c, p, hx, CacheState.callers_setPhase _ _ _ _⟩
          · exact Or.inl hold
      | error e => exact Or.inl h
  | _ => exact Or.inl h

/-- Loads of one digest do not overlap unless a caller drops a flight that still goes on, and then
they can; whoever is answered with a module is answered with one that a load of its own digest came
to. -/
theorem single_flight (o : CacheOptions) :
    (∀ s, ((cacheSystem μ o).restrict Undisturbed).Reachable s → OneLoad s) ∧
    (∀ s i digest m, (cacheSystem μ o).Reachable s →
      s.callers i = some ⟨digest, .returned (.ok m)⟩ → (digest, m) ∈ s.loaded) ∧
    (∀ s a s' digest m, (cacheSystem μ o).Reachable s → (cacheSystem μ o).step s a s' →
      (digest, m) ∈ s'.loaded → (digest, m) ∈ s.loaded ∨
        ∃ i c p, s.callers i = some ⟨digest, .loading c p⟩ ∧
          s'.callers i = some ⟨digest, .settled (.ok m)⟩) ∧
    (∀ s a s', (cacheSystem μ o).Reachable s → (cacheSystem μ o).step s a s' →
      ¬ Undisturbed s a → ∃ s1, Leads (cacheStep o) s' s1 ∧ ¬ OneLoad s1) := by
  refine ⟨?_, ?_, ?_, ?_⟩
  · intro s hs
    have hreach := undisturbed_reachable hs
    exact oneLoad_of_seated (cacheInv_of_reachable hreach.1).flights hreach.2
  · intro s i digest m hs hx
    exact (cacheInv_of_reachable hs).sourced.results i _ m hx rfl
  · intro s a s' digest m _ hstep h
    have hmove : CacheMove o s a s' := cacheMove_of_step hstep
    exact hmove.loaded h
  · intro s a s' hs hstep hcond
    exact disturbed_overlaps hs hstep hcond

/-- One call's fetch fails while a second waits for it, and the second begins to load; the first
drops the flight of both, and a third makes a new one. -/
def failedFetch : List (CacheAction Nat) :=
  [.arrive "d".toList, .lookup 0, .enter 0, .acquire 0, .spawn 0, .arrive "d".toList, .lookup 1,
    .enter 1, .finish 0 (.done (.error "boom".toList)), .join 0, .acquire 1, .remove 0,
    .arrive "d".toList, .lookup 2, .enter 2, .acquire 2]

/-- Two loads of one digest at once. -/
theorem flight_doubled :
    ∃ s, (cacheSystem Nat {}).Reachable s ∧
      s.callers 1 = some ⟨"d".toList, .loading 0 .permit⟩ ∧
      s.callers 2 = some ⟨"d".toList, .loading 1 .permit⟩ ∧ ¬ OneLoad s := by
  have hrun : ∃ s, failedFetch.foldlM (cacheStep {}) (CacheState.new Nat {}) = some s ∧
      s.callers 1 = some ⟨"d".toList, .loading 0 .permit⟩ ∧
      s.callers 2 = some ⟨"d".toList, .loading 1 .permit⟩ :=
    ⟨_, rfl, rfl, rfl⟩
  rcases hrun with ⟨s, hs, hx, hy⟩
  have hreach : (cacheSystem Nat {}).Reachable s :=
    TransitionSystem.Reachable.run (fun _ _ _ h => h) (.init rfl) hs
  refine ⟨s, hreach, hx, hy, fun hone => ?_⟩
  have heq := hone 1 2 _ _ 0 1 hx hy rfl rfl rfl
  cases heq

end FunctionWasm

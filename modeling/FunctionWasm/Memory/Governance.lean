import Mathlib.Algebra.BigOperators.Group.Finset.Piecewise
import Mathlib.Algebra.Order.BigOperators.Group.Finset
import FunctionWasm.Memory.Limiter

/-!
# Governance — the books of the runs that share a pool

* `Moves` says what a step can do, `moves_of_step` that it does nothing else.
* `RunInv` is the invariant of one run, `PoolInv` that of the pool.
* `Books` is what the books should say of every run in every state.
* `memory_governed` says what they do say, and in which runs of the engine that is all of it.
-/

namespace FunctionWasm
namespace Memory

/-! ## What a step can do -/

/-- A move of a run that leaves the pool and the run's hold alone. -/
inductive RunMove (r : Run) : Action → Run → Prop where
  | declare {i : Nat} {kind : RegionKind} (hidle : r.growth = .idle) :
      RunMove r (.declare i kind) { r with regions := r.regions ++ [⟨kind, 0⟩] }
  | growing {i k desired : Nat} {region : Region} (hidle : r.growth = .idle)
      (hregion : r.regions[k]? = some region) (hle : region.size ≤ desired) :
      RunMove r (.growing i k desired) (r.growing region k desired)
  | expire {i need : Nat} {g : Request} (hgrowth : r.growth = .reserving g need) :
      RunMove r (.expire i) { r with limiter := r.limiter.uncharge g.delta, growth := .idle }
  | grown {i : Nat} {g : Request} {region : Region} (hgrowth : r.growth = .admitted g)
      (hregion : r.regions[g.region]? = some region) : RunMove r (.grown i) (r.grown region g)
  | refused {i : Nat} {g : Request} (hgrowth : r.growth = .admitted g) :
      RunMove r (.refused i) (r.growFailed g)

inductive Moves (s : Governance) : Action → Governance → Prop where
  | start (limit : Nat) : Moves s (.start limit) (s.start limit)
  | run {i : Nat} {a : Action} {r r' : Run} (hr : s.runs i = some r) (ha : a.run = some i)
      (h : RunMove r a r') : Moves s a (s.setRun i (some r'))
  | reserve {i need : Nat} {r : Run} {g : Request} {pool pool' : MemPool}
      (hr : s.runs i = some r) (hpool : s.pool = some pool)
      (hgrowth : r.growth = .reserving g need) (hreserve : pool.reserve need = some pool') :
      Moves s (.reserve i)
        { s.setRun i (some { r with limiter := r.limiter.reserved need, growth := .admitted g }) with
          pool := some pool' }
  | finish {i : Nat} {r : Run} (hr : s.runs i = some r) (hidle : r.growth = .idle) :
      Moves s (.finish i)
        { s.setRun i none with pool := s.pool.map fun pool => pool.release r.held }

theorem moves_of_step {s s' : Governance} {a : Action} (h : governanceStep s a = some s') :
    Moves s a s' := by
  cases a with
  | start limit =>
      cases h
      exact .start limit
  | declare i kind =>
      simp only [governanceStep] at h
      split at h
      · next r hr =>
          split at h
          · next hidle =>
              cases h
              exact .run hr rfl (.declare hidle)
          · cases h
      · cases h
  | growing i k desired =>
      simp only [governanceStep] at h
      split at h
      · next r hr =>
          split at h
          · next region hidle hregion =>
              split at h
              · next hle =>
                  cases h
                  exact .run hr rfl (.growing hidle hregion hle)
              · cases h
          · cases h
      · cases h
  -- a reservation changes the run and the pool at once, so it is a move of its own
  | reserve i =>
      simp only [governanceStep] at h
      split at h
      · next r pool hr hpool =>
          split at h
          · next g need hgrowth =>
              split at h
              · next pool' hreserve =>
                  cases h
                  exact .reserve hr hpool hgrowth hreserve
              · cases h
          · cases h
      · cases h
  -- only while the pool has no room for what the run waits for
  | expire i =>
      simp only [governanceStep] at h
      split at h
      · next r pool hr _ =>
          split at h
          · next g need hgrowth =>
              split at h
              · cases h
              · cases h
                exact .run hr rfl (.expire hgrowth)
          · cases h
      · cases h
  | grown i =>
      simp only [governanceStep] at h
      split at h
      · next r hr =>
          split at h
          · next g hgrowth =>
              split at h
              · next region hregion =>
                  cases h
                  exact .run hr rfl (.grown hgrowth hregion)
              · cases h
          · cases h
      · cases h
  | refused i =>
      simp only [governanceStep] at h
      split at h
      · next r hr =>
          split at h
          · next g hgrowth =>
              cases h
              exact .run hr rfl (.refused hgrowth)
          · cases h
      · cases h
  | finish i =>
      simp only [governanceStep] at h
      split at h
      · next r hr =>
          split at h
          · next hidle =>
              cases h
              exact .finish hr hidle
          · cases h
      · cases h

/-! ## One charge -/

/-- A charge stays below the limit; what it still needs is what the hold lacks. -/
theorem charge_eq_some {l l' : RunLimiter} {delta : Nat} {need : Option Nat}
    (h : l.charge delta = some (l', need)) :
    l' = { l with charged := l.charged + delta } ∧ l.charged + delta ≤ l.limit ∧
      (need = none → ∀ n, l.hold = some n → l.charged + delta ≤ n) ∧
      ∀ m, need = some m → ∃ n, l.hold = some n ∧ l.charged + delta = n + m := by
  unfold RunLimiter.charge at h
  split at h
  · cases h
  · next hlimit =>
      dsimp only at h
      split at h
      · next n hhold =>
          rw [Option.some.injEq, Prod.mk.injEq] at h
          rcases h with ⟨rfl, rfl⟩
          refine ⟨rfl, Nat.le_of_not_lt hlimit, ?_, ?_⟩
          · intro hnone n' hn'
            rw [hhold, Option.some.injEq] at hn'
            split at hnone
            · cases hnone
            · next hle => exact hn' ▸ Nat.le_of_not_lt hle
          · intro m hm
            split at hm
            · next hlt =>
                cases hm
                exact ⟨n, hhold, (Nat.add_sub_of_le (Nat.le_of_lt hlt)).symm⟩
            · cases hm
      · next hhold =>
          cases h
          refine ⟨rfl, Nat.le_of_not_lt hlimit, ?_, by simp⟩
          intro _ n hn
          rw [hhold] at hn
          cases hn

/-! ## The invariant of one run -/

/-- The request is for a region of the run, from its present size on, and charged as the region
counts. -/
def Request.Fits (g : Request) (regions : List Region) : Prop :=
  ∃ region, regions[g.region]? = some region ∧ region.size ≤ g.desired ∧
    g.delta = region.kind.bytes (g.desired - region.size)

structure RunInv (r : Run) : Prop where
  charged_le : r.limiter.charged ≤ r.limiter.limit
  charged_eq : r.limiter.charged = r.bytes + r.growth.pending + r.refused
  covered : ∀ n, r.limiter.hold = some n → r.limiter.charged ≤ n + r.growth.waiting
  waits : ∀ g need, r.growth = .reserving g need → g.Fits r.regions ∧ need ≤ g.delta ∧
    ∃ n, r.limiter.hold = some n ∧ r.limiter.charged = n + need
  fits : ∀ g, r.growth = .admitted g → g.Fits r.regions

theorem runInv_new (limit : Nat) (hold : Option Nat) :
    RunInv { limiter := .new limit hold, regions := [], growth := .idle, refused := 0 } where
  charged_le := Nat.zero_le _
  charged_eq := rfl
  covered := fun _ _ => Nat.zero_le _
  waits := fun _ _ h => by cases h
  fits := fun _ h => by cases h

theorem bytes_add (kind : RegionKind) (m n : Nat) :
    kind.bytes (m + n) = kind.bytes m + kind.bytes n := by
  cases kind with
  | memory => rfl
  | table => exact Nat.add_mul m n 8

/-- One number of a list replaced. -/
theorem sum_map_set {α : Type} (f : α → Nat) :
    ∀ {l : List α} {k : Nat} {a : α} (b : α), l[k]? = some a →
      ((l.set k b).map f).sum + f a = (l.map f).sum + f b := by
  intro l
  induction l with
  | nil =>
      intro k a b h
      cases h
  | cons x l ih =>
      intro k a b h
      cases k with
      | zero =>
          cases h
          simp only [List.set_cons_zero, List.map_cons, List.sum_cons]
          omega
      | succ k =>
          have htail := ih b (List.getElem?_cons_succ ▸ h)
          simp only [List.set_cons_succ, List.map_cons, List.sum_cons]
          omega

/-- Growing a region adds the bytes that the growth was charged with. -/
theorem bytes_grown {r : Run} {g : Request} {region : Region} (hfits : g.Fits r.regions)
    (hregion : r.regions[g.region]? = some region) :
    (r.grown region g).bytes = r.bytes + g.delta := by
  rcases hfits with ⟨region', hregion', hle, hdelta⟩
  cases hregion'.symm.trans hregion
  have hset : (r.grown region g).bytes + region.kind.bytes region.size =
      r.bytes + region.kind.bytes g.desired :=
    sum_map_set Region.bytes { region with size := g.desired } hregion
  have hsize : region.kind.bytes g.desired =
      region.kind.bytes region.size + region.kind.bytes (g.desired - region.size) := by
    rw [← bytes_add, Nat.add_sub_of_le hle]
  omega

/-- What a move of a run does, spelled out for a growth. -/
theorem runInv_growing {r : Run} (hinv : RunInv r) {region : Region} {k desired : Nat}
    (hidle : r.growth = .idle) (hregion : r.regions[k]? = some region)
    (hle : region.size ≤ desired) : RunInv (r.growing region k desired) := by
  have hbooks : r.limiter.charged = r.bytes + r.refused := by
    simpa [hidle, Growth.pending] using hinv.charged_eq
  have hfits : Request.Fits ⟨k, desired, region.kind.bytes (desired - region.size)⟩ r.regions :=
    ⟨region, hregion, hle, rfl⟩
  unfold Run.growing
  dsimp only
  cases hcharge : r.limiter.charge (region.kind.bytes (desired - region.size)) with
  -- denied at the limit: the run is as it was
  | none => exact hinv
  | some p =>
      rcases p with ⟨l, need⟩
      rcases charge_eq_some hcharge with ⟨rfl, hlimit, hnone, hsome⟩
      cases need with
      | none =>
          exact
            { charged_le := hlimit
              charged_eq := by
                simp only [Growth.pending, Run.bytes] at hbooks ⊢
                omega
              covered := fun n hn => hnone rfl n hn
              waits := fun _ _ h => by cases h
              fits := fun g h => by
                cases h
                exact hfits }
      | some need =>
          -- the hold does not cover the charge, so the run waits for the pool
          rcases hsome need rfl with ⟨n, hn, heq⟩
          have hcovered : r.limiter.charged ≤ n := by
            simpa [hidle, Growth.waiting] using hinv.covered n hn
          have hneed : need ≤ region.kind.bytes (desired - region.size) := by omega
          exact
            { charged_le := hlimit
              charged_eq := by
                simp only [Growth.pending, Run.bytes] at hbooks ⊢
                omega
              covered := fun n' hn' => by
                cases hn.symm.trans hn'
                exact Nat.le_of_eq heq
              waits := fun g need' h => by
                cases h
                exact ⟨hfits, hneed, n, hn, heq⟩
              fits := fun _ h => by cases h }

/-- Every move of a run keeps its books. -/
theorem RunMove.inv {r r' : Run} {a : Action} (h : RunMove r a r') (hinv : RunInv r) :
    RunInv r' := by
  have hbooks := hinv.charged_eq
  cases h with
  -- a new region is empty
  | @declare _ kind hidle =>
      have hbytes : ((r.regions ++ [Region.mk kind 0]).map Region.bytes).sum = r.bytes := by
        cases kind <;> simp [Run.bytes, Region.bytes, RegionKind.bytes]
      exact
        { charged_le := hinv.charged_le
          charged_eq := by
            simp only [Run.bytes] at hbytes hbooks ⊢
            rw [hbytes, hbooks]
          covered := hinv.covered
          waits := fun g need hgrowth => by
            rw [hidle] at hgrowth
            cases hgrowth
          fits := fun g hgrowth => by
            rw [hidle] at hgrowth
            cases hgrowth }
  | growing hidle hregion hle => exact runInv_growing hinv hidle hregion hle
  -- the charge made at `growing` is taken back
  | @expire _ need g hgrowth =>
      rcases hinv.waits g need hgrowth with ⟨-, hneed, n, hn, heq⟩
      rw [hgrowth, Growth.pending] at hbooks
      exact
        { charged_le := Nat.le_trans (Nat.sub_le _ _) hinv.charged_le
          charged_eq := by
            simp only [RunLimiter.uncharge, Growth.pending, Run.bytes] at hbooks ⊢
            omega
          covered := fun n' hn' => by
            cases hn.symm.trans hn'
            simp only [RunLimiter.uncharge, Growth.waiting]
            omega
          waits := fun _ _ h => by cases h
          fits := fun _ h => by cases h }
  -- what was pending is now in the region
  | @grown _ g region hgrowth hregion =>
      have hbytes := bytes_grown (hinv.fits g hgrowth) hregion
      rw [hgrowth, Growth.pending] at hbooks
      exact
        { charged_le := hinv.charged_le
          charged_eq := by
            rw [hbytes]
            exact hbooks
          covered := fun n hn => by
            have hcovered := hinv.covered n hn
            rwa [hgrowth] at hcovered
          waits := fun _ _ h => by cases h
          fits := fun _ h => by cases h }
  -- the charge is taken back, what was reserved of the pool is kept
  | @refused _ g hgrowth =>
      rw [hgrowth, Growth.pending] at hbooks
      exact
        { charged_le := hinv.charged_le
          charged_eq := by
            simp only [Run.growFailed, Growth.pending, Run.bytes] at hbooks ⊢
            omega
          covered := fun n hn => by
            have hcovered := hinv.covered n hn
            rwa [hgrowth] at hcovered
          waits := fun _ _ h => by cases h
          fits := fun _ h => by cases h }

/-- What the pool served lets the growth go on. -/
theorem runInv_reserved {r : Run} (hinv : RunInv r) {g : Request} {need : Nat}
    (hgrowth : r.growth = .reserving g need) :
    RunInv { r with limiter := r.limiter.reserved need, growth := .admitted g } := by
  rcases hinv.waits g need hgrowth with ⟨hfits, -, n, hn, heq⟩
  have hbooks := hinv.charged_eq
  rw [hgrowth] at hbooks
  exact
    { charged_le := hinv.charged_le
      charged_eq := hbooks
      covered := fun n' hn' => by
        have hn'' : n + need = n' := by simpa [RunLimiter.reserved, hn] using hn'
        rw [← hn'']
        exact Nat.le_of_eq heq
      waits := fun _ _ h => by cases h
      fits := fun _ h => by
        cases h
        exact hfits }

/-- No move of a run but a reservation changes what it holds. -/
theorem RunMove.hold_eq {r r' : Run} {a : Action} (h : RunMove r a r') :
    r'.limiter.hold = r.limiter.hold := by
  cases h with
  | declare => rfl
  | @growing _ k desired region _ _ _ =>
      unfold Run.growing
      dsimp only
      cases hcharge : r.limiter.charge (region.kind.bytes (desired - region.size)) with
      | none => rfl
      | some p =>
          rcases p with ⟨l, need⟩
          rcases charge_eq_some hcharge with ⟨rfl, -⟩
          cases need <;> rfl
  | expire => rfl
  | grown => rfl
  | refused => rfl

/-! ## The invariant of the pool -/

structure PoolInv (s : Governance) : Prop where
  used_eq : ∀ p, s.pool = some p → p.used = ∑ i ∈ Finset.range s.started, s.held i
  used_le : ∀ p, s.pool = some p → p.used ≤ p.total
  started : ∀ {i r}, s.runs i = some r → i < s.started

structure Invariant (s : Governance) : Prop where
  runs : ∀ i r, s.runs i = some r → RunInv r
  pool : PoolInv s

theorem held_setRun (s : Governance) (i : Nat) (r : Option Run) :
    (s.setRun i r).held = Function.update s.held i ((r.map Run.held).getD 0) := by
  funext j
  unfold Governance.held Governance.setRun
  by_cases hj : j = i
  · subst hj
    simp
  · simp [hj]

/-- The holds of all runs, when one run's is replaced. -/
theorem sum_held_setRun {s : Governance} {i : Nat} (hi : i < s.started) (r : Option Run) :
    (∑ j ∈ Finset.range s.started, (s.setRun i r).held j) + s.held i =
      (∑ j ∈ Finset.range s.started, s.held j) + (r.map Run.held).getD 0 := by
  have hmem : i ∈ Finset.range s.started := Finset.mem_range.2 hi
  rw [held_setRun, Finset.sum_update_of_mem hmem, ← Finset.add_sum_erase _ s.held hmem,
    Finset.sdiff_singleton_eq_erase]
  omega

theorem held_of_run {s : Governance} {i : Nat} {r : Run} (h : s.runs i = some r) :
    s.held i = r.held := by
  simp [Governance.held, h]

theorem runs_setRun {s : Governance} {i j : Nat} {r : Option Run} {r' : Run}
    (h : (s.setRun i r).runs j = some r') : (j = i ∧ r = some r') ∨ (j ≠ i ∧ s.runs j = some r') := by
  unfold Governance.setRun at h
  by_cases hj : j = i
  · subst hj
    exact Or.inl ⟨rfl, by simpa using h⟩
  · exact Or.inr ⟨hj, by simpa [hj] using h⟩

theorem invariant_new (total : Option Nat) : Invariant (Governance.new total) where
  runs := fun _ _ h => by cases h
  pool :=
    { used_eq := fun p hp => by
        rcases Option.map_eq_some_iff.1 hp with ⟨_, _, rfl⟩
        rfl
      used_le := fun p hp => by
        rcases Option.map_eq_some_iff.1 hp with ⟨_, _, rfl⟩
        exact Nat.zero_le _
      started := fun h => by cases h }

/-- The pool does not change, and neither does what the run that moves holds. -/
theorem poolInv_setRun {s : Governance} (h : PoolInv s) {i : Nat} {r r' : Run}
    (hr : s.runs i = some r) (hhold : r'.limiter.hold = r.limiter.hold) :
    PoolInv (s.setRun i (some r')) := by
  have hheld : r'.held = r.held := by simp [Run.held, hhold]
  have hsum := sum_held_setRun (h.started hr) (some r')
  rw [held_of_run hr, Option.map_some, Option.getD_some, hheld] at hsum
  refine ⟨fun p hp => ?_, h.used_le, fun {j r''} hj => ?_⟩
  · exact (h.used_eq p hp).trans (Nat.add_right_cancel hsum).symm
  · rcases runs_setRun hj with ⟨rfl, -⟩ | ⟨-, hj⟩
    · exact h.started hr
    · exact h.started hj

theorem reserve_eq_some {p p' : MemPool} {n : Nat} (h : p.reserve n = some p') :
    p.used + n ≤ p.total ∧ p' = { p with used := p.used + n } := by
  unfold MemPool.reserve at h
  split at h
  · next hfits =>
      cases h
      exact ⟨hfits, rfl⟩
  · cases h

theorem Moves.inv {s s' : Governance} {a : Action} (h : Moves s a s') (hinv : Invariant s) :
    Invariant s' := by
  cases h with
  | start limit =>
      have hfresh : s.held s.started = 0 := by
        cases hr : s.runs s.started with
        | none => simp [Governance.held, hr]
        | some r => exact absurd (hinv.pool.started hr) (Nat.lt_irrefl _)
      have hnew : ∀ j r, (s.start limit).runs j = some r →
          (j = s.started ∧ r = { limiter := .new limit (s.pool.map fun _ => 0)
                                 regions := []
                                 growth := .idle
                                 refused := 0 }) ∨ s.runs j = some r := by
        intro j r hj
        rcases runs_setRun hj with ⟨hj, hr⟩ | ⟨-, hj⟩
        · exact Or.inl ⟨hj, (Option.some.inj hr).symm⟩
        · exact Or.inr hj
      refine ⟨?_, ?_, hinv.pool.used_le, ?_⟩
      · intro j r hj
        rcases hnew j r hj with ⟨-, rfl⟩ | hj
        · exact runInv_new _ _
        · exact hinv.runs j r hj
      · intro p hp
        rw [hinv.pool.used_eq p hp]
        -- the new run holds nothing yet
        have hheld : (s.start limit).held = s.held := by
          have hset := held_setRun s s.started (some
            { limiter := .new limit (s.pool.map fun _ => 0)
              regions := []
              growth := .idle
              refused := 0 })
          have hzero : (Option.map (fun _ : MemPool => 0) s.pool).getD 0 = 0 := by
            cases s.pool <;> rfl
          funext j
          refine (congrFun hset j).trans ?_
          by_cases hj : j = s.started
          · subst hj
            simp [hfresh, Run.held, RunLimiter.new, hzero]
          · simp [hj]
        rw [hheld]
        simp [Governance.start, Finset.sum_range_succ, hfresh]
      · intro j r hj
        rcases hnew j r hj with ⟨rfl, -⟩ | hj
        · exact Nat.lt_succ_self _
        · exact Nat.lt_succ_of_lt (hinv.pool.started hj)
  -- a move of one run, and what it holds of the pool stays
  | @run i a r r' hr _ hmove =>
      refine ⟨?_, poolInv_setRun hinv.pool hr hmove.hold_eq⟩
      intro j r'' hj
      rcases runs_setRun hj with ⟨-, hr''⟩ | ⟨-, hj⟩
      · cases hr''
        exact hmove.inv (hinv.runs i r hr)
      · exact hinv.runs j r'' hj
  -- what the run holds grows by what the pool is used more
  | @reserve i need r g pool pool' hr hpool hgrowth hreserve =>
      rcases reserve_eq_some hreserve with ⟨hfits, rfl⟩
      rcases (hinv.runs i r hr).waits g need hgrowth with ⟨-, -, n, hn, -⟩
      refine ⟨?_, ?_, ?_, ?_⟩
      · intro j r' hj
        rcases runs_setRun hj with ⟨-, hr'⟩ | ⟨-, hj⟩
        · cases hr'
          exact runInv_reserved (hinv.runs i r hr) hgrowth
        · exact hinv.runs j r' hj
      · intro p hp
        cases hp
        have hsum := sum_held_setRun (hinv.pool.started hr)
          (some { r with limiter := r.limiter.reserved need, growth := .admitted g })
        have hheld : r.held = n := by simp [Run.held, hn]
        have hheld' : Run.held { r with
            limiter := r.limiter.reserved need
            growth := .admitted g } = n + need := by
          simp [Run.held, RunLimiter.reserved, hn]
        rw [held_of_run hr, Option.map_some, Option.getD_some, hheld, hheld'] at hsum
        have hused := hinv.pool.used_eq pool hpool
        show pool.used + need = ∑ j ∈ Finset.range s.started, (s.setRun i _).held j
        omega
      · intro p hp
        cases hp
        exact hfits
      · intro j r' hj
        rcases runs_setRun hj with ⟨rfl, -⟩ | ⟨-, hj⟩
        · exact hinv.pool.started hr
        · exact hinv.pool.started hj
  -- the pool gets back what the run held
  | @finish i r hr _ =>
      refine ⟨?_, ?_, ?_, ?_⟩
      · intro j r' hj
        rcases runs_setRun hj with ⟨-, hr'⟩ | ⟨-, hj⟩
        · cases hr'
        · exact hinv.runs j r' hj
      · intro p hp
        rcases Option.map_eq_some_iff.1 hp with ⟨pool, hpool, rfl⟩
        have hsum := sum_held_setRun (hinv.pool.started hr) none
        rw [held_of_run hr, Option.map_none, Option.getD_none] at hsum
        have hused := hinv.pool.used_eq pool hpool
        show pool.used - r.held = ∑ j ∈ Finset.range s.started, (s.setRun i none).held j
        omega
      · intro p hp
        rcases Option.map_eq_some_iff.1 hp with ⟨pool, hpool, rfl⟩
        exact Nat.le_trans (Nat.sub_le _ _) (hinv.pool.used_le pool hpool)
      · intro j r' hj
        rcases runs_setRun hj with ⟨-, hr'⟩ | ⟨-, hj⟩
        · cases hr'
        · exact hinv.pool.started hj

theorem invariant_of_reachable {total : Option Nat} {s : Governance}
    (h : (governance total).Reachable s) : Invariant s := by
  refine h.invariant ?_ ?_
  · rintro s rfl
    exact invariant_new total
  · intro s a s' _ hinv hstep
    have hmoves : Moves s a s' := moves_of_step hstep
    exact hmoves.inv hinv

/-! ## Denials and ends -/

/-- A run is as the others leave it. -/
theorem Moves.frame {s s' : Governance} {a : Action} (h : Moves s a s') {i : Nat} {r : Run}
    (hr : s.runs i = some r) (hstarted : i < s.started) (ha : a.run ≠ some i) :
    s'.runs i = some r := by
  have hother : ∀ {j : Nat} {r' : Option Run}, i ≠ j → (s.setRun j r').runs i = some r := by
    intro j r' hj
    simpa [Governance.setRun, hj] using hr
  cases h with
  | start limit => exact hother (Nat.ne_of_lt hstarted)
  | run _ ha' _ =>
      rw [ha'] at ha
      exact hother fun heq => ha (congrArg some heq.symm)
  | reserve _ _ _ _ => exact hother fun heq => ha (congrArg some heq.symm)
  | finish _ _ => exact hother fun heq => ha (congrArg some heq.symm)

/-- A growth that the pool does not serve in time leaves the run as it was. -/
theorem growing_uncharged {r : Run} {region : Region} {k desired need : Nat} {g : Request}
    (hidle : r.growth = .idle) (h : (r.growing region k desired).growth = .reserving g need) :
    { r.growing region k desired with
      limiter := (r.growing region k desired).limiter.uncharge g.delta
      growth := .idle } = r := by
  unfold Run.growing at h ⊢
  dsimp only at h ⊢
  cases hcharge : r.limiter.charge (region.kind.bytes (desired - region.size)) with
  | none =>
      rw [hcharge] at h
      cases hidle.symm.trans h
  | some p =>
      rcases p with ⟨l, need'⟩
      rcases charge_eq_some hcharge with ⟨rfl, -⟩
      rw [hcharge] at h
      cases need' with
      | none => cases h
      | some need' =>
          cases h
          rcases r with ⟨limiter, regions, growth, refused⟩
          cases hidle
          simp [RunLimiter.uncharge]

/-- The run that takes a step of its own. -/
theorem growing_step {s s' : Governance} {i k desired : Nat}
    (h : governanceStep s (.growing i k desired) = some s') :
    ∃ r region, s.runs i = some r ∧ r.growth = .idle ∧
      s' = s.setRun i (some (r.growing region k desired)) := by
  have hmoves := moves_of_step h
  cases hmoves with
  | run hr ha hmove =>
      cases ha
      cases hmove with
      | growing hidle _ _ => exact ⟨_, _, hr, hidle, rfl⟩

theorem expire_step {s s' : Governance} {i : Nat} {r : Run} (hr : s.runs i = some r)
    (h : governanceStep s (.expire i) = some s') :
    ∃ g need, r.growth = .reserving g need ∧ s' = s.setRun i (some
      { r with
        limiter := r.limiter.uncharge g.delta
        growth := .idle }) := by
  have hmoves := moves_of_step h
  cases hmoves with
  | run hr' ha hmove =>
      cases ha
      cases hr.symm.trans hr'
      cases hmove with
      | expire hgrowth => exact ⟨_, _, hgrowth, rfl⟩

/-- A growth that is denied at the limit leaves the run as it was. -/
theorem denied_at_limit {s s' : Governance} {i k desired : Nat} {r : Run} {region : Region}
    (hr : s.runs i = some r) (hregion : r.regions[k]? = some region)
    (hdenied : r.limiter.charge (region.kind.bytes (desired - region.size)) = none)
    (h : governanceStep s (.growing i k desired) = some s') : s'.runs i = s.runs i := by
  have hmoves := moves_of_step h
  cases hmoves with
  | run hr' ha hmove =>
      cases ha
      cases hr.symm.trans hr'
      cases hmove with
      | growing _ hregion' _ =>
          cases hregion.symm.trans hregion'
          simp [Governance.setRun, Run.growing, hdenied, hr]

/-- A growth that is denied by the pool, whatever the other runs did while it waited, leaves the run
as it was before it asked. -/
theorem denied_unchanged {total : Option Nat} {s s₁ s₂ : Governance} {i k desired : Nat}
    {others : List (Action × Governance)} (hs : (governance total).Reachable s)
    (hask : governanceStep s (.growing i k desired) = some s₁)
    (hothers : (governance total).Path s₁ others) (hframe : ∀ x ∈ others, x.1.run ≠ some i)
    (hexpire : governanceStep (TransitionSystem.endState s₁ others) (.expire i) = some s₂) :
    s₂.runs i = s.runs i := by
  rcases growing_step hask with ⟨r, region, hr, hidle, heq⟩
  have hs₁ : (governance total).Reachable s₁ := .step (.growing i k desired) hs hask
  have hasked : s₁.runs i = some (r.growing region k desired) := by
    rw [heq]
    simp [Governance.setRun]
  have hwaits : (TransitionSystem.endState s₁ others).runs i =
      some (r.growing region k desired) := by
    refine TransitionSystem.Path.invariant (T := governance total)
      (I := fun s => s.runs i = some (r.growing region k desired))
      (C := fun a => a.run ≠ some i) ?_ hs₁ hasked hothers hframe
    intro t a t' ht hrun ha hstep
    have hmoves : Moves t a t' := moves_of_step hstep
    exact hmoves.frame hrun ((invariant_of_reachable ht).pool.started hrun) ha
  rcases expire_step hwaits hexpire with ⟨g, need, hgrowth, rfl⟩
  simp only [Governance.setRun, Function.update_self]
  rw [growing_uncharged hidle hgrowth, hr]

/-- The end of a run gives back what it held. -/
theorem finish_returns {total : Option Nat} {s s' : Governance} {i : Nat}
    (hs : (governance total).Reachable s) (h : governanceStep s (.finish i) = some s') :
    ∃ r, s.runs i = some r ∧ s'.runs i = none ∧
      ∀ p, s.pool = some p → ∃ p', s'.pool = some p' ∧ p.used = p'.used + r.held := by
  have hmoves := moves_of_step h
  cases hmoves with
  | run hr ha hmove =>
      cases ha
      cases hmove
  | @finish _ r hr _ =>
      refine ⟨r, hr, by simp [Governance.setRun], fun p hp => ?_⟩
      have hinv := (invariant_of_reachable hs).pool
      have hle : r.held ≤ p.used := by
        rw [hinv.used_eq p hp, ← held_of_run hr]
        exact Finset.single_le_sum (fun _ _ => Nat.zero_le _)
          (Finset.mem_range.2 (hinv.started hr))
      exact ⟨p.release r.held, by simp [hp], (Nat.sub_add_cancel hle).symm⟩

/-! ## The books -/

/-- What the books should say: each run's charged bytes are within its limit, are what its memories
and tables have beside the growth under way, and are covered by its hold beside what that growth
still waits for; the pool's used bytes are all the holds, and within its size. -/
structure Books (s : Governance) : Prop where
  charged_le : ∀ i r, s.runs i = some r → r.limiter.charged ≤ r.limiter.limit
  charged_eq : ∀ i r, s.runs i = some r → r.limiter.charged = r.bytes + r.growth.pending
  covered : ∀ i r n, s.runs i = some r → r.limiter.hold = some n →
    r.limiter.charged ≤ n + r.growth.waiting
  used_eq : ∀ p, s.pool = some p → p.used = ∑ i ∈ Finset.range s.started, s.held i
  used_le : ∀ p, s.pool = some p → p.used ≤ p.total

/-- The engine refuses no growth that the limiter admitted, unless it is one of no bytes. -/
def Performs (s : Governance) (a : Action) : Prop :=
  ∀ i r g, a = .refused i → s.runs i = some r → r.growth = .admitted g → g.delta = 0

theorem Invariant.books {s : Governance} (h : Invariant s)
    (hperformed : ∀ i r, s.runs i = some r → r.refused = 0) : Books s where
  charged_le := fun i r hr => (h.runs i r hr).charged_le
  charged_eq := fun i r hr => by
    have hbooks := (h.runs i r hr).charged_eq
    rwa [hperformed i r hr] at hbooks
  covered := fun i r n hr hn => (h.runs i r hr).covered n hn
  used_eq := h.pool.used_eq
  used_le := h.pool.used_le

/-- Only a refusal by the engine adds to what was refused. -/
theorem RunMove.refused_eq {r r' : Run} {a : Action} (h : RunMove r a r')
    (hperforms : ∀ g i, a = .refused i → r.growth = .admitted g → g.delta = 0) :
    r'.refused = r.refused := by
  cases h with
  | declare => rfl
  | @growing _ k desired region _ _ _ =>
      unfold Run.growing
      dsimp only
      split <;> rfl
  | expire => rfl
  | grown => rfl
  | refused hgrowth => simp [Run.growFailed, hperforms _ _ rfl hgrowth]

/-- Where the engine performs what the limiter admits, nothing has ever been refused. -/
theorem performed_reachable {total : Option Nat} {s : Governance}
    (h : ((governance total).restrict Performs).Reachable s) :
    (governance total).Reachable s ∧ ∀ i r, s.runs i = some r → r.refused = 0 := by
  refine TransitionSystem.Reachable.restrict_invariant
    (I := fun s : Governance => ∀ i r, s.runs i = some r → r.refused = 0) ?_ ?_ h
  · rintro s rfl i r hr
    cases hr
  · intro s a s' _ hzero hperforms hstep i r hr
    have hmoves : Moves s a s' := moves_of_step hstep
    cases hmoves with
    | start limit =>
        rcases runs_setRun hr with ⟨-, hr⟩ | ⟨-, hr⟩
        · cases hr
          rfl
        · exact hzero i r hr
    | @run j _ r₀ r₁ hr₀ ha hmove =>
        rcases runs_setRun hr with ⟨-, hr⟩ | ⟨-, hr⟩
        · cases hr
          -- the engine performed it, so nothing is added to what was refused
          rw [hmove.refused_eq fun g i' ha' hgrowth => ?_]
          · exact hzero j r₀ hr₀
          · rw [ha'] at ha
            cases ha
            exact hperforms j r₀ g ha' hr₀ hgrowth
        · exact hzero i r hr
    | @reserve j _ r₀ _ _ _ hr₀ _ _ _ =>
        rcases runs_setRun hr with ⟨-, hr⟩ | ⟨-, hr⟩
        · cases hr
          exact hzero j r₀ hr₀
        · exact hzero i r hr
    | finish =>
        rcases runs_setRun hr with ⟨-, hr⟩ | ⟨-, hr⟩
        · cases hr
        · exact hzero i r hr

/-- In every run of the engine that performs what the limiter admits, the books are right in every
state.  In any run of it all but the sizes are, and a run's charged bytes are the sizes exactly when
nothing that it was admitted has been refused.  A growth that is denied, at the limit or by the pool,
leaves the run as it was, and the end of a run gives back its hold. -/
theorem memory_governed (total : Option Nat) :
    (∀ s, ((governance total).restrict Performs).Reachable s → Books s) ∧
    (∀ s, (governance total).Reachable s →
      (∀ i r, s.runs i = some r → r.limiter.charged ≤ r.limiter.limit ∧
        (r.limiter.charged = r.bytes + r.growth.pending ↔ r.refused = 0) ∧
        ∀ n, r.limiter.hold = some n → r.limiter.charged ≤ n + r.growth.waiting) ∧
      ∀ p, s.pool = some p →
        p.used = ∑ i ∈ Finset.range s.started, s.held i ∧ p.used ≤ p.total) ∧
    (∀ s s' i k desired r region, s.runs i = some r → r.regions[k]? = some region →
      r.limiter.charge (region.kind.bytes (desired - region.size)) = none →
      governanceStep s (.growing i k desired) = some s' → s'.runs i = s.runs i) ∧
    (∀ s s₁ s₂ i k desired others, (governance total).Reachable s →
      governanceStep s (.growing i k desired) = some s₁ →
      (governance total).Path s₁ others → (∀ x ∈ others, x.1.run ≠ some i) →
      governanceStep (TransitionSystem.endState s₁ others) (.expire i) = some s₂ →
      s₂.runs i = s.runs i) ∧
    ∀ s s' i, (governance total).Reachable s → governanceStep s (.finish i) = some s' →
      ∃ r, s.runs i = some r ∧ s'.runs i = none ∧
        ∀ p, s.pool = some p → ∃ p', s'.pool = some p' ∧ p.used = p'.used + r.held := by
  refine ⟨?_, ?_, ?_, ?_, ?_⟩
  · intro s hs
    rcases performed_reachable hs with ⟨hreach, hzero⟩
    exact (invariant_of_reachable hreach).books hzero
  · intro s hs
    have hinv := invariant_of_reachable hs
    refine ⟨fun i r hr => ?_, fun p hp => ⟨hinv.pool.used_eq p hp, hinv.pool.used_le p hp⟩⟩
    have hbooks := (hinv.runs i r hr).charged_eq
    refine ⟨(hinv.runs i r hr).charged_le, ?_, (hinv.runs i r hr).covered⟩
    rw [hbooks]
    exact Nat.add_eq_left
  · intro s s' i k desired r region hr hregion hdenied hstep
    exact denied_at_limit hr hregion hdenied hstep
  · intro s s₁ s₂ i k desired others hs hask hothers hframe hexpire
    exact denied_unchanged hs hask hothers hframe hexpire
  · intro s s' i hs hfinish
    exact finish_returns hs hfinish

/-- A run of limit 8: its memory grows to 4 bytes, and the engine refuses its growth to 8. -/
def refusedGrowth : List Action :=
  [.start 8, .declare 0 .memory, .growing 0 0 4, .reserve 0, .grown 0, .growing 0 0 8, .reserve 0,
    .refused 0]

/-- A growth that is refused after it was admitted stays charged, and the run may not grow to its
limit any more. -/
theorem refused_growth_charged :
    ∃ s r, (governance (some 8)).Reachable s ∧ s.runs 0 = some r ∧ r.growth = .idle ∧
      r.limiter.charged = 8 ∧ r.bytes = 4 ∧ ¬ Books s ∧
      (r.limiter.charge 4).isNone = true := by
  have hrun : ((refusedGrowth.foldlM governanceStep (Governance.new (some 8))).bind
      fun s => s.runs 0) = some
        { limiter := { limit := 8, hold := some 8, charged := 8 }
          regions := [⟨.memory, 4⟩]
          growth := .idle
          refused := 4 } := by decide +kernel
  rcases Option.bind_eq_some_iff.1 hrun with ⟨s, hs, hr⟩
  have hreach : (governance (some 8)).Reachable s :=
    TransitionSystem.Reachable.run (fun _ _ _ h => h) (.init rfl) hs
  refine ⟨s, _, hreach, hr, rfl, rfl, rfl, fun hbooks => ?_, rfl⟩
  have hcharged := hbooks.charged_eq 0 _ hr
  cases hcharged

end Memory
end FunctionWasm

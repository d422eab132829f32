import FunctionWasm.Scheduler.Invariant

/-!
# Fairness — no key is granted twice while another one waits

The rotation is the argument: a key that has just been granted is behind every key that waits, and
it stays behind until they have been granted.

* `step_rotation` says once what a move does to the rotation and to the grants.
* `Ahead` is the order between two keys that a move keeps, `ahead_step` says so.
* `fairScheduler_safe_and_fair` is safety in every reachable state and fairness along every run.
-/

namespace FunctionWasm

variable {κ : Type}

open SchedulerSystem TransitionSystem

/-! ## Grants and waiting keys -/

/-- A move grants a slot to a call under `k`. -/
def GrantsTo (k : κ) (s s' : SchedulerSystem κ) : Prop :=
  ∃ n, s'.grants = s.grants ++ [(k, n)]

/-- The key a move grants to is the one named. -/
theorem GrantsTo.unique {s s' : SchedulerSystem κ} {j k : κ} (hj : GrantsTo j s s')
    (hk : GrantsTo k s s') : j = k := by
  rcases hj with ⟨n, hn⟩
  rcases hk with ⟨m, hm⟩
  have hlast : [(j, n)] = [(k, m)] := List.append_cancel_left (hn.symm.trans hm)
  cases hlast
  rfl

/-- A key with a waiter queued. -/
def Waits (j : κ) (s : SchedulerSystem κ) : Prop :=
  ∃ q, s.state.queues j = some q ∧ q ≠ []

theorem Ledger.waits_iff {s : SchedulerSystem κ} (h : Ledger s) {k : κ} :
    k ∈ s.state.order ↔ Waits k s := by
  rw [h.rotation.mem_order]
  constructor
  · rintro ⟨q, hq⟩
    exact ⟨q, hq, h.rotation.queue_ne hq⟩
  · rintro ⟨q, hq, _⟩
    exact ⟨q, hq⟩

/-! ## Two keys in the rotation -/

/-- `j` waits in the rotation and `k` is not before it. -/
def Ahead (j k : κ) (order : List κ) : Prop :=
  ∃ before after, order = before ++ j :: after ∧ k ∉ before

theorem Ahead.append {j k : κ} {order : List κ} (h : Ahead j k order) (rest : List κ) :
    Ahead j k (order ++ rest) := by
  rcases h with ⟨before, after, rfl, hk⟩
  exact ⟨before, after ++ rest, by simp, hk⟩

theorem Ahead.filter {j k : κ} {order : List κ} (h : Ahead j k order) {p : κ → Bool}
    (hj : j ∈ order.filter p) : Ahead j k (order.filter p) := by
  rcases h with ⟨before, after, rfl, hk⟩
  refine ⟨before.filter p, after.filter p, ?_, fun hmem => hk (List.mem_of_mem_filter hmem)⟩
  rw [List.filter_append, List.filter_cons_of_pos (List.of_mem_filter hj)]

theorem ahead_of_not_mem {j k : κ} {order : List κ} (hj : j ∈ order) (hk : k ∉ order) :
    Ahead j k order := by
  rcases List.append_of_mem hj with ⟨before, after, rfl⟩
  exact ⟨before, after, rfl, fun hmem => hk (List.mem_append_left _ hmem)⟩

/-! ## Safety -/

/-- What holds in every reachable state. -/
structure SchedulerSafe (total : Nat) (s : SchedulerSystem κ) : Prop where
  active_le : s.state.active ≤ total
  active_eq : s.state.active = s.guards + s.mailbox.length
  /-- no call is granted twice -/
  granted_once : (s.grants.map Prod.snd).Nodup
  /-- every grant is in its channel, received or handed on -/
  grant_kept : (s.grants.map Prod.snd).Perm (s.mailbox ++ (s.received ++ s.handedOn))
  /-- a grant in a channel belongs to a call that has yet to look into it -/
  grant_awaited : ∀ n ∈ s.mailbox, ∃ c, s.calls n = some c ∧ c.pending
  waits_full : ∀ k, Waits k s → s.state.active = total
  order_nodup : s.state.order.Nodup
  order_exact : ∀ k, k ∈ s.state.order ↔ Waits k s
  /-- calls of one key are granted in the order they were made -/
  arrival_order : s.grants.Pairwise fun g g' => g.1 = g'.1 → g.2 < g'.2
  /-- and none overtakes one that is still queued -/
  no_overtaking : ∀ k n q w, (k, n) ∈ s.grants → s.state.queues k = some q → w ∈ q → n < w.tx

theorem schedulerSafe_of_inv {total : Nat} {s : SchedulerSystem κ} (h : SchedulerInv total s) :
    SchedulerSafe total s where
  active_le := h.counter.active_le
  active_eq := h.counter.active_eq
  granted_once := h.ledger.grants_nodup
  grant_kept := h.ledger.accounted
  grant_awaited := fun _ hn => h.ledger.mailbox_pending hn
  waits_full := fun _ ⟨_, hq, _⟩ => h.counter.full hq
  order_nodup := h.ledger.rotation.order_nodup
  order_exact := fun _ => h.ledger.waits_iff
  arrival_order := h.ledger.granted_sorted
  no_overtaking := fun _ _ _ _ hg hq hw => h.ledger.granted_first hg hq hw

variable [DecidableEq κ]

/-! ## The rotation along a move -/

/-- What a move does to the rotation: it grants with nobody waiting, it grants to the key at the
front, or it grants nothing and a key joins or leaves. -/
def RotationStep (s s' : SchedulerSystem κ) : Prop :=
  (∃ key, GrantsTo key s s' ∧ s.state.order = [] ∧ s'.state.order = []) ∨
    (∃ key order, GrantsTo key s s' ∧ s.state.order = key :: order ∧
      (s'.state.order = order ∨ s'.state.order = order ++ [key])) ∨
    (s'.grants = s.grants ∧
      (s'.state.order = s.state.order ∨ (∃ key, s'.state.order = s.state.order ++ [key]) ∨
        ∃ key, s'.state.order = s.state.order.filter fun k => k ≠ key))

theorem Ledger.wake_rotation {s : SchedulerSystem κ} (h : Ledger s) : RotationStep s s.wake := by
  rcases h.wake_cases with ⟨_, hwake⟩ | ⟨key, w, q, order, horder, _, hwake⟩
  · rw [hwake]
    exact Or.inr (Or.inr ⟨rfl, Or.inl rfl⟩)
  · rw [hwake]
    refine Or.inr (Or.inl ⟨key, order, ⟨w.tx, rfl⟩, horder, ?_⟩)
    by_cases hempty : q = []
    · exact Or.inl (by simp [SchedulerState.grantTo, hempty])
    · exact Or.inr (by simp [SchedulerState.grantTo, hempty])

theorem removeWaiter_order (s : SchedulerState κ) (key : κ) (id : Nat) :
    (s.removeWaiter key id).order = s.order ∨
      (s.removeWaiter key id).order = s.order.filter fun k => k ≠ key := by
  unfold SchedulerState.removeWaiter
  cases s.queues key with
  | none => exact Or.inl rfl
  | some q =>
      dsimp only
      split
      · exact Or.inr rfl
      · exact Or.inl rfl

theorem step_rotation {total : Nat} {s s' : SchedulerSystem κ} {a : SchedulerAction κ}
    (h : SchedulerInv total s) (hs : schedulerStep total s a = some s') : RotationStep s s' := by
  rcases schedulerStep_cases hs with ⟨key, id, hfree, rfl⟩ | ⟨key, id, _, rfl⟩ |
    ⟨n, c, hc, hmem, rfl⟩ | ⟨n, c, hc, rfl⟩ | ⟨n, c, hc, hmem, rfl⟩ | ⟨n, c, hc, hmem, rfl⟩ |
    ⟨hguards, rfl⟩
  · have hnone : s.state.order = [] := by
      rw [List.eq_nil_iff_forall_not_mem]
      intro k hk
      rcases h.ledger.rotation.mem_order.1 hk with ⟨q, hq⟩
      rw [h.no_queue hfree k] at hq
      cases hq
    exact Or.inl ⟨key, ⟨s.arrived, rfl⟩, hnone, hnone⟩
  · refine Or.inr (Or.inr ⟨rfl, ?_⟩)
    by_cases hsome : (s.state.queues key).isSome = true
    · exact Or.inl (by simp [queueUp, SchedulerState.enqueue, hsome])
    · exact Or.inr (Or.inl ⟨key, by simp [queueUp, SchedulerState.enqueue, hsome]⟩)
  · exact Or.inr (Or.inr ⟨rfl, Or.inl rfl⟩)
  · exact Or.inr (Or.inr ⟨rfl, Or.inl rfl⟩)
  · exact (h.ledger.handOn hc hmem).wake_rotation
  · refine Or.inr (Or.inr ⟨rfl, ?_⟩)
    rcases removeWaiter_order s.state c.key c.id with hsame | hfilter
    · exact Or.inl hsame
    · exact Or.inr (Or.inr ⟨c.key, hfilter⟩)
  · exact h.ledger.dropGuard.wake_rotation

/-- A move that leaves `j` waiting keeps it ahead of `k`, unless it grants to `j`. -/
theorem ahead_step {s s' : SchedulerSystem κ} {j k : κ} (h : Ahead j k s.state.order)
    (hj : j ∈ s'.state.order) (hstep : RotationStep s s') :
    Ahead j k s'.state.order ∨ GrantsTo j s s' := by
  rcases hstep with ⟨key, _, _, hempty⟩ | ⟨key, order, hgrant, horder, hnext⟩ | ⟨_, hnext⟩
  · rw [hempty] at hj
    cases hj
  · rcases h with ⟨before, after, hsplit, hk⟩
    rw [horder] at hsplit
    cases before with
    | nil =>
        have hkey : key = j := (List.cons.inj hsplit).1
        exact Or.inr (hkey ▸ hgrant)
    | cons b before =>
        have hrest : order = before ++ j :: after := (List.cons.inj hsplit).2
        have hahead : Ahead j k order :=
          ⟨before, after, hrest, fun hmem => hk (List.mem_cons_of_mem _ hmem)⟩
        rcases hnext with hsame | hback
        · exact Or.inl (by rw [hsame]; exact hahead)
        · exact Or.inl (by rw [hback]; exact hahead.append [key])
  · rcases hnext with hsame | ⟨key, hback⟩ | ⟨key, hfilter⟩
    · exact Or.inl (by rw [hsame]; exact h)
    · exact Or.inl (by rw [hback]; exact h.append [key])
    · rw [hfilter] at hj ⊢
      exact Or.inl (h.filter hj)

/-- After a grant to `k`, every other key that waits is ahead of it. -/
theorem ahead_of_grant {s s' : SchedulerSystem κ} {j k : κ} (hinv : Ledger s) (hne : j ≠ k)
    (hj : j ∈ s'.state.order) (hgrant : GrantsTo k s s') (hstep : RotationStep s s') :
    Ahead j k s'.state.order := by
  rcases hstep with ⟨key, _, _, hempty⟩ | ⟨key, order, hkey, horder, hnext⟩ | ⟨hsame, _⟩
  · rw [hempty] at hj
    cases hj
  · cases hkey.unique hgrant
    have hnodup : (k :: order).Nodup := by
      rw [← horder]
      exact hinv.rotation.order_nodup
    have hnot : k ∉ order := (List.nodup_cons.1 hnodup).1
    rcases hnext with hsame | hback
    · rw [hsame] at hj ⊢
      exact ahead_of_not_mem hj hnot
    · rw [hback] at hj ⊢
      have hmem : j ∈ order := by
        rcases List.mem_append.1 hj with hmem | hlast
        · exact hmem
        · exact absurd (List.mem_singleton.1 hlast) hne
      exact (ahead_of_not_mem hmem hnot).append [k]
  · rcases hgrant with ⟨n, hn⟩
    rw [hsame] at hn
    have hlen : s.grants.length = s.grants.length + 1 := by
      simpa using congrArg List.length hn
    omega

/-- No grant to `k` while another key is ahead of it. -/
theorem no_grant_behind {s s' : SchedulerSystem κ} {j k : κ} (hne : j ≠ k)
    (hahead : Ahead j k s.state.order) (hstep : RotationStep s s') : ¬ GrantsTo k s s' := by
  intro hgrant
  rcases hahead with ⟨before, after, hsplit, hk⟩
  rcases hstep with ⟨key, _, hempty, _⟩ | ⟨key, order, hkey, horder, _⟩ | ⟨hsame, _⟩
  · rw [hempty] at hsplit
    simp at hsplit
  · cases hkey.unique hgrant
    rw [horder] at hsplit
    cases before with
    | nil => exact hne (List.cons.inj hsplit).1.symm
    | cons b before =>
        have hb : k = b := (List.cons.inj hsplit).1
        exact hk (hb ▸ List.mem_cons_self ..)
  · rcases hgrant with ⟨n, hn⟩
    rw [hsame] at hn
    have hlen : s.grants.length = s.grants.length + 1 := by
      simpa using congrArg List.length hn
    omega

/-! ## Fairness -/

/-- A segment of a run that begins right after a grant to `k` and ends right before the next one
grants to every other key that waits throughout. -/
theorem grant_between {total : Nat} {s₀ s₁ s₂ : SchedulerSystem κ} {a₁ a₂ : SchedulerAction κ}
    {segment : List (SchedulerAction κ × SchedulerSystem κ)} {j k : κ}
    (hreach : (fairScheduler κ total).Reachable s₀)
    (hfirst : (fairScheduler κ total).step s₀ a₁ s₁) (hgrant : GrantsTo k s₀ s₁)
    (hpath : (fairScheduler κ total).Path s₁ segment)
    (hlast : (fairScheduler κ total).step (endState s₁ segment) a₂ s₂)
    (hagain : GrantsTo k (endState s₁ segment) s₂) (hne : j ≠ k) (hwaits : Waits j s₁)
    (hthroughout : ∀ x ∈ segment, Waits j x.2) :
    ∃ before a s after, segment = before ++ (a, s) :: after ∧
      GrantsTo j (endState s₁ before) s := by
  have hreach₁ : (fairScheduler κ total).Reachable s₁ := .step a₁ hreach hfirst
  have hinv₀ : SchedulerInv total s₀ := schedulerInv_of_reachable hreach
  have hinv₁ : SchedulerInv total s₁ := schedulerInv_of_reachable hreach₁
  have hahead₁ : Ahead j k s₁.state.order :=
    ahead_of_grant hinv₀.ledger hne (hinv₁.ledger.waits_iff.2 hwaits) hgrant
      (step_rotation hinv₀ hfirst)
  have hstep : ∀ s a s', (fairScheduler κ total).Reachable s → Ahead j k s.state.order →
      Waits j s → Waits j s' → (fairScheduler κ total).step s a s' →
        Ahead j k s'.state.order ∨ GrantsTo j s s' := by
    intro s a s' hs hahead _ hwaits' hmove
    have hinv : SchedulerInv total s := schedulerInv_of_reachable hs
    have hinv' : SchedulerInv total s' := schedulerInv_of_reachable (.step a hs hmove)
    exact ahead_step hahead (hinv'.ledger.waits_iff.2 hwaits') (step_rotation hinv hmove)
  rcases Path.preserves hstep hreach₁ hahead₁ hwaits hpath hthroughout with hend | hgranted
  · have hreachEnd : (fairScheduler κ total).Reachable (endState s₁ segment) :=
      hpath.reachable hreach₁
    have hinvEnd : SchedulerInv total (endState s₁ segment) :=
      schedulerInv_of_reachable hreachEnd
    exact absurd hagain (no_grant_behind hne hend (step_rotation hinvEnd hlast))
  · exact hgranted

/-- The scheduler is safe in every state any interleaving reaches, and between two grants to one key
every other key that waits throughout is granted. -/
theorem fairScheduler_safe_and_fair (κ : Type) [DecidableEq κ] (total : Nat) :
    (∀ s : SchedulerSystem κ, (fairScheduler κ total).Reachable s → SchedulerSafe total s) ∧
      ∀ (s₀ s₁ s₂ : SchedulerSystem κ) (a₁ a₂ : SchedulerAction κ)
        (segment : List (SchedulerAction κ × SchedulerSystem κ)) (j k : κ),
        (fairScheduler κ total).Reachable s₀ → (fairScheduler κ total).step s₀ a₁ s₁ →
          GrantsTo k s₀ s₁ → (fairScheduler κ total).Path s₁ segment →
            (fairScheduler κ total).step (endState s₁ segment) a₂ s₂ →
              GrantsTo k (endState s₁ segment) s₂ → j ≠ k → Waits j s₁ →
                (∀ x ∈ segment, Waits j x.2) →
                  ∃ before a s after, segment = before ++ (a, s) :: after ∧
                    GrantsTo j (endState s₁ before) s := by
  constructor
  · intro s hs
    exact schedulerSafe_of_inv (schedulerInv_of_reachable hs)
  · intro s₀ s₁ s₂ a₁ a₂ segment j k hreach hfirst hgrant hpath hlast hagain hne hwaits hall
    exact grant_between hreach hfirst hgrant hpath hlast hagain hne hwaits hall

/-! ## One slot, two keys -/

/-- The state of a scheduler of one slot after some moves. -/
def oneSlot (as : List (SchedulerAction Text)) : SchedulerSystem Text :=
  (schedulerRun 1 .new as).getD .new

def hot : Text := "hot".toList

def cold : Text := "cold".toList

/-- The slot is held, two calls under `hot` and then two under `cold` are queued. -/
def hotAndCold : List (SchedulerAction Text) :=
  [.acquire hot 0, .acquire hot 0, .acquire hot 1, .acquire cold 2, .acquire cold 3]

/-- The moves between the two grants to `hot`. -/
def betweenHots : List (SchedulerAction Text × SchedulerSystem Text) :=
  [(.receive 1, oneSlot (hotAndCold ++ [.drop, .receive 1])),
    (.drop, oneSlot (hotAndCold ++ [.drop, .receive 1, .drop])),
    (.receive 3, oneSlot (hotAndCold ++ [.drop, .receive 1, .drop, .receive 3]))]

/-- The second grant to `hot`. -/
def hotAgain : SchedulerSystem Text :=
  oneSlot (hotAndCold ++ [.drop, .receive 1, .drop, .receive 3, .drop])

/-- `cold` is served before `hot` is served again. -/
theorem cold_between_hots :
    ∃ before a s after, betweenHots = before ++ (a, s) :: after ∧
      GrantsTo cold (endState (oneSlot (hotAndCold ++ [.drop])) before) s := by
  have hrun : schedulerRun 1 .new hotAndCold = some (oneSlot hotAndCold) := rfl
  refine (fairScheduler_safe_and_fair Text 1).2 (oneSlot hotAndCold) _ hotAgain .drop .drop _ cold
    hot (reachable_of_run hrun) rfl ⟨1, rfl⟩ ⟨rfl, rfl, rfl, trivial⟩ rfl ⟨2, rfl⟩ (by decide)
    ⟨[⟨3, 2⟩, ⟨4, 3⟩], rfl, by simp⟩ ?_
  intro x hx
  simp only [betweenHots, List.mem_cons, List.not_mem_nil, or_false] at hx
  rcases hx with rfl | rfl | rfl
  · exact ⟨[⟨3, 2⟩, ⟨4, 3⟩], rfl, by simp⟩
  · exact ⟨[⟨4, 3⟩], rfl, by simp⟩
  · exact ⟨[⟨4, 3⟩], rfl, by simp⟩

end FunctionWasm

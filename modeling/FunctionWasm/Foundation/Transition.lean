/-!
# Transition — labelled transition systems

A system has initial states and labelled steps.  What holds initially and survives every step holds
of every reachable state; what a segment of a run preserves is proved along the segment.

* `TransitionSystem.Reachable` and `Reachable.invariant` are states and their invariants.
* `TransitionSystem.Leads` says that computed moves lead from one state to another.
* `TransitionSystem.restrict` keeps the steps that meet a condition.
* `TransitionSystem.Refines` says that one system, seen through a function, is a run of another.
* `TransitionSystem.Path` is a segment of a run with the states it passes through, `Path.preserves`
  carries a property along it.
-/

namespace FunctionWasm

structure TransitionSystem (σ α : Type) where
  init : σ → Prop
  step : σ → α → σ → Prop

namespace TransitionSystem

variable {σ α : Type} {T : TransitionSystem σ α}

inductive Reachable (T : TransitionSystem σ α) : σ → Prop where
  | init {s : σ} (h : T.init s) : Reachable T s
  | step {s s' : σ} (a : α) (hs : Reachable T s) (h : T.step s a s') : Reachable T s'

/-- What holds initially and is preserved by every step from a reachable state holds of every
reachable state. -/
theorem Reachable.invariant {I : σ → Prop} (hinit : ∀ s, T.init s → I s)
    (hstep : ∀ s a s', T.Reachable s → I s → T.step s a s' → I s') {s : σ} (h : T.Reachable s) :
    I s := by
  induction h with
  | init h => exact hinit _ h
  | step a hs h ih => exact hstep _ a _ hs ih h

/-- Moves computed one after the other lead from a reachable state to a reachable one. -/
theorem Reachable.run {f : σ → α → Option σ} (hf : ∀ s a s', f s a = some s' → T.step s a s')
    {as : List α} : ∀ {s s' : σ}, T.Reachable s → as.foldlM f s = some s' → T.Reachable s' := by
  induction as with
  | nil =>
      intro s s' hs h
      have hEq : s = s' := by simpa using h
      exact hEq ▸ hs
  | cons a as ih =>
      intro s s' hs h
      rw [List.foldlM_cons] at h
      rcases Option.bind_eq_some_iff.1 h with ⟨s1, hs1, htail⟩
      exact ih (.step a hs (hf s a s1 hs1)) htail

/-- Moves computed one after the other lead from one state to another. -/
def Leads (f : σ → α → Option σ) (s s' : σ) : Prop :=
  ∃ as : List α, as.foldlM f s = some s'

theorem Leads.refl {f : σ → α → Option σ} (s : σ) : Leads f s s :=
  ⟨[], rfl⟩

theorem Leads.head {f : σ → α → Option σ} {s s1 s2 : σ} {a : α} (h : f s a = some s1)
    (hrest : Leads f s1 s2) : Leads f s s2 := by
  rcases hrest with ⟨as, has⟩
  refine ⟨a :: as, ?_⟩
  rw [List.foldlM_cons, h]
  exact has

theorem Leads.trans {f : σ → α → Option σ} {s s1 s2 : σ} (h : Leads f s s1)
    (hrest : Leads f s1 s2) : Leads f s s2 := by
  rcases h with ⟨as, has⟩
  rcases hrest with ⟨bs, hbs⟩
  refine ⟨as ++ bs, ?_⟩
  rw [List.foldlM_append, has]
  exact hbs

/-- The same system, taking only the steps that meet a condition. -/
def restrict (T : TransitionSystem σ α) (C : σ → α → Prop) : TransitionSystem σ α where
  init := T.init
  step s a s' := C s a ∧ T.step s a s'

/-- A run of those steps is a run; what they preserve holds in it, too. -/
theorem Reachable.restrict_invariant {C : σ → α → Prop} {I : σ → Prop}
    (hinit : ∀ s, T.init s → I s)
    (hstep : ∀ s a s', T.Reachable s → I s → C s a → T.step s a s' → I s') {s : σ}
    (h : (T.restrict C).Reachable s) : T.Reachable s ∧ I s := by
  induction h with
  | init h => exact ⟨.init h, hinit _ h⟩
  | step a _ h ih => exact ⟨.step a ih.1 h.2, hstep _ a _ ih.1 ih.2 h.1 h.2⟩

/-- Seen through `f`, every step of `T` is a step of `U` or none. -/
structure Refines {τ β : Type} (f : σ → τ) (T : TransitionSystem σ α) (U : TransitionSystem τ β) :
    Prop where
  init : ∀ s, T.init s → U.init (f s)
  step : ∀ s a s', T.step s a s' → f s' = f s ∨ ∃ b, U.step (f s) b (f s')

theorem Refines.reachable {τ β : Type} {f : σ → τ} {U : TransitionSystem τ β} (h : Refines f T U)
    {s : σ} (hs : T.Reachable s) : U.Reachable (f s) := by
  induction hs with
  | init hinit => exact .init (h.init _ hinit)
  | step a _ hstep ih =>
      rcases h.step _ a _ hstep with hsame | ⟨b, hmove⟩
      · rw [hsame]
        exact ih
      · exact .step b ih hmove

/-- A segment of a run: the steps taken from a state, with the states they lead to. -/
def Path (T : TransitionSystem σ α) : σ → List (α × σ) → Prop
  | _, [] => True
  | s, (a, s') :: rest => T.step s a s' ∧ Path T s' rest

/-- The state a segment ends in. -/
def endState (s : σ) : List (α × σ) → σ
  | [] => s
  | (_, s') :: rest => endState s' rest

theorem Path.reachable {segment : List (α × σ)} :
    ∀ {s : σ}, T.Reachable s → T.Path s segment → T.Reachable (endState s segment) := by
  induction segment with
  | nil =>
      intro s hs _
      exact hs
  | cons x rest ih =>
      rcases x with ⟨a, s'⟩
      rintro s hs ⟨hstep, hrest⟩
      exact ih (.step a hs hstep) hrest

/-- What the steps of a segment preserve holds at its end if it does at its beginning. -/
theorem Path.invariant {I : σ → Prop} {C : α → Prop}
    (hstep : ∀ s a s', T.Reachable s → I s → C a → T.step s a s' → I s') {segment : List (α × σ)} :
    ∀ {s : σ}, T.Reachable s → I s → T.Path s segment → (∀ x ∈ segment, C x.1) →
      I (endState s segment) := by
  induction segment with
  | nil =>
      intro s _ hI _ _
      exact hI
  | cons x rest ih =>
      rcases x with ⟨a, s'⟩
      rintro s hs hI ⟨hfirst, hrest⟩ hall
      have hI' : I s' := hstep s a s' hs hI (hall _ List.mem_cons_self) hfirst
      exact ih (.step a hs hfirst) hI' hrest fun y hy => hall y (List.mem_cons_of_mem _ hy)

/-- Along a segment whose states all satisfy `Q`, a property that a step between two such states
keeps unless `stop` happens on it either survives or `stop` happens on the way. -/
theorem Path.preserves {I Q : σ → Prop} {stop : σ → σ → Prop}
    (hstep : ∀ s a s', T.Reachable s → I s → Q s → Q s' → T.step s a s' → I s' ∨ stop s s') :
    ∀ {segment : List (α × σ)} {s : σ}, T.Reachable s → I s → Q s → T.Path s segment →
      (∀ x ∈ segment, Q x.2) →
        I (endState s segment) ∨
          ∃ before a s' after, segment = before ++ (a, s') :: after ∧
            stop (endState s before) s' := by
  intro segment
  induction segment with
  | nil =>
      intro s _ hI _ _ _
      exact Or.inl hI
  | cons x rest ih =>
      rcases x with ⟨a, s'⟩
      rintro s hs hI hQ ⟨hfirst, hrest⟩ hall
      have hQ' : Q s' := hall (a, s') (List.mem_cons_self ..)
      rcases hstep s a s' hs hI hQ hQ' hfirst with hI' | hstop
      · rcases ih (.step a hs hfirst) hI' hQ' hrest
            (fun y hy => hall y (List.mem_cons_of_mem _ hy)) with hend | ⟨b, a1, s1, c, hsplit, hst⟩
        · exact Or.inl hend
        · exact Or.inr ⟨(a, s') :: b, a1, s1, c, by rw [hsplit]; rfl, hst⟩
      · exact Or.inr ⟨[], a, s', rest, rfl, hstop⟩

end TransitionSystem
end FunctionWasm

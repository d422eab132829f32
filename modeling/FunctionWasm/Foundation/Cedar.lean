import Mathlib.Data.Finset.Union
import Mathlib.Data.Fintype.Card
import Mathlib.Data.Set.Finite.Basic
import Mathlib.Logic.Relation
import Mathlib.Order.WellFounded
import FunctionWasm.Foundation.Text

/-!
# Cedar — entity stores and the decision of a policy set

A store is a set of entities whose parents make them a hierarchy.  A policy is satisfied by a request
when its scopes match and its condition holds; a condition that cannot be evaluated does not hold.
A request is allowed when some permit is satisfied and no forbid is.

* `Store` is a list of entities in which one uid names one entity and nobody is its own ancestor,
  `Store.ofEntities` builds it or refuses.
* `acyclic_iff_peel` decides the hierarchy, `acyclic_of_rank` is the way to prove it.
* `PolicySet.isAuthorized` is the decision.

Attribute and context values and the expressions of conditions are parameters.
-/

namespace FunctionWasm
namespace Cedar

structure EntityUid where
  typeName : Text
  id : Text
  deriving DecidableEq

structure Entity (ν : Type) where
  uid : EntityUid
  attrs : List (Text × ν)
  parents : Finset EntityUid
  deriving DecidableEq

variable {ν : Type}

/-! ## The hierarchy -/

/-- `v` is stated as a parent of `u`. -/
def Parent (es : List (Entity ν)) (u v : EntityUid) : Prop :=
  ∃ e ∈ es, e.uid = u ∧ v ∈ e.parents

def Acyclic (es : List (Entity ν)) : Prop :=
  ∀ u, ¬ Relation.TransGen (Parent es) u u

/-- Parents of smaller rank make no cycle. -/
theorem acyclic_of_rank {es : List (Entity ν)} (rank : EntityUid → Nat)
    (h : ∀ u v, Parent es u v → rank v < rank u) : Acyclic es := by
  have hdown : ∀ u v, Relation.TransGen (Parent es) u v → rank v < rank u := by
    intro u v hpath
    induction hpath with
    | single hstep => exact h _ _ hstep
    | tail _ hstep ih => exact lt_trans (h _ _ hstep) ih
  intro u hcycle
  exact lt_irrefl _ (hdown u u hcycle)

/-- Whether some parent of `e` is itself among the entities. -/
def hasParentIn (es : List (Entity ν)) (e : Entity ν) : Bool :=
  es.any fun f => f.uid ∈ e.parents

/-- Takes the entities off that have no parent among the rest. -/
def peelOnce (es : List (Entity ν)) : List (Entity ν) :=
  es.filter (hasParentIn es)

/-- What is left after `n` rounds. -/
def peel : Nat → List (Entity ν) → List (Entity ν)
  | 0, es => es
  | n + 1, es => peel n (peelOnce es)

theorem Parent.mono {es es' : List (Entity ν)} (h : es ⊆ es') {u v : EntityUid}
    (hp : Parent es u v) : Parent es' u v := by
  rcases hp with ⟨e, he, huv⟩
  exact ⟨e, h he, huv⟩

theorem Acyclic.mono {es es' : List (Entity ν)} (h : es ⊆ es') (hacyclic : Acyclic es') :
    Acyclic es := by
  intro u hcycle
  exact hacyclic u (Relation.TransGen.mono (fun _ _ hp => Parent.mono h hp) u u hcycle)

/-- Entities that are nobody's own ancestor have one without a parent among them. -/
theorem exists_top {es : List (Entity ν)} (hacyclic : Acyclic es) (hne : es ≠ []) :
    ∃ e ∈ es, hasParentIn es e = false := by
  let above : {u // u ∈ es.map Entity.uid} → {u // u ∈ es.map Entity.uid} → Prop :=
    fun v u => Relation.TransGen (Parent es) u.1 v.1
  have : Finite {u // u ∈ es.map Entity.uid} := (List.finite_toSet _).to_subtype
  have : Std.Irrefl above := ⟨fun u => hacyclic u.1⟩
  have : IsTrans _ above := ⟨fun _ _ _ hwv hvu => Relation.TransGen.trans hvu hwv⟩
  have hwf : WellFounded above := Finite.wellFounded_of_trans_of_irrefl above
  rcases List.exists_mem_of_ne_nil es hne with ⟨e, he⟩
  rcases hwf.has_min Set.univ ⟨⟨e.uid, List.mem_map_of_mem he⟩, trivial⟩ with ⟨⟨u, hu⟩, -, hmin⟩
  rcases List.mem_map.1 hu with ⟨top, htop, rfl⟩
  refine ⟨top, htop, ?_⟩
  by_contra hparent
  have hany : hasParentIn es top = true := by simpa using hparent
  rcases List.any_eq_true.1 hany with ⟨f, hf, hmem⟩
  exact hmin ⟨f.uid, List.mem_map_of_mem hf⟩ trivial
    (.single ⟨top, htop, rfl, of_decide_eq_true hmem⟩)

theorem length_peelOnce_lt {es : List (Entity ν)} (hacyclic : Acyclic es) (hne : es ≠ []) :
    (peelOnce es).length < es.length := by
  rcases exists_top hacyclic hne with ⟨e, he, htop⟩
  refine lt_of_le_of_ne (List.length_filter_le _ _) ?_
  intro heq
  have hall := List.length_filter_eq_length_iff.1 heq e he
  simp [htop] at hall

theorem peel_of_acyclic {n : Nat} {es : List (Entity ν)} (hacyclic : Acyclic es)
    (hn : es.length ≤ n) : peel n es = [] := by
  induction n generalizing es with
  | zero => simpa [peel] using hn
  | succ n ih =>
      by_cases hne : es = []
      · subst hne
        exact ih hacyclic (Nat.zero_le n)
      · have hlt := length_peelOnce_lt hacyclic hne
        exact ih (hacyclic.mono (List.filter_subset_self _)) (by omega)

/-- Whoever is on a cycle stays, whatever is peeled off. -/
theorem peelOnce_cycle {es : List (Entity ν)} {u : EntityUid}
    (hcycle : Relation.TransGen (Parent es) u u) :
    Relation.TransGen (Parent (peelOnce es)) u u := by
  -- every step of the cycle goes on to a further step, so its entity has a parent in the list
  have hstep : ∀ {v w : EntityUid}, Parent es v w → Relation.TransGen (Parent es) w u →
      Parent (peelOnce es) v w := by
    rintro v w ⟨e, he, hv, hw⟩ hrest
    rcases Relation.TransGen.head'_iff.1 hrest with ⟨x, ⟨f, hf, hfw, -⟩, -⟩
    refine ⟨e, List.mem_filter.2 ⟨he, ?_⟩, hv, hw⟩
    exact List.any_eq_true.2 ⟨f, hf, decide_eq_true (hfw ▸ hw)⟩
  have hpath : ∀ {v : EntityUid}, Relation.TransGen (Parent es) v u →
      Relation.TransGen (Parent (peelOnce es)) v u := by
    intro v hv
    induction hv using Relation.TransGen.head_induction_on with
    | single h => exact .single (hstep h hcycle)
    | head h hrest ih => exact .head (hstep h hrest) ih
  exact hpath hcycle

theorem peel_cycle {n : Nat} {es : List (Entity ν)} {u : EntityUid}
    (hcycle : Relation.TransGen (Parent es) u u) : peel n es ≠ [] := by
  induction n generalizing es with
  | zero =>
      rcases Relation.TransGen.head'_iff.1 hcycle with ⟨_, ⟨e, he, -⟩, -⟩
      exact List.ne_nil_of_mem he
  | succ n ih => exact ih (peelOnce_cycle hcycle)

/-- Peeling decides whether there is a cycle. -/
theorem acyclic_iff_peel {es : List (Entity ν)} : Acyclic es ↔ peel es.length es = [] := by
  constructor
  · intro h
    exact peel_of_acyclic h le_rfl
  · intro h u hcycle
    exact peel_cycle hcycle h

instance (es : List (Entity ν)) : Decidable (Acyclic es) :=
  decidable_of_iff ((peel es.length es).isEmpty = true) (by
    rw [List.isEmpty_iff]
    exact acyclic_iff_peel.symm)

/-! ## Stores -/

/-- Two entities of one uid are one entity. -/
def Consistent (es : List (Entity ν)) : Prop :=
  ∀ e ∈ es, ∀ f ∈ es, e.uid = f.uid → e = f

instance [DecidableEq ν] (es : List (Entity ν)) : Decidable (Consistent es) :=
  inferInstanceAs (Decidable (∀ e ∈ es, ∀ f ∈ es, e.uid = f.uid → e = f))

structure Store (ν : Type) where
  entities : List (Entity ν)
  consistent : Consistent entities
  acyclic : Acyclic entities

/-- The store of some entities, unless two different ones share a uid or there is a cycle. -/
def Store.ofEntities [DecidableEq ν] (es : List (Entity ν)) : Option (Store ν) :=
  if h : Consistent es ∧ Acyclic es then some ⟨es, h.1, h.2⟩ else none

theorem Store.ofEntities_isSome [DecidableEq ν] {es : List (Entity ν)} :
    (Store.ofEntities es).isSome = true ↔ Consistent es ∧ Acyclic es := by
  unfold ofEntities
  split
  · next h => simp [h]
  · next h => simp [h]

def parentsOf (es : List (Entity ν)) (u : EntityUid) : Finset EntityUid :=
  (es.find? fun e => e.uid = u).elim ∅ Entity.parents

/-- The ancestors of `u` within some generations. -/
def ancestors (es : List (Entity ν)) : Nat → EntityUid → Finset EntityUid
  | 0, _ => ∅
  | n + 1, u => parentsOf es u ∪ (parentsOf es u).biUnion (ancestors es n)

/-- `u in v`. -/
def Store.isIn (s : Store ν) (u v : EntityUid) : Bool :=
  u = v ∨ v ∈ ancestors s.entities s.entities.length u

theorem mem_parentsOf {es : List (Entity ν)} (h : Consistent es) {u v : EntityUid} :
    v ∈ parentsOf es u ↔ Parent es u v := by
  unfold parentsOf
  cases hfind : es.find? fun e => e.uid = u with
  | none =>
      have hnone := List.find?_eq_none.1 hfind
      constructor
      · intro hv
        simp at hv
      · rintro ⟨e, he, rfl, -⟩
        simpa using hnone e he
  | some e =>
      have he := List.mem_of_find?_eq_some hfind
      have huid : e.uid = u := by simpa using List.find?_some hfind
      constructor
      · intro hv
        exact ⟨e, he, huid, hv⟩
      · rintro ⟨f, hf, hfu, hv⟩
        have hef : e = f := h e he f hf (huid.trans hfu.symm)
        simpa [hef] using hv

theorem mem_ancestors_succ {es : List (Entity ν)} (h : Consistent es) {n : Nat}
    {u v : EntityUid} :
    v ∈ ancestors es (n + 1) u ↔ Parent es u v ∨ ∃ w, Parent es u w ∧ v ∈ ancestors es n w := by
  simp [ancestors, mem_parentsOf h]

theorem transGen_of_mem_ancestors {es : List (Entity ν)} (h : Consistent es) {n : Nat}
    {u v : EntityUid} (hv : v ∈ ancestors es n u) : Relation.TransGen (Parent es) u v := by
  induction n generalizing u with
  | zero => simp [ancestors] at hv
  | succ n ih =>
      rcases (mem_ancestors_succ h).1 hv with hparent | ⟨w, hparent, hw⟩
      · exact .single hparent
      · exact .head hparent (ih hw)

/-- A line of descent visits an entity once, so it is no longer than the store: `A` holds what can
still be visited from `u`. -/
theorem mem_ancestors_of_transGen {es : List (Entity ν)} (h : Consistent es) (hacyclic : Acyclic es)
    {v : EntityUid} {n : Nat} {u : EntityUid} {A : Finset EntityUid}
    (hA : ∀ w x, Relation.ReflTransGen (Parent es) u w → Parent es w x → w ∈ A)
    (hn : A.card ≤ n) (hpath : Relation.TransGen (Parent es) u v) :
    v ∈ ancestors es n u := by
  induction n generalizing u A with
  | zero =>
      rcases Relation.TransGen.head'_iff.1 hpath with ⟨w, hparent, -⟩
      have hmem := hA u w .refl hparent
      simp [Finset.card_eq_zero.1 (Nat.le_zero.1 hn)] at hmem
  | succ n ih =>
      rcases Relation.TransGen.head'_iff.1 hpath with ⟨w, hparent, hrest⟩
      rw [mem_ancestors_succ h]
      rcases Relation.reflTransGen_iff_eq_or_transGen.1 hrest with heq | hrest
      · subst heq
        exact .inl hparent
      · have hmem := hA u w .refl hparent
        refine .inr ⟨w, hparent, ih (A := A.erase u) ?_ ?_ hrest⟩
        · intro x y hwx hxy
          refine Finset.mem_erase.2 ⟨?_, hA x y (.head hparent hwx) hxy⟩
          rintro rfl
          exact hacyclic x (.head' hparent hwx)
        · have hcard := Finset.card_erase_add_one hmem
          omega

/-- `in` is descent in the hierarchy. -/
theorem Store.isIn_iff (s : Store ν) {u v : EntityUid} :
    s.isIn u v = true ↔ Relation.ReflTransGen (Parent s.entities) u v := by
  have hancestors : v ∈ ancestors s.entities s.entities.length u ↔
      Relation.TransGen (Parent s.entities) u v := by
    refine ⟨transGen_of_mem_ancestors s.consistent, ?_⟩
    refine mem_ancestors_of_transGen s.consistent s.acyclic
      (A := (s.entities.map Entity.uid).toFinset) ?_ ?_
    · rintro w x - ⟨e, he, rfl, -⟩
      exact List.mem_toFinset.2 (List.mem_map_of_mem he)
    · simpa using List.toFinset_card_le (s.entities.map Entity.uid)
  rw [Relation.reflTransGen_iff_eq_or_transGen]
  exact decide_eq_true_iff.trans (or_congr eq_comm hancestors)

/-! ## Policies -/

structure Request (ν : Type) where
  principal : EntityUid
  action : EntityUid
  resource : EntityUid
  context : List (Text × ν)

inductive Effect where
  | permit
  | forbid
  deriving DecidableEq

/-- What a policy's head asks of the principal, the action or the resource. -/
inductive Scope where
  | any
  | eq (u : EntityUid)
  | mem (u : EntityUid)
  | memAny (us : List EntityUid)
  | is (typeName : Text)
  | isMem (typeName : Text) (u : EntityUid)
  deriving DecidableEq

def Scope.holds (s : Store ν) (u : EntityUid) : Scope → Bool
  | any => true
  | eq v => u = v
  | mem v => s.isIn u v
  | memAny vs => vs.any fun v => s.isIn u v
  | is typeName => u.typeName = typeName
  | isMem typeName v => u.typeName = typeName ∧ s.isIn u v

inductive ClauseKind where
  | when
  | unless
  deriving DecidableEq

/-- A clause; `ε` are the expressions. -/
structure Clause (ε : Type) where
  kind : ClauseKind
  body : ε

structure Policy (ε : Type) where
  id : Text
  effect : Effect
  principal : Scope
  action : Scope
  resource : Scope
  conditions : List (Clause ε)

abbrev PolicySet (ε : Type) := List (Policy ε)

/-- What an expression evaluates to, as a condition. -/
class Expressions (ε : Type) (ν : outParam Type) where
  eval : ε → Request ν → Store ν → Except Text Bool

/-- `permit (principal, action == a, resource);` -/
def permitAction {ε : Type} (id : Text) (action : EntityUid) : Policy ε where
  id := id
  effect := .permit
  principal := .any
  action := .eq action
  resource := .any
  conditions := []

section Decision

variable {ε : Type} [Expressions ε ν]

/-- A clause that cannot be evaluated does not hold. -/
def Clause.holds (c : Clause ε) (r : Request ν) (s : Store ν) : Bool :=
  match Expressions.eval c.body r s with
  | .ok b => if c.kind = .when then b else !b
  | .error _ => false

def Policy.satisfied (p : Policy ε) (r : Request ν) (s : Store ν) : Bool :=
  p.principal.holds s r.principal && p.action.holds s r.action &&
    p.resource.holds s r.resource && p.conditions.all fun c => c.holds r s

namespace PolicySet

/-- Whether some policy of this effect is satisfied. -/
def someSatisfied (ps : PolicySet ε) (effect : Effect) (r : Request ν) (s : Store ν) : Bool :=
  ps.any fun p => p.effect = effect ∧ p.satisfied r s

def isAuthorized (ps : PolicySet ε) (r : Request ν) (s : Store ν) : Bool :=
  ps.someSatisfied .permit r s && !ps.someSatisfied .forbid r s

/-- A forbid more allows nothing more. -/
theorem isAuthorized_of_insert {before after : PolicySet ε} {p : Policy ε}
    (hp : p.effect = .forbid) {r : Request ν} {s : Store ν}
    (h : isAuthorized (before ++ p :: after) r s = true) :
    isAuthorized (before ++ after) r s = true := by
  simp only [isAuthorized, someSatisfied, List.any_append, List.any_cons, hp, reduceCtorEq,
    false_and, decide_false, Bool.false_or, true_and, Bool.not_or, Bool.and_eq_true] at h ⊢
  exact ⟨h.1, h.2.1, h.2.2.2⟩

/-- Every request for the action is allowed. -/
def PermitsEvery (ps : PolicySet ε) (action : EntityUid) : Prop :=
  ∀ (r : Request ν) s, r.action = action → ps.isAuthorized r s = true

/-- A permit for everyone and everything, alone, permits every request for its action. -/
theorem permitAction_permitsEvery (id : Text) (action : EntityUid) :
    PermitsEvery ([permitAction id action] : PolicySet ε) action := by
  intro r s haction
  simp [isAuthorized, someSatisfied, permitAction, Policy.satisfied, Scope.holds, haction]

end PolicySet
end Decision
end Cedar
end FunctionWasm

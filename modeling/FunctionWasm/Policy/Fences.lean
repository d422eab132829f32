import FunctionWasm.Foundation.CedarText
import FunctionWasm.Policy.Hosts
import FunctionWasm.Policy.Kinds
import FunctionWasm.Require.Fence

/-!
# Fences — what the two fences ask of a policy, and what permits answer

Every question about a resource gives it some ancestors, which have none themselves.

* `composeContext` and `requireContext` are what a change and a selector are judged with.
* `Star` is a resource under its ancestors, which Cedar accepts.
* `decide_star` is the answer of permits as they are written, `decide_of_permitsEvery` that of a
  policy that permits everything.
-/

namespace FunctionWasm
namespace Authz

open Cedar
open Compose (Change)
open Require (Requirement)

/-! ## The questions -/

def composeContext (c : Change) : List (Text × Value) :=
  [("change".toList, .str c.change.asStr), ("name".toList, .str c.name),
    ("target".toList, .str (if c.composite then "composite".toList else "composed".toList))]

/-- A name, labels and a namespace where the selector sets them. -/
def requireContext (r : Requirement) : List (Text × Value) :=
  let matched :=
    match r.matched with
    | .name name => [("name".toList, Value.str name)]
    | .labels labels => [("labels".toList, .record labels)]
    | .none => []
  matched ++ (r.namespaceName.map fun ns => ("namespace".toList, Value.str ns)).toList

section Questions

variable {ε : Type} [Expressions ε Value]

def permitsComposeBy (ps : PolicySet ε) (principal : Principal) (c : Change) : Bool :=
  decide ps principal actionComposeResource (kindEntities c.group c.kind).1
    (kindEntities c.group c.kind).2 (composeContext c)

def permitsRequireBy (ps : PolicySet ε) (principal : Principal) (r : Requirement) : Bool :=
  decide ps principal actionRequireResource (kindEntities r.group r.kind).1
    (kindEntities r.group r.kind).2 (requireContext r)

def CompositionPolicy.permitsCompose (p : CompositionPolicy ε) (principal : Principal)
    (c : Change) : Bool :=
  permitsComposeBy p.policy principal c

def CompositionPolicy.permitsRequire (p : CompositionPolicy ε) (principal : Principal)
    (r : Requirement) : Bool :=
  permitsRequireBy p.policy principal r

/-- The author's policy, as the fences see it. -/
def CompositionPolicy.layer (p : CompositionPolicy ε) : Require.PolicyLayer Principal where
  scopesComposeResource := p.scopesAction actionComposeResource
  permitsCompose := p.permitsCompose
  scopesRequireResource := p.scopesAction actionRequireResource
  permitsRequire := p.permitsRequire

end Questions

/-! ## A resource under its ancestors -/

/-- A resource whose ancestors are not the resource, nor the caller. -/
structure Star (top : Entity Value) (above : List EntityUid) : Prop where
  parents : top.parents = above.toFinset
  self : top.uid ∉ above
  apart : ∀ u ∈ top.uid :: above, u.typeName ≠ "Request".toList

namespace Star

variable {top : Entity Value} {above : List EntityUid} {principal : Principal}

/-- The entities of a decision. -/
def entities (top : Entity Value) (above : List EntityUid) (principal : Principal) :
    List (Entity Value) :=
  above.map flatEntity ++ [top] ++ [principal.toEntity]

theorem mem_entities {e : Entity Value} : e ∈ entities top above principal ↔
    (∃ u ∈ above, flatEntity u = e) ∨ e = top ∨ e = principal.toEntity := by
  simp [entities]

theorem apart_principal (h : Star top above) {u : EntityUid} (hu : u ∈ top.uid :: above) :
    u ≠ principal.toEntity.uid := by
  intro heq
  exact h.apart u hu (congrArg EntityUid.typeName heq)

/-- Only the resource has parents. -/
theorem parent_iff (h : Star top above) {u v : EntityUid} :
    Parent (entities top above principal) u v ↔ u = top.uid ∧ v ∈ above := by
  constructor
  · rintro ⟨e, he, rfl, hv⟩
    rcases mem_entities.1 he with ⟨a, -, rfl⟩ | rfl | rfl
    · simp at hv
    · rw [h.parents, List.mem_toFinset] at hv
      exact ⟨rfl, hv⟩
    · simp [Principal.toEntity] at hv
  · rintro ⟨rfl, hv⟩
    refine ⟨top, mem_entities.2 (.inr (.inl rfl)), rfl, ?_⟩
    rwa [h.parents, List.mem_toFinset]

theorem consistent (h : Star top above) : Consistent (entities top above principal) := by
  intro e he f hf huid
  rcases mem_entities.1 he with ⟨a, ha, rfl⟩ | rfl | rfl <;>
    rcases mem_entities.1 hf with ⟨b, hb, rfl⟩ | rfl | rfl
  · rw [flatEntity_uid, flatEntity_uid] at huid
    rw [huid]
  · exact absurd (huid ▸ ha) h.self
  · exact absurd huid (h.apart_principal (List.mem_cons_of_mem _ ha))
  · exact absurd (huid ▸ hb) h.self
  · rfl
  · exact absurd huid (h.apart_principal List.mem_cons_self)
  · exact absurd huid.symm (h.apart_principal (List.mem_cons_of_mem _ hb))
  · exact absurd huid.symm (h.apart_principal List.mem_cons_self)
  · rfl

theorem acyclic (h : Star top above) : Acyclic (entities top above principal) := by
  refine acyclic_of_rank (fun u => if u = top.uid then 1 else 0) ?_
  intro u v hparent
  rcases h.parent_iff.1 hparent with ⟨rfl, hv⟩
  have hne : v ≠ top.uid := fun heq => h.self (heq ▸ hv)
  simp [hne]

theorem store (h : Star top above) (principal : Principal) :
    ∃ s, Cedar.Store.ofEntities (entities top above principal) = some s ∧
      s.entities = entities top above principal :=
  ⟨⟨_, h.consistent, h.acyclic⟩, dif_pos ⟨h.consistent, h.acyclic⟩, rfl⟩

/-- `in` means to be the resource or one of its ancestors. -/
theorem isIn_iff (h : Star top above) {s : Cedar.Store Value}
    (hs : s.entities = entities top above principal) {v : EntityUid} :
    s.isIn top.uid v = true ↔ v = top.uid ∨ v ∈ above := by
  rw [Cedar.Store.isIn_iff, hs]
  constructor
  · intro hpath
    rcases Relation.ReflTransGen.cases_tail hpath with heq | ⟨u, -, hparent⟩
    · exact .inl heq
    · exact .inr (h.parent_iff.1 hparent).2
  · rintro (rfl | hv)
    · exact .refl
    · exact .single (h.parent_iff.2 ⟨rfl, hv⟩)

variable {ε : Type} [Expressions ε Value] {ps : PolicySet ε} {action : Text}
  {context : List (Text × Value)}

/-- The question is one about the resource in that store. -/
theorem decide_iff (h : Star top above) :
    decide ps principal action top.uid (above.map flatEntity ++ [top]) context = true ↔
      ∃ s : Cedar.Store Value, s.entities = entities top above principal ∧
        ps.isAuthorized
          { principal := requestSelf
            action := actionUid action
            resource := top.uid
            context := context } s = true := by
  have hpresent : ((above.map flatEntity ++ [top]).any fun e => e.uid = top.uid) = true :=
    List.any_eq_true.2 ⟨top, by simp, by simp⟩
  rcases h.store principal with ⟨s, hs, hentities⟩
  have hs' : Cedar.Store.ofEntities (above.map flatEntity ++ [top] ++ [principal.toEntity]) =
      some s := hs
  unfold decide decideRaw
  simp only [hpresent, if_true, Option.toList_some, hs']
  constructor
  · exact fun hallowed => ⟨s, hentities, hallowed⟩
  · rintro ⟨s', hentities', hallowed⟩
    have hsame : s = s' := by
      cases s
      cases s'
      cases hentities.trans hentities'.symm
      rfl
    rwa [hsame]

/-- A policy that permits everything answers yes. -/
theorem decide_of_permitsEvery (h : Star top above)
    (hps : ps.PermitsEvery (actionUid action)) :
    decide ps principal action top.uid (above.map flatEntity ++ [top]) context = true := by
  rcases h.store principal with ⟨s, -, hentities⟩
  exact h.decide_iff.2 ⟨s, hentities, hps _ s rfl⟩

end Star

/-! ## What permits answer -/

/-- Whether a permit that asks this of the resource is about one under these ancestors. -/
def Reach.Covers (above : List EntityUid) (u : EntityUid) : Reach → Prop
  | .any => True
  | .eq v => u = v
  | .mem v => v = u ∨ v ∈ above

section Permits

variable {ε : Type} [Expressions ε Value] {ps : PolicySet ε} {qs : List Permit}
  {top : Entity Value} {above : List EntityUid} {principal : Principal} {action : Text}
  {context : List (Text × Value)}

/-- A question is answered with yes where some permit is about it. -/
theorem decide_star (h : Star top above) (hps : List.Forall₂ (Means Value.str) ps qs) :
    decide ps principal action top.uid (above.map flatEntity ++ [top]) context = true ↔
      ∃ q ∈ qs, q.action = action ∧ Reach.Covers above top.uid q.resource ∧
        q.clauseHolds .str context = true := by
  have hreach : ∀ (s : Cedar.Store Value), s.entities = Star.entities top above principal →
      ∀ r : Reach, r.scope.holds s top.uid = true ↔ Reach.Covers above top.uid r := by
    intro s hs r
    cases r with
    | any => simp [Cedar.Reach.scope, Scope.holds, Reach.Covers]
    | eq v => simp [Cedar.Reach.scope, Scope.holds, Reach.Covers]
    | mem v => exact h.isIn_iff hs
  have haction : ∀ q : Permit, actionUid action = ⟨"Action".toList, q.action⟩ ↔ q.action = action :=
    fun q => by simp [actionUid, eq_comm]
  rw [h.decide_iff]
  constructor
  · rintro ⟨s, hs, hallowed⟩
    rcases (isAuthorized_iff hps).1 hallowed with ⟨q, hq, hact, hres, hclause⟩
    exact ⟨q, hq, (haction q).1 hact, (hreach s hs _).1 hres, hclause⟩
  · rintro ⟨q, hq, hact, hres, hclause⟩
    rcases h.store principal with ⟨s, -, hs⟩
    exact ⟨s, hs, (isAuthorized_iff hps).2
      ⟨q, hq, (haction q).2 hact, (hreach s hs _).2 hres, hclause⟩⟩

omit [Expressions ε Value] in
theorem scopesAction_iff [Expressions ε Value] {c : CompositionPolicy ε}
    (hps : List.Forall₂ (Means Value.str) c.policy qs) (hknown : action ∈ compositionActions) :
    c.scopesAction action = true ↔ ∃ q ∈ qs, q.action = action := by
  simp only [CompositionPolicy.scopesAction, decide_eq_true_eq, List.any_eq_true, hknown, true_and]
  refine exists_mem_iff_of_forall₂ hps fun p q hpq => ?_
  simp [policyScopesAction, hpq.action, actionUid]

end Permits

/-! ## The resources of the questions -/

section Resources

/-- A resource without ancestors. -/
theorem Star.flat {u : EntityUid} (h : u.typeName ≠ "Request".toList) : Star (flatEntity u) [] where
  parents := rfl
  self := by simp
  apart := by simpa using h

/-- A resource under ancestors of its own type. -/
theorem Star.named {type name : Text} {names : List Text} {attrs : List (Text × Value)}
    (htype : type ≠ "Request".toList) (h : name ∉ names) :
    Star ⟨⟨type, name⟩, attrs, (names.map (EntityUid.mk type)).toFinset⟩
      (names.map (EntityUid.mk type)) where
  parents := rfl
  self := by simpa using h
  apart := by
    intro u hu
    rcases List.mem_cons.1 hu with rfl | hu
    · exact htype
    · rcases List.mem_map.1 hu with ⟨n, -, rfl⟩
      exact htype

theorem Star.kind (group kind : Text) : Star (kindEntity group kind) [groupUid group] where
  parents := rfl
  self := by simpa [kindEntity] using (groupUid_ne_kindUid group group kind).symm
  apart := by
    have hkind : "Kind".toList ≠ "Request".toList := by decide
    have hgroup : "Group".toList ≠ "Request".toList := by decide
    intro u hu
    rcases List.mem_cons.1 hu with rfl | hu
    · exact hkind
    · rw [List.mem_singleton.1 hu]
      exact hgroup

theorem Star.repository {location : Text} (h : location ∉ boundaryPrefixes location) :
    Star (repositoryEntity location) ((boundaryPrefixes location).map repositoryUid) :=
  .named (by decide) h

theorem Star.host [Egress.HttpLibrary] {g : EgressGrant} (h : (hostLabel g).1 ∉ hostAncestors g) :
    Star (hostEntity g) ((hostAncestors g).map hostPatternUid) :=
  .named (by decide) h

variable {ε : Type} [Expressions ε Value] {ps : PolicySet ε} {principal : Principal} {action : Text}
  {context : List (Text × Value)}

/-- What the caller does not supply is supplied. -/
theorem decide_flat {u : EntityUid} :
    decide ps principal action u [] context = decide ps principal action u [flatEntity u] context := by
  simp [decide, decideRaw]

theorem permitsPullModule_eq {c : CompositionPolicy ε} {location : Text} :
    c.permitsPullModule principal location =
      decide c.policy principal actionPullModule (repositoryEntity location).uid
        (((boundaryPrefixes location).map repositoryUid).map flatEntity ++
          [repositoryEntity location]) [] := by
  rw [List.map_map]
  rfl

theorem permitsEgressBy_eq [Egress.HttpLibrary] {g : EgressGrant} :
    permitsEgressBy ps principal g =
      decide ps principal actionGrantEgress (hostEntity g).uid
        (((hostAncestors g).map hostPatternUid).map flatEntity ++ [hostEntity g])
        (egressContext g) := by
  rw [List.map_map]
  rfl

end Resources
end Authz
end FunctionWasm

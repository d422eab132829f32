import FunctionWasm.Compose.Fence
import FunctionWasm.Policy.Repository
import FunctionWasm.Require.Selectors

/-!
# Kinds — what a resource is presented to a rule as

Both fences decide about a Kind entity: the group, a slash and the kind, under the group as its one
ancestor.  The group is what the apiVersion has before its last slash, the core API's being spelled
out; nothing else is asked of an apiVersion or a kind.

* `kindEntities` are the entities of one decision, `isIn_group` what `in` means there.
* `JudgedAs` says which entity an apiVersion and a kind are judged as, by either fence.
* `Confused` says when two pairs share an entity without being of one group and kind, and
  `kinds_faithful_iff` that they do in no other case.
-/

namespace FunctionWasm
namespace Authz

open Cedar
open Compose (groupOf coreGroup)

/-! ## The entities of a decision -/

def groupUid (group : Text) : EntityUid := ⟨"Group".toList, group⟩

def kindUid (group kind : Text) : EntityUid := ⟨"Kind".toList, group ++ '/' :: kind⟩

def kindEntity (group kind : Text) : Entity Value where
  uid := kindUid group kind
  attrs := []
  parents := {groupUid group}

/-- The Kind entity, and the store giving it its one ancestor, its group. -/
def kindEntities (group kind : Text) : EntityUid × List (Entity Value) :=
  (kindUid group kind, [flatEntity (groupUid group), kindEntity group kind])

@[simp] theorem groupUid_inj {group group' : Text} :
    groupUid group = groupUid group' ↔ group = group' := by
  simp [groupUid]

theorem groupUid_ne_kindUid (group group' kind : Text) : groupUid group ≠ kindUid group' kind := by
  simp [groupUid, kindUid]

/-- Only the Kind has a parent. -/
theorem parent_kindEntities {principal : Principal} {group kind : Text} {u v : EntityUid} :
    Parent ((kindEntities group kind).2 ++ [principal.toEntity]) u v ↔
      u = kindUid group kind ∧ v = groupUid group := by
  constructor
  · rintro ⟨e, he, rfl, hv⟩
    simp only [kindEntities, List.cons_append, List.nil_append, List.mem_cons, List.not_mem_nil,
      or_false] at he
    rcases he with rfl | rfl | rfl
    · simp at hv
    · exact ⟨rfl, by simpa [kindEntity] using hv⟩
    · simp [Principal.toEntity] at hv
  · rintro ⟨rfl, rfl⟩
    exact ⟨kindEntity group kind, by simp [kindEntities], rfl, by simp [kindEntity]⟩

/-- A resource is in the group it was judged under and in no other. -/
theorem isIn_group {principal : Principal} {group kind : Text} {store : Cedar.Store Value}
    (hstore : store.entities = (kindEntities group kind).2 ++ [principal.toEntity])
    {group' : Text} :
    store.isIn (kindEntities group kind).1 (groupUid group') = true ↔ group' = group := by
  rw [Cedar.Store.isIn_iff, hstore]
  constructor
  · intro h
    rcases Relation.ReflTransGen.cases_tail h with heq | ⟨u, -, hparent⟩
    · exact absurd heq (groupUid_ne_kindUid _ _ _)
    · exact groupUid_inj.1 (parent_kindEntities.1 hparent).2
  · rintro rfl
    exact .single (parent_kindEntities.2 ⟨rfl, rfl⟩)

/-! ## Which entity a pair is judged as -/

/-- The API group of an apiVersion: what is before its last slash, nothing for the core API. -/
def apiGroup (apiVersion : Text) : Text :=
  ((rsplitOnce '/' apiVersion).map Prod.fst).getD []

/-- An API group as policies spell it. -/
def spelled (group : Text) : Text :=
  if group = [] then coreGroup else group

theorem groupOf_eq (apiVersion : Text) : groupOf apiVersion = spelled (apiGroup apiVersion) := by
  unfold groupOf apiGroup spelled
  cases rsplitOnce '/' apiVersion <;> simp

/-- A pair of an apiVersion and a kind that a fence judges, and the entity it is judged as. -/
inductive JudgedAs : Text → Text → EntityUid → Prop where
  | desired {B : Type} [Compose.StructBody B] {r : Compose.Resource B} {body : B}
      {apiVersion kind : Text} {judged : Text × Text} (hbody : r.resource = some body)
      (hversion : Compose.stringField body "apiVersion".toList = some apiVersion)
      (hkind : Compose.stringField body "kind".toList = some kind)
      (h : Compose.kindOf r = some judged) :
      JudgedAs apiVersion kind (kindEntities judged.1 judged.2).1
  | selector {field key : Text} {s : Require.ResourceSelector} {r : Require.Requirement}
      (h : Require.requirement field key s = .ok r) :
      JudgedAs s.apiVersion s.kind (kindEntities r.group r.kind).1

/-- Whatever the fence, it is the entity of the group the apiVersion names and the kind. -/
theorem JudgedAs.uid_eq {apiVersion kind : Text} {u : EntityUid}
    (h : JudgedAs apiVersion kind u) : u = kindUid (spelled (apiGroup apiVersion)) kind := by
  cases h with
  | desired hbody hversion hkind h =>
      simp only [Compose.kindOf, hbody, hversion, hkind, Option.some.injEq] at h
      rw [← h, ← groupOf_eq]
      rfl
  | @selector field key s r h =>
      unfold Require.requirement at h
      split at h
      · cases h
      · cases h
        rw [← groupOf_eq]
        rfl

/-! ## When two pairs share an entity -/

/-- A text split at one occurrence of `c` and at another, which is the same, later or earlier. -/
theorem append_cons_eq_append_cons {α : Type} {c : α} {a b a' b' : List α} :
    a ++ c :: b = a' ++ c :: b' ↔
      (a = a' ∧ b = b') ∨ (∃ m, a' = a ++ c :: m ∧ b = m ++ c :: b') ∨
        ∃ m, a = a' ++ c :: m ∧ b' = m ++ c :: b := by
  rw [List.append_eq_append_iff]
  constructor
  · rintro (⟨m, rfl, htail⟩ | ⟨m, rfl, htail⟩)
    · cases m with
      | nil => exact Or.inl ⟨by simp, by simpa using htail⟩
      | cons x m =>
          rw [List.cons_append, List.cons.injEq] at htail
          exact Or.inr (Or.inl ⟨m, by rw [htail.1], htail.2⟩)
    · cases m with
      | nil => exact Or.inl ⟨by simp, by simpa [eq_comm] using htail⟩
      | cons x m =>
          rw [List.cons_append, List.cons.injEq] at htail
          exact Or.inr (Or.inr ⟨m, by rw [htail.1], htail.2⟩)
  · rintro (⟨rfl, rfl⟩ | ⟨m, rfl, rfl⟩ | ⟨m, rfl, rfl⟩)
    · exact Or.inl ⟨[], by simp, by simp⟩
    · exact Or.inl ⟨c :: m, by simp, by simp⟩
    · exact Or.inr ⟨c :: m, by simp, by simp⟩

/-- The first pair is presented as the second is, without being of its group and kind. -/
inductive Confused (group kind group' kind' : Text) : Prop where
  /-- The core API, and a group of the name it is spelled by. -/
  | core (hgroup : group = []) (hgroup' : group' = coreGroup) (hkind : kind = kind')
  /-- A part of the second group that the first pair has in its kind. -/
  | slash (m : Text) (hgroup : spelled group' = spelled group ++ '/' :: m)
      (hkind : kind = m ++ '/' :: kind')

theorem spelled_inj {group group' : Text} :
    spelled group = spelled group' ↔
      group = group' ∨ (group = [] ∧ group' = coreGroup) ∨ (group' = [] ∧ group = coreGroup) := by
  unfold spelled
  by_cases hgroup : group = []
  · by_cases hgroup' : group' = []
    · simp [hgroup, hgroup']
    · simp [hgroup, hgroup', eq_comm]
  · by_cases hgroup' : group' = []
    · simp [hgroup, hgroup']
    · simp [hgroup, hgroup']

theorem kindUid_eq_iff {group kind group' kind' : Text} :
    kindUid (spelled group) kind = kindUid (spelled group') kind' ↔
      (group = group' ∧ kind = kind') ∨ Confused group kind group' kind' ∨
        Confused group' kind' group kind := by
  simp only [kindUid, EntityUid.mk.injEq, true_and]
  rw [append_cons_eq_append_cons, spelled_inj]
  constructor
  · rintro (⟨rfl | ⟨hgroup, hgroup'⟩ | ⟨hgroup', hgroup⟩, hkind⟩ | ⟨m, hgroup, hkind⟩ |
      ⟨m, hgroup, hkind⟩)
    · exact Or.inl ⟨rfl, hkind⟩
    · exact Or.inr (Or.inl (.core hgroup hgroup' hkind))
    · exact Or.inr (Or.inr (.core hgroup' hgroup hkind.symm))
    · exact Or.inr (Or.inl (.slash m hgroup hkind))
    · exact Or.inr (Or.inr (.slash m hgroup hkind))
  · rintro (⟨rfl, rfl⟩ | (⟨hgroup, hgroup', hkind⟩ | ⟨m, hgroup, hkind⟩) |
      ⟨hgroup', hgroup, hkind⟩ | ⟨m, hgroup, hkind⟩)
    · exact Or.inl ⟨Or.inl rfl, rfl⟩
    · exact Or.inl ⟨Or.inr (Or.inl ⟨hgroup, hgroup'⟩), hkind⟩
    · exact Or.inr (Or.inl ⟨m, hgroup, hkind⟩)
    · exact Or.inl ⟨Or.inr (Or.inr ⟨hgroup', hgroup⟩), hkind.symm⟩
    · exact Or.inr (Or.inr ⟨m, hgroup, hkind⟩)

theorem Confused.ne {group kind group' kind' : Text} (h : Confused group kind group' kind') :
    ¬ (group = group' ∧ kind = kind') := by
  rintro ⟨rfl, rfl⟩
  cases h with
  | core hgroup hgroup' _ =>
      rw [hgroup] at hgroup'
      cases hgroup'
  | slash m _ hkind =>
      have hlength := congrArg List.length hkind
      simp at hlength
      omega

/-- Kinds without a slash are confused at the core group only. -/
theorem not_confused_of_plain {group kind group' kind' : Text} (hkind : '/' ∉ kind)
    (hgroup' : group' ≠ coreGroup) : ¬ Confused group kind group' kind' := by
  rintro (⟨_, hcore, _⟩ | ⟨m, _, rfl⟩)
  · exact hgroup' hcore
  · simp at hkind

/-- Two pairs that the fences judge share an entity only if they are of one API group and kind,
unless they are confused. -/
theorem kinds_faithful_iff {apiVersion kind apiVersion' kind' : Text} {u u' : EntityUid}
    (h : JudgedAs apiVersion kind u) (h' : JudgedAs apiVersion' kind' u') :
    (u = u' → apiGroup apiVersion = apiGroup apiVersion' ∧ kind = kind') ↔
      ¬ Confused (apiGroup apiVersion) kind (apiGroup apiVersion') kind' ∧
        ¬ Confused (apiGroup apiVersion') kind' (apiGroup apiVersion) kind := by
  rw [h.uid_eq, h'.uid_eq, kindUid_eq_iff]
  constructor
  · intro hfaithful
    refine ⟨fun hc => hc.ne (hfaithful (Or.inr (Or.inl hc))), fun hc => hc.ne ?_⟩
    rcases hfaithful (Or.inr (Or.inr hc)) with ⟨hgroup, hkind⟩
    exact ⟨hgroup.symm, hkind.symm⟩
  · rintro ⟨hnot, hnot'⟩ (hsame | hc | hc)
    · exact hsame
    · exact absurd hc hnot
    · exact absurd hc hnot'

/-- A resource that states an apiVersion and a kind. -/
def resourceOfKind (apiVersion kind : String) : Compose.Resource Compose.Fields where
  resource := some ⟨[("apiVersion".toList, apiVersion.toList), ("kind".toList, kind.toList)]⟩
  connectionDetails := ∅
  ready := 0

def selectorOfKind (apiVersion kind : String) : Require.ResourceSelector where
  apiVersion := apiVersion.toList
  kind := kind.toList
  matched := none
  namespaceName := none

/-- Kinds of two API groups that carry one name are told apart. -/
theorem kinds_faithful_sample :
    ¬ Confused (apiGroup "apps/v1".toList) "Deployment".toList
        (apiGroup "apps.example.org/v1".toList) "Deployment".toList ∧
      ¬ Confused (apiGroup "apps.example.org/v1".toList) "Deployment".toList
        (apiGroup "apps/v1".toList) "Deployment".toList := by
  have happs : JudgedAs "apps/v1".toList "Deployment".toList
      (kindUid "apps".toList "Deployment".toList) :=
    @JudgedAs.desired _ _ (resourceOfKind "apps/v1" "Deployment") _ _ _
      ("apps".toList, "Deployment".toList) rfl rfl rfl rfl
  have hexample : JudgedAs "apps.example.org/v1".toList "Deployment".toList
      (kindUid "apps.example.org".toList "Deployment".toList) :=
    @JudgedAs.selector [] [] (selectorOfKind "apps.example.org/v1" "Deployment") _
      rfl
  exact (kinds_faithful_iff happs hexample).1 fun huid => absurd huid (by decide)

/-- A composed resource and a selector of two groups share an entity, as do a group named like the
core API and the core API. -/
theorem kinds_confused :
    (∃ u, JudgedAs "example/team/v1".toList "Widget".toList u ∧
      JudgedAs "example/v1".toList "team/Widget".toList u ∧
      apiGroup "example/team/v1".toList ≠ apiGroup "example/v1".toList) ∧
    ∃ u, JudgedAs "core/v1".toList "Secret".toList u ∧ JudgedAs "v1".toList "Secret".toList u ∧
      apiGroup "core/v1".toList ≠ apiGroup "v1".toList := by
  refine ⟨⟨kindUid "example/team".toList "Widget".toList, ?_, ?_, by decide⟩,
    kindUid "core".toList "Secret".toList, ?_, ?_, by decide⟩
  · exact @JudgedAs.desired _ _ (resourceOfKind "example/team/v1" "Widget") _ _ _
      ("example/team".toList, "Widget".toList) rfl rfl rfl rfl
  · exact @JudgedAs.selector [] [] (selectorOfKind "example/v1" "team/Widget") _ rfl
  · exact @JudgedAs.desired _ _ (resourceOfKind "core/v1" "Secret") _ _ _
      ("core".toList, "Secret".toList) rfl rfl rfl rfl
  · exact @JudgedAs.selector [] [] (selectorOfKind "v1" "Secret") _ rfl

end Authz
end FunctionWasm

import Mathlib.Data.List.ProdSigma
import FunctionWasm.Foundation.Cedar

/-!
# Authz — the decisions of the two policy layers

The operator's policy and the composition author's policy are Cedar policy sets over one schema.
Each question builds the entities and the context it is about and puts them to the policy set; a
store that Cedar does not accept is an answer of no.

* `decideRaw` puts one request, `decide` one of the caller's.
* `repositoryEntities` is the hierarchy of a location: its prefixes before a `/`, with and without it.
* `repositoryEntities_accepted` says when that is a store, `isIn_repository` what `in` means there.
* `decideRaw_repository` is the answer of a policy that permits everything.
* `CompositionPolicy` and `OperatorPolicy` ask the questions of their layer.
-/

namespace FunctionWasm
namespace Authz

open Cedar

/-- The values of attributes and contexts. -/
inductive Value where
  | str (t : Text)
  | strs (ts : Finset Text)
  | record (fields : List (Text × Text))
  | entity (u : EntityUid)
  deriving DecidableEq

/-- There is nothing to evaluate in policies without conditions. -/
instance : Expressions Empty Value where
  eval e := nomatch e

/-! ## Actions -/

def actionPullModule : Text := "pullModule".toList

def actionSpendCredential : Text := "spendCredential".toList

def actionGrantEgress : Text := "grantEgress".toList

def actionUsePrivateTmp : Text := "usePrivateTmp".toList

def actionSetEnv : Text := "setEnv".toList

def actionComposeResource : Text := "composeResource".toList

def actionRequireResource : Text := "requireResource".toList

def actionRequireSignature : Text := "requireSignature".toList

def actionTrustSigner : Text := "trustSigner".toList

def actionDialAddress : Text := "dialAddress".toList

def compositionActions : List Text :=
  [actionPullModule, actionSpendCredential, actionGrantEgress, actionUsePrivateTmp, actionSetEnv,
    actionComposeResource, actionRequireResource]

/-- The actions judged over a module's response. -/
def outputFenceActions : List Text := [actionComposeResource, actionRequireResource]

def uid (ty id : String) : EntityUid := ⟨ty.toList, id.toList⟩

def actionUid (action : Text) : EntityUid := ⟨"Action".toList, action⟩

/-- Whether a policy's action scope names the action. -/
def policyScopesAction {ε : Type} (p : Policy ε) (action : Text) : Bool :=
  match p.action with
  | .eq u => u = actionUid action
  | .mem u => u = actionUid action
  | .memAny us => actionUid action ∈ us
  | _ => false

/-! ## One decision -/

/-- The caller of a decision. -/
structure Principal where
  namespaceName : Text
  xrKind : Text
  composition : Text
  deriving DecidableEq

def flatEntity (u : EntityUid) : Entity Value where
  uid := u
  attrs := []
  parents := ∅

section Decide

variable {ε : Type} [Expressions ε Value]

def decideRaw (ps : PolicySet ε) (principal : EntityUid) (principalEntity : Option (Entity Value))
    (action : Text) (resource : EntityUid) (entities : List (Entity Value))
    (context : List (Text × Value)) : Bool :=
  -- a flat resource that the caller did not supply
  let entities :=
    if entities.any fun e => e.uid = resource then entities else entities ++ [flatEntity resource]
  let entities := entities ++ principalEntity.toList
  match Store.ofEntities entities with
  | none => false
  | some store =>
      ps.isAuthorized
        { principal := principal
          action := actionUid action
          resource := resource
          context := context } store

/-- A forbid more turns no refusal into a permission. -/
theorem decideRaw_of_insert {before after : PolicySet ε} {p : Policy ε} (hp : p.effect = .forbid)
    {principal : EntityUid} {principalEntity : Option (Entity Value)} {action : Text}
    {resource : EntityUid} {entities : List (Entity Value)} {context : List (Text × Value)}
    (h : decideRaw (before ++ p :: after) principal principalEntity action resource entities
      context = true) :
    decideRaw (before ++ after) principal principalEntity action resource entities context =
      true := by
  unfold decideRaw at h ⊢
  dsimp only at h ⊢
  split at h
  · cases h
  · exact PolicySet.isAuthorized_of_insert hp h

def requestSelf : EntityUid := uid "Request" "self"

def Principal.toEntity (p : Principal) : Entity Value where
  uid := requestSelf
  attrs := [("namespace".toList, .str p.namespaceName), ("xrKind".toList, .str p.xrKind),
    ("composition".toList, .str p.composition)]
  parents := ∅

/-- One request of the caller. -/
def decide (ps : PolicySet ε) (principal : Principal) (action : Text) (resource : EntityUid)
    (entities : List (Entity Value)) (context : List (Text × Value)) : Bool :=
  decideRaw ps requestSelf (some principal.toEntity) action resource entities context

end Decide

/-! ## The hierarchy of a location -/

def nul : Char := Char.ofNat 0

/-- The ancestors among the prefixes that go on from `before`. -/
def boundaryPrefixesFrom (before : Text) : Text → List Text
  | [] => []
  | c :: rest =>
      let out := boundaryPrefixesFrom (before ++ [c]) rest
      if c ≠ '/' ∨ before = [] ∨ nul ∈ before then out
      else before :: (before ++ ['/']) :: out

/-- The prefixes that end before a `/`, each with and without it. -/
def boundaryPrefixes (location : Text) : List Text := boundaryPrefixesFrom [] location

def repositoryUid (location : Text) : EntityUid := ⟨"Repository".toList, location⟩

def repositoryEntity (location : Text) : Entity Value where
  uid := repositoryUid location
  attrs := []
  parents := ((boundaryPrefixes location).map repositoryUid).toFinset

def repositoryEntities (location : Text) : EntityUid × List (Entity Value) :=
  (repositoryUid location,
    (boundaryPrefixes location).map (fun p => flatEntity (repositoryUid p)) ++
      [repositoryEntity location])

theorem mem_boundaryPrefixesFrom {before t q : Text} :
    q ∈ boundaryPrefixesFrom before t ↔
      ∃ p rest, t = p ++ '/' :: rest ∧ before ++ p ≠ [] ∧ nul ∉ before ++ p ∧
        (q = before ++ p ∨ q = before ++ p ++ ['/']) := by
  induction t generalizing before with
  | nil => simp [boundaryPrefixesFrom]
  | cons c rest ih =>
      -- the boundary is at this character, or further on
      have hsplit : (∃ p rest', c :: rest = p ++ '/' :: rest' ∧ before ++ p ≠ [] ∧
            nul ∉ before ++ p ∧ (q = before ++ p ∨ q = before ++ p ++ ['/'])) ↔
          (c = '/' ∧ before ≠ [] ∧ nul ∉ before ∧ (q = before ∨ q = before ++ ['/'])) ∨
            q ∈ boundaryPrefixesFrom (before ++ [c]) rest := by
        rw [ih]
        constructor
        · rintro ⟨p, rest', heq, hne, hnul, hq⟩
          cases p with
          | nil =>
              simp only [List.nil_append, List.cons.injEq, List.append_nil] at heq hne hnul hq
              exact .inl ⟨heq.1, hne, hnul, hq⟩
          | cons x p =>
              simp only [List.cons_append, List.cons.injEq] at heq
              obtain ⟨rfl, rfl⟩ := heq
              exact .inr ⟨p, rest', rfl, by simp, by simpa using hnul, by simpa using hq⟩
        · rintro (⟨rfl, hne, hnul, hq⟩ | ⟨p, rest', rfl, -, hnul, hq⟩)
          · exact ⟨[], rest, rfl, by simpa using hne, by simpa using hnul, by simpa using hq⟩
          · exact ⟨c :: p, rest', rfl, by simp, by simpa using hnul, by simpa using hq⟩
      rw [hsplit]
      simp only [boundaryPrefixesFrom]
      split
      · next hskip =>
          constructor
          · exact .inr
          · rintro (⟨rfl, hne, hnul, -⟩ | hmem)
            · rcases hskip with h | h | h
              · exact absurd rfl h
              · exact absurd h hne
              · exact absurd h hnul
            · exact hmem
      · next hkeep =>
          push Not at hkeep
          simp only [List.mem_cons, ← or_assoc]
          simp [hkeep]

theorem mem_boundaryPrefixes {location q : Text} :
    q ∈ boundaryPrefixes location ↔
      ∃ p rest, location = p ++ '/' :: rest ∧ p ≠ [] ∧ nul ∉ p ∧ (q = p ∨ q = p ++ ['/']) := by
  unfold boundaryPrefixes
  rw [mem_boundaryPrefixesFrom]
  simp

/-- The location is among its own ancestors when it ends in a slash. -/
theorem self_mem_boundaryPrefixes {location : Text} :
    location ∈ boundaryPrefixes location ↔
      ∃ p, location = p ++ ['/'] ∧ p ≠ [] ∧ nul ∉ p := by
  rw [mem_boundaryPrefixes]
  constructor
  · rintro ⟨p, rest, heq, hne, hnul, hself | hself⟩
    · simp [hself] at heq
    · exact ⟨p, hself, hne, hnul⟩
  · rintro ⟨p, heq, hne, hnul⟩
    exact ⟨p, [], heq, hne, hnul, .inr heq⟩

theorem length_lt_of_mem_boundaryPrefixes {location q : Text}
    (hself : location ∉ boundaryPrefixes location) (hq : q ∈ boundaryPrefixes location) :
    q.length < location.length := by
  rcases mem_boundaryPrefixes.1 hq with ⟨p, rest, heq, hne, hnul, rfl | rfl⟩
  · simp [heq]
  · cases rest with
    | nil => exact absurd (self_mem_boundaryPrefixes.2 ⟨p, heq, hne, hnul⟩) hself
    | cons c rest => simp [heq]

/-- The entities of a repository hierarchy: flat ancestors, and the location. -/
theorem mem_repositoryEntities {location : Text} {e : Entity Value} :
    e ∈ (repositoryEntities location).2 ↔
      (∃ p ∈ boundaryPrefixes location, e = flatEntity (repositoryUid p)) ∨
        e = repositoryEntity location := by
  simp [repositoryEntities, eq_comm]

@[simp] theorem repositoryUid_inj {l l' : Text} : repositoryUid l = repositoryUid l' ↔ l = l' :=
  ⟨congrArg EntityUid.id, congrArg repositoryUid⟩

@[simp] theorem flatEntity_uid (u : EntityUid) : (flatEntity u).uid = u := rfl

@[simp] theorem flatEntity_parents (u : EntityUid) : (flatEntity u).parents = ∅ := rfl

@[simp] theorem repositoryEntity_uid (location : Text) :
    (repositoryEntity location).uid = repositoryUid location := rfl

@[simp] theorem mem_repositoryEntity_parents {location p : Text} :
    repositoryUid p ∈ (repositoryEntity location).parents ↔ p ∈ boundaryPrefixes location := by
  simp [repositoryEntity]

/-- Only the location has parents. -/
theorem parent_repositoryEntities {location : Text} {u v : EntityUid} :
    Parent (repositoryEntities location).2 u v ↔
      u = repositoryUid location ∧ ∃ p ∈ boundaryPrefixes location, v = repositoryUid p := by
  constructor
  · rintro ⟨e, he, rfl, hv⟩
    rcases mem_repositoryEntities.1 he with ⟨p, -, rfl⟩ | rfl
    · simp [flatEntity] at hv
    · refine ⟨rfl, ?_⟩
      simpa [repositoryEntity, eq_comm] using hv
  · rintro ⟨rfl, p, hp, rfl⟩
    exact ⟨repositoryEntity location, mem_repositoryEntities.2 (.inr rfl), rfl, by simpa using hp⟩

theorem consistent_repositoryEntities {location : Text} :
    Consistent (repositoryEntities location).2 ↔ location ∉ boundaryPrefixes location := by
  constructor
  · intro h hself
    have hflat : flatEntity (repositoryUid location) ∈ (repositoryEntities location).2 :=
      mem_repositoryEntities.2 (.inl ⟨location, hself, rfl⟩)
    have hfull : repositoryEntity location ∈ (repositoryEntities location).2 :=
      mem_repositoryEntities.2 (.inr rfl)
    have hsame := h _ hflat _ hfull (by simp)
    -- the flat one has no parents, the other has the location itself among them
    have hmem : repositoryUid location ∈ (repositoryEntity location).parents := by
      simpa using hself
    rw [← hsame] at hmem
    simp at hmem
  · intro hself e he f hf huid
    rcases mem_repositoryEntities.1 he with ⟨p, hp, rfl⟩ | rfl <;>
      rcases mem_repositoryEntities.1 hf with ⟨q, hq, rfl⟩ | rfl
    · simp only [flatEntity_uid] at huid
      rw [huid]
    · simp only [flatEntity_uid, repositoryEntity_uid, repositoryUid_inj] at huid
      exact absurd (huid ▸ hp) hself
    · simp only [flatEntity_uid, repositoryEntity_uid, repositoryUid_inj] at huid
      exact absurd (huid ▸ hq) hself
    · rfl

theorem acyclic_repositoryEntities {location : Text} :
    Acyclic (repositoryEntities location).2 ↔ location ∉ boundaryPrefixes location := by
  constructor
  · intro h hself
    exact h _ (.single (parent_repositoryEntities.2 ⟨rfl, location, hself, rfl⟩))
  · intro hself
    refine acyclic_of_rank (fun u => u.id.length) ?_
    intro u v hparent
    rcases parent_repositoryEntities.1 hparent with ⟨rfl, p, hp, rfl⟩
    exact length_lt_of_mem_boundaryPrefixes hself hp

/-- Cedar accepts the hierarchy of a location that is not its own ancestor. -/
theorem repositoryEntities_accepted {location : Text} :
    (Store.ofEntities (repositoryEntities location).2).isSome = true ↔
      location ∉ boundaryPrefixes location := by
  rw [Store.ofEntities_isSome, consistent_repositoryEntities, acyclic_repositoryEntities, and_self]

/-- A hierarchy that Cedar accepts is decided about; any other is an answer of no. -/
theorem decideRaw_repository {ε : Type} [Expressions ε Value] {ps : PolicySet ε}
    {principal : EntityUid} {action location : Text} {context : List (Text × Value)}
    (hps : ps.PermitsEvery (actionUid action)) :
    decideRaw ps principal none action (repositoryEntities location).1
        (repositoryEntities location).2 context = true ↔
      location ∉ boundaryPrefixes location := by
  have hpresent : ((repositoryEntities location).2.any fun e =>
      e.uid = (repositoryEntities location).1) = true := by
    refine List.any_eq_true.2 ⟨repositoryEntity location, mem_repositoryEntities.2 (.inr rfl), ?_⟩
    simp [repositoryEntities]
  rw [← repositoryEntities_accepted]
  unfold decideRaw
  simp only [hpresent, if_true, Option.toList_none, List.append_nil]
  cases Store.ofEntities (repositoryEntities location).2 with
  | none => simp
  | some store => simpa using hps _ store rfl

/-! ## The two layers -/

structure CompositionPolicy (ε : Type) where
  policy : PolicySet ε

structure OperatorPolicy (ε : Type) where
  policy : PolicySet ε

def capability (name : String) : EntityUid := uid "Capability" name

def credentialUid (credential : Text) : EntityUid := ⟨"Credential".toList, credential⟩

section Layers

variable {ε : Type} [Expressions ε Value]

/-- The questions that both layers answer alike. -/
def permitsPrivateTmpBy (ps : PolicySet ε) (principal : Principal) : Bool :=
  decide ps principal actionUsePrivateTmp (capability "privateTmp") [] []

def permitsEnvBy (ps : PolicySet ε) (principal : Principal) (keys : List Text) : Bool :=
  decide ps principal actionSetEnv (capability "env") [] [("keys".toList, .strs keys.toFinset)]

namespace CompositionPolicy

/-- Whether a rule scopes the action, one of those that this layer decides. -/
def scopesAction (p : CompositionPolicy ε) (action : Text) : Bool :=
  action ∈ compositionActions ∧ p.policy.any fun r => policyScopesAction r action

def permitsPrivateTmp (p : CompositionPolicy ε) (principal : Principal) : Bool :=
  permitsPrivateTmpBy p.policy principal

def permitsEnv (p : CompositionPolicy ε) (principal : Principal) (keys : List Text) : Bool :=
  permitsEnvBy p.policy principal keys

def permitsPullModule (p : CompositionPolicy ε) (principal : Principal) (location : Text) : Bool :=
  decide p.policy principal actionPullModule (repositoryEntities location).1
    (repositoryEntities location).2 []

/-- A location travels along with its hierarchy. -/
def permitsSpendCredential (p : CompositionPolicy ε) (principal : Principal)
    (credential location : Text) : Bool :=
  let resource := credentialUid credential
  if location = [] then
    decide p.policy principal actionSpendCredential resource [flatEntity resource] []
  else
    decide p.policy principal actionSpendCredential resource
      (flatEntity resource :: (repositoryEntities location).2)
      [("repository".toList, .entity (repositoryUid location))]

end CompositionPolicy

namespace OperatorPolicy

/-- Whether a rule scopes one of the actions judged over a response. -/
def scopesAction (p : OperatorPolicy ε) (action : Text) : Bool :=
  action ∈ outputFenceActions ∧ p.policy.any fun r => policyScopesAction r action

def permitsPrivateTmp (p : OperatorPolicy ε) (principal : Principal) : Bool :=
  permitsPrivateTmpBy p.policy principal

def permitsEnv (p : OperatorPolicy ε) (principal : Principal) (keys : List Text) : Bool :=
  permitsEnvBy p.policy principal keys

def permitsSpendCredential (p : OperatorPolicy ε) (principal : Principal) (credential : Text) :
    Bool :=
  decide p.policy principal actionSpendCredential (credentialUid credential) [] []

/-- The requirement does not depend on the caller, so the principal is a placeholder. -/
def requiresSignature (p : OperatorPolicy ε) (location : Text) : Bool :=
  decideRaw p.policy (uid "Module" "module") none actionRequireSignature
    (repositoryEntities location).1 (repositoryEntities location).2 []

def permitsSigner (p : OperatorPolicy ε) (location issuer identity : Text) : Bool :=
  decideRaw p.policy (uid "Module" "module") none actionTrustSigner
    (repositoryEntities location).1 (repositoryEntities location).2
    [("issuer".toList, .str issuer), ("identity".toList, .str identity)]

/-- A policy that requires every signature requires it where Cedar accepts the hierarchy. -/
theorem requiresSignature_iff {p : OperatorPolicy ε} {location : Text}
    (hp : p.policy.PermitsEvery (actionUid actionRequireSignature)) :
    p.requiresSignature location = true ↔ location ∉ boundaryPrefixes location :=
  decideRaw_repository hp

end OperatorPolicy
end Layers
end Authz
end FunctionWasm

import FunctionWasm.Egress.Compile
import FunctionWasm.Policy.Authz

/-!
# Hosts — how a policy sees an egress rule

A rule and one of its methods are put to a policy as a `HostPattern`, under the names above it.

* `hostEntities` is the hierarchy: a host under its DNS suffixes, a pattern also under the name that
  bounds it.
* `isIn_host` is what `in` means there.
* `permitsEgressBy` is the question, which both layers answer alike.
-/

namespace FunctionWasm
namespace Authz

open Cedar Egress
open HttpLibrary (uppercase)

/-- One egress request that the layers judge: a host or a host pattern, one method, and the path
prefix of the rule. -/
structure EgressGrant where
  host : Text
  hostPattern : Text
  method : Text
  path : Text
  deriving DecidableEq

def hostPatternUid (h : Text) : EntityUid := ⟨"HostPattern".toList, h⟩

@[simp] theorem hostPatternUid_inj {h h' : Text} : hostPatternUid h = hostPatternUid h' ↔ h = h' :=
  ⟨congrArg EntityUid.id, congrArg hostPatternUid⟩

/-- What comes after each dot, the longest first. -/
def dnsSuffixes : Text → List Text
  | [] => []
  | c :: rest => if c = '.' then rest :: dnsSuffixes rest else dnsSuffixes rest

theorem mem_dnsSuffixes {h s : Text} : s ∈ dnsSuffixes h ↔ ∃ p, h = p ++ '.' :: s := by
  induction h with
  | nil => simp [dnsSuffixes]
  | cons c rest ih =>
      have htail : (∃ p, c :: rest = p ++ '.' :: s) ↔
          (c = '.' ∧ rest = s) ∨ ∃ p, rest = p ++ '.' :: s := by
        constructor
        · rintro ⟨p, heq⟩
          cases p with
          | nil => exact .inl (List.cons.inj heq)
          | cons x p => exact .inr ⟨p, (List.cons.inj heq).2⟩
        · rintro (⟨rfl, rfl⟩ | ⟨p, rfl⟩)
          · exact ⟨[], rfl⟩
          · exact ⟨c :: p, rfl⟩
      rw [htail, ← ih, dnsSuffixes]
      by_cases hdot : c = '.'
      · simp [hdot, eq_comm]
      · simp [hdot]

section Hierarchy

variable [HttpLibrary]

/-- The name of the entity and the name that bounds it. -/
def hostLabel (g : EgressGrant) : Text × Text :=
  if g.host ≠ [] then (normalizeHost g.host, normalizeHost g.host)
  else
    let l := normalizeHost g.hostPattern
    match l with
    | '*' :: '.' :: boundary => (l, boundary)
    | _ => (l, l)

/-- A pattern is under the name that bounds it, too. -/
def hostAncestors (g : EgressGrant) : List Text :=
  let boundary := (hostLabel g).2
  if g.host = [] then boundary :: dnsSuffixes boundary else dnsSuffixes boundary

def hostEntity (g : EgressGrant) : Entity Value where
  uid := hostPatternUid (hostLabel g).1
  attrs := [("host".toList, .str (hostLabel g).1)]
  parents := ((hostAncestors g).map hostPatternUid).toFinset

def hostEntities (g : EgressGrant) : EntityUid × List (Entity Value) :=
  (hostPatternUid (hostLabel g).1,
    (hostAncestors g).map (fun a => flatEntity (hostPatternUid a)) ++ [hostEntity g])

def egressContext (g : EgressGrant) : List (Text × Value) :=
  [("method".toList, .str (uppercase g.method)), ("path".toList, .str g.path)]

theorem hostEntity_mem (g : EgressGrant) : hostEntity g ∈ (hostEntities g).2 := by
  simp [hostEntities]

/-- Only the entity itself has parents. -/
theorem parent_hostEntities {principal : Principal} {g : EgressGrant} {u v : EntityUid} :
    Parent ((hostEntities g).2 ++ [principal.toEntity]) u v ↔
      u = hostPatternUid (hostLabel g).1 ∧ ∃ a ∈ hostAncestors g, v = hostPatternUid a := by
  constructor
  · rintro ⟨e, he, rfl, hv⟩
    rcases List.mem_append.1 he with he | he
    · rcases List.mem_append.1 he with hflat | hself
      · rcases List.mem_map.1 hflat with ⟨a, -, rfl⟩
        simp at hv
      · rw [List.mem_singleton.1 hself] at hv ⊢
        refine ⟨rfl, ?_⟩
        simpa [hostEntity, eq_comm] using hv
    · rw [List.mem_singleton.1 he] at hv
      simp [Principal.toEntity] at hv
  · rintro ⟨rfl, a, ha, rfl⟩
    refine ⟨hostEntity g, List.mem_append_left _ (hostEntity_mem g), rfl, ?_⟩
    simpa [hostEntity] using ha

/-- `in` a name means to be the name or to have it among the ancestors, which have none. -/
theorem isIn_host {principal : Principal} {g : EgressGrant} {store : Cedar.Store Value}
    (hstore : store.entities = (hostEntities g).2 ++ [principal.toEntity]) {d : Text}
    (h : store.isIn (hostEntities g).1 (hostPatternUid d) = true) :
    (hostLabel g).1 = d ∨ d ∈ hostAncestors g := by
  rw [Cedar.Store.isIn_iff, hstore] at h
  rcases Relation.ReflTransGen.cases_tail h with heq | ⟨u, -, hparent⟩
  · exact .inl (hostPatternUid_inj.1 heq).symm
  · rcases parent_hostEntities.1 hparent with ⟨-, a, ha, heq⟩
    rw [hostPatternUid_inj] at heq
    exact .inr (heq ▸ ha)

end Hierarchy

section Question

variable {ε : Type} [HttpLibrary] [Expressions ε Value]

def permitsEgressBy (ps : PolicySet ε) (principal : Principal) (g : EgressGrant) : Bool :=
  decide ps principal actionGrantEgress (hostEntities g).1 (hostEntities g).2 (egressContext g)

def CompositionPolicy.permitsEgress (p : CompositionPolicy ε) (principal : Principal)
    (g : EgressGrant) : Bool :=
  permitsEgressBy p.policy principal g

def OperatorPolicy.permitsEgress (p : OperatorPolicy ε) (principal : Principal)
    (g : EgressGrant) : Bool :=
  permitsEgressBy p.policy principal g

/-- The request that the question puts. -/
def egressRequest (g : EgressGrant) : Request Value where
  principal := requestSelf
  action := actionUid actionGrantEgress
  resource := (hostEntities g).1
  context := egressContext g

theorem permitsEgressBy_iff {ps : PolicySet ε} {principal : Principal} {g : EgressGrant} :
    permitsEgressBy ps principal g = true ↔
      ∃ store, Cedar.Store.ofEntities ((hostEntities g).2 ++ [principal.toEntity]) = some store ∧
        ps.isAuthorized (egressRequest g) store = true := by
  have hpresent : ((hostEntities g).2.any fun e => e.uid = (hostEntities g).1) = true :=
    List.any_eq_true.2 ⟨hostEntity g, hostEntity_mem g, by simp [hostEntities, hostEntity]⟩
  unfold permitsEgressBy decide decideRaw
  simp only [hpresent, if_true, Option.toList_some]
  cases Cedar.Store.ofEntities ((hostEntities g).2 ++ [principal.toEntity]) with
  | none => simp
  | some store => simp [egressRequest]

end Question
end Authz
end FunctionWasm

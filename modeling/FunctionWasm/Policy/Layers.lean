import FunctionWasm.Egress.Redirects
import FunctionWasm.Policy.Capabilities

/-!
# Layers — what is admitted, and that more policy admits no more

* `admitRequires_eq_ok`: a module gets what it requires, if the layers permit all of it, and nothing
  else.
* `permitted_of_composition`, `permitted_of_operator_forbid` and `permitted_of_composition_forbid`:
  what is permitted stays permitted when the author's policy or a forbid is taken away.
* `three_layers` is both, for a manifest that passed its check.
-/

namespace FunctionWasm
namespace Authz

open Cedar Egress

/-! ## A whole manifest -/

theorem whenRequired_eq_ok {required : Bool} {check : Except Text Unit} :
    whenRequired required check = .ok () ↔ (required = true → check = .ok ()) := by
  cases required <;> simp [whenRequired]

/-- The capabilities of a manifest, kind by kind. -/
theorem forall_requests {r : Requires} {P : Capability → Prop} :
    (∀ cap, r.Requests cap → P cap) ↔
      (r.privateTmp = true → P .privateTmp) ∧
      (∀ rule ∈ r.http, ∀ m ∈ rule.methods, P (.egress (egressGrantOf rule m))) ∧
      (r.env ≠ [] → P (.env (r.env.map EnvBinding.name))) ∧
      (∀ b ∈ r.env, P (.credential b.fromCredential.name)) ∧
      ∀ name ∈ r.credentials, P (.credential name) := by
  constructor
  · intro h
    refine ⟨h .privateTmp, ?_, fun hne => h _ ⟨hne, rfl⟩, fun b hb => h _ (.inl ⟨b, hb, rfl⟩),
      fun name hname => h _ (.inr hname)⟩
    intro rule hrule m hm
    exact h _ ⟨rule, hrule, m, hm, rfl⟩
  · rintro ⟨htmp, hegress, henv, hbindings, hcredentials⟩ cap hcap
    cases cap with
    | privateTmp => exact htmp hcap
    | egress g =>
        rcases hcap with ⟨rule, hrule, m, hm, rfl⟩
        exact hegress rule hrule m hm
    | env keys =>
        rcases hcap with ⟨hne, rfl⟩
        exact henv hne
    | credential name =>
        rcases hcap with ⟨b, hb, rfl⟩ | hname
        · exact hbindings b hb
        · exact hcredentials name hname

theorem grantRequired_of_valid [HttpLibrary] {e : Ceiling} {rules : List HttpRule}
    (hvalid : ∀ rule ∈ rules, ValidRule rule) :
    grantRequired (some e) rules = .ok (if rules = [] then none else (e.grant rules).toOption) := by
  unfold grantRequired
  split
  · rfl
  · rcases grant_of_valid (e := e) hvalid with ⟨g, hg⟩
    simp [hg, Except.toOption]

section Manifest

variable {ε : Type} [HttpLibrary] [Expressions ε Value]
variable {policy : Option (OperatorPolicy ε)} {comp : Option (CompositionPolicy ε)}
variable {principal : Principal} {r : Requires} {e : Ceiling}

/-- The egress part, whether or not there are rules. -/
theorem egress_admitted (hvalid : ∀ rule ∈ r.http, ValidRule rule) :
    whenRequired (!r.http.isEmpty) (admitEgress r.http policy comp principal) = .ok () ↔
      ∀ rule ∈ r.http, ∀ m ∈ rule.methods,
        Permitted policy comp principal (.egress (egressGrantOf rule m)) := by
  rw [whenRequired_eq_ok]
  cases hhttp : r.http with
  | nil => simp
  | cons rule rest =>
      have hmem : rule ∈ r.http := by simp [hhttp]
      have hmethods : ∃ q ∈ rule :: rest, q.methods ≠ [] :=
        ⟨rule, by simp, (hvalid rule hmem).methods⟩
      rw [← admitEgress_eq_ok hmethods]
      simp

theorem env_admitted :
    whenRequired (!r.env.isEmpty) (admitEnv r.env policy comp principal) = .ok () ↔
      (r.env ≠ [] → Permitted policy comp principal (.env (r.env.map EnvBinding.name))) ∧
        ∀ b ∈ r.env, Permitted policy comp principal (.credential b.fromCredential.name) := by
  rw [whenRequired_eq_ok, admitEnv_eq_ok]
  cases r.env with
  | nil => simp
  | cons b rest => simp

theorem credentials_admitted :
    whenRequired (!r.credentials.isEmpty)
        (admitCredentials r.credentials policy comp principal) = .ok () ↔
      ∀ name ∈ r.credentials, Permitted policy comp principal (.credential name) := by
  rw [whenRequired_eq_ok]
  cases hnames : r.credentials with
  | nil => simp
  | cons name rest =>
      rw [admitCredentials_eq_ok (by simp)]
      simp

/-- A module gets exactly what it requires, if all of it is permitted. -/
theorem admitRequires_eq_ok (hvalid : ∀ rule ∈ r.http, ValidRule rule) {caps : Capabilities} :
    admitRequires (some r) (some e) policy comp principal = .ok caps ↔
      (∀ cap, r.Requests cap → Permitted policy comp principal cap) ∧ caps = r.exactly e := by
  have hparts : admitRequires (some r) (some e) policy comp principal = .ok caps ↔
      whenRequired r.privateTmp (admitPrivateTmp policy comp principal) = .ok () ∧
      whenRequired (!r.http.isEmpty) (admitEgress r.http policy comp principal) = .ok () ∧
      whenRequired (!r.env.isEmpty) (admitEnv r.env policy comp principal) = .ok () ∧
      whenRequired (!r.credentials.isEmpty)
        (admitCredentials r.credentials policy comp principal) = .ok () ∧
      caps = r.exactly e := by
    unfold admitRequires
    simp only [grantRequired_of_valid hvalid, ok_bind, check_bind_eq_ok]
    refine and_congr_right fun _ => and_congr_right fun _ => and_congr_right fun _ =>
      and_congr_right fun _ => ?_
    constructor
    · intro h
      exact (Except.ok.inj h).symm
    · rintro rfl
      rfl
  rw [hparts, whenRequired_eq_ok, admitPrivateTmp_eq_ok, egress_admitted hvalid, env_admitted,
    credentials_admitted, forall_requests]
  simp only [and_assoc]

end Manifest

/-! ## More policy -/

section More

variable {ε : Type} [HttpLibrary] [Expressions ε Value]
variable {policy : Option (OperatorPolicy ε)} {comp : Option (CompositionPolicy ε)}
variable {principal : Principal} {cap : Capability}

/-- What is permitted under a policy of the author's is permitted without it. -/
theorem permitted_of_composition {c : CompositionPolicy ε}
    (h : Permitted policy (some c) principal cap) : Permitted policy none principal cap :=
  ⟨h.1, fun _ hnone => nomatch hnone⟩

theorem operator_permits_of_insert {before after : PolicySet ε} {p : Policy ε}
    (hp : p.effect = .forbid)
    (h : (OperatorPolicy.mk (before ++ p :: after)).permits principal cap = true) :
    (OperatorPolicy.mk (before ++ after)).permits principal cap = true := by
  cases cap with
  | privateTmp => exact decideRaw_of_insert hp h
  | egress g => exact decideRaw_of_insert hp h
  | env keys => exact decideRaw_of_insert hp h
  | credential name => exact decideRaw_of_insert hp h

theorem composition_permits_of_insert {before after : PolicySet ε} {p : Policy ε}
    (hp : p.effect = .forbid)
    (h : (CompositionPolicy.mk (before ++ p :: after)).permits principal cap = true) :
    (CompositionPolicy.mk (before ++ after)).permits principal cap = true := by
  cases cap with
  | privateTmp => exact decideRaw_of_insert hp h
  | egress g => exact decideRaw_of_insert hp h
  | env keys => exact decideRaw_of_insert hp h
  | credential name =>
      simp only [CompositionPolicy.permits, CompositionPolicy.permitsSpendCredential, if_true] at h ⊢
      exact decideRaw_of_insert hp h

omit [HttpLibrary] [Expressions ε Value] in
/-- A rule more scopes no action less. -/
theorem scopesAction_insert {before after : PolicySet ε} {p : Policy ε} {action : Text}
    (h : (CompositionPolicy.mk (before ++ after)).scopesAction action = true) :
    (CompositionPolicy.mk (before ++ p :: after)).scopesAction action = true := by
  simp only [CompositionPolicy.scopesAction, List.any_append, List.any_cons, Bool.or_eq_true,
    decide_eq_true_eq] at h ⊢
  exact ⟨h.1, h.2.imp id .inr⟩

theorem permitted_of_operator_forbid {before after : PolicySet ε} {p : Policy ε}
    (hp : p.effect = .forbid)
    (h : Permitted (some ⟨before ++ p :: after⟩) comp principal cap) :
    Permitted (some ⟨before ++ after⟩) comp principal cap := by
  rcases h with ⟨⟨q, hq, hpermits⟩, hcomp⟩
  cases hq
  exact ⟨⟨_, rfl, operator_permits_of_insert hp hpermits⟩, hcomp⟩

theorem permitted_of_composition_forbid {before after : PolicySet ε} {p : Policy ε}
    (hp : p.effect = .forbid)
    (h : Permitted policy (some ⟨before ++ p :: after⟩) principal cap) :
    Permitted policy (some ⟨before ++ after⟩) principal cap := by
  refine ⟨h.1, ?_⟩
  intro c hc hscopes
  cases hc
  exact composition_permits_of_insert hp (h.2 _ rfl (scopesAction_insert hscopes))

end More

/-! ## The decision -/

section Decision

variable {ε : Type} [HttpLibrary] [Expressions ε Value]

/-- Admission under some layers is admission, to the same, under layers that permit as much. -/
theorem admitRequires_mono {r : Requires} {e : Ceiling} {principal : Principal}
    {policy policy' : Option (OperatorPolicy ε)} {comp comp' : Option (CompositionPolicy ε)}
    (hvalid : ∀ rule ∈ r.http, ValidRule rule)
    (hlayers : ∀ cap, Permitted policy comp principal cap → Permitted policy' comp' principal cap)
    {caps : Capabilities}
    (h : admitRequires (some r) (some e) policy comp principal = .ok caps) :
    admitRequires (some r) (some e) policy' comp' principal = .ok caps := by
  rcases (admitRequires_eq_ok hvalid).1 h with ⟨hall, hcaps⟩
  exact (admitRequires_eq_ok hvalid).2 ⟨fun cap hcap => hlayers cap (hall cap hcap), hcaps⟩

/-- No requirements are the requirements of nothing. -/
theorem admitRequires_getD {r : Option Requires} {e : Ceiling}
    {policy : Option (OperatorPolicy ε)} {comp : Option (CompositionPolicy ε)}
    {principal : Principal} :
    admitRequires r (some e) policy comp principal =
      admitRequires (some (r.getD .nothing)) (some e) policy comp principal := by
  cases r with
  | none => rfl
  | some r => rfl

/-- A module gets exactly what its manifest requires if every capability in it is permitted by the
operator's policy and, wherever that scopes the action, by the author's; more policy never turns a
refusal into an admission. -/
theorem three_layers (r : Option Requires) (e : Ceiling) (principal : Principal)
    (hvalid : validateRules "requires.egress.http".toList (r.getD .nothing).http = .ok ()) :
    (∀ (policy : Option (OperatorPolicy ε)) (comp : Option (CompositionPolicy ε)) caps,
      admitRequires r (some e) policy comp principal = .ok caps ↔
        (∀ cap, (r.getD .nothing).Requests cap → Permitted policy comp principal cap) ∧
          caps = (r.getD .nothing).exactly e) ∧
    (∀ (policy : Option (OperatorPolicy ε)) c caps,
      admitRequires r (some e) policy (some c) principal = .ok caps →
        admitRequires r (some e) policy none principal = .ok caps) ∧
    (∀ (before after : PolicySet ε) p comp caps, p.effect = .forbid →
      admitRequires r (some e) (some ⟨before ++ p :: after⟩) comp principal = .ok caps →
        admitRequires r (some e) (some ⟨before ++ after⟩) comp principal = .ok caps) ∧
    ∀ policy (before after : PolicySet ε) p caps, p.effect = .forbid →
      admitRequires r (some e) policy (some ⟨before ++ p :: after⟩) principal = .ok caps →
        admitRequires r (some e) policy (some ⟨before ++ after⟩) principal = .ok caps := by
  have hrules := validateRules_ok hvalid
  simp only [admitRequires_getD (r := r)]
  refine ⟨?_, ?_, ?_, ?_⟩
  · intro policy comp caps
    exact admitRequires_eq_ok hrules
  · intro policy c caps
    exact admitRequires_mono hrules fun _ => permitted_of_composition
  · intro before after p comp caps hp
    exact admitRequires_mono hrules fun _ => permitted_of_operator_forbid hp
  · intro policy before after p caps hp
    exact admitRequires_mono hrules fun _ => permitted_of_composition_forbid hp

end Decision

section Sample

attribute [local instance] sampleLibrary

/-- A module that asks for a private /tmp and for one host. -/
def sampleRequires : Requires where
  egress := some
    { http :=
        [{ host := "a.io".toList
           hostPattern := []
           methods := ["GET".toList]
           pathPrefix := [] }] }
  filesystem := some { privateTmp := true }
  env := []
  credentials := []

def sampleOperator : OperatorPolicy Empty where
  policy :=
    [permitAction "policy0".toList (actionUid actionGrantEgress),
      permitAction "policy1".toList (actionUid actionUsePrivateTmp)]

/-- The operator permits both, so the module gets both. -/
theorem three_layers_sample :
    admitRequires (some sampleRequires) (some sampleGrant.egress) (some sampleOperator) none
      ⟨[], [], []⟩ = .ok (sampleRequires.exactly sampleGrant.egress) := by
  refine ((three_layers (some sampleRequires) sampleGrant.egress ⟨[], [], []⟩ (by decide +kernel)).1
    (some sampleOperator) none _).2 ⟨?_, rfl⟩
  intro cap hcap
  cases cap with
  | privateTmp => exact ⟨⟨_, rfl, by decide +kernel⟩, fun _ h => nomatch h⟩
  | egress g =>
      rcases hcap with ⟨rule, hrule, m, hm, rfl⟩
      rcases List.mem_singleton.1 hrule with rfl
      rcases List.mem_singleton.1 hm with rfl
      exact ⟨⟨_, rfl, by decide +kernel⟩, fun _ h => nomatch h⟩
  | env keys => exact absurd rfl hcap.1
  | credential name =>
      rcases hcap with ⟨b, hb, -⟩ | hname
      · cases hb
      · cases hname

end Sample
end Authz
end FunctionWasm

import FunctionWasm.Policy.Hosts

/-!
# Capabilities — the decision in three layers

What a module requires is granted when the operator's policy permits it and the author's policy does
so too, wherever that has a rule for the action.

* `admitRequires` decides about a whole manifest; `Requires.Requests` are the capabilities in it.
* `admitEgress_eq_ok`, `admitEnv_eq_ok` and `admitCredentials_eq_ok` say what each part judges.
* `admitRequires_eq_ok` puts them together: what is granted is what is required, if all of it is
  permitted.
* `permitted_of_addComposition`, `permitted_of_operatorForbid` and `permitted_of_compositionForbid`:
  more policy permits no more.
-/

namespace FunctionWasm
namespace Authz

open Cedar Egress
open HttpLibrary (debug)

/-! ## What a manifest requires -/

structure CredentialKey where
  name : Text
  key : Text

/-- A variable of the guest and the credential that it is read from. -/
structure EnvBinding where
  name : Text
  fromCredential : CredentialKey

structure RequiredEgress where
  http : List HttpRule

structure Filesystem where
  privateTmp : Bool

structure Requires where
  egress : Option RequiredEgress
  filesystem : Option Filesystem
  env : List EnvBinding
  credentials : List Text

/-- What a module without requirements requires. -/
def Requires.nothing : Requires where
  egress := none
  filesystem := none
  env := []
  credentials := []

namespace Requires

def privateTmp (r : Requires) : Bool := r.filesystem.any Filesystem.privateTmp

def http (r : Requires) : List HttpRule := (r.egress.map RequiredEgress.http).getD []

end Requires

/-- What one run gets. -/
structure Capabilities where
  privateTmp : Bool
  rules : List HttpRule
  grant : Option Grant
  env : List EnvBinding
  credentials : List Text

/-- The default sandbox. -/
def Capabilities.default : Capabilities where
  privateTmp := false
  rules := []
  grant := none
  env := []
  credentials := []

/-! ## The two layers -/

section Layers

variable {ε : Type}

/-- What the author's policy checks, where it has a rule for the action. -/
def narrowing (comp : Option (CompositionPolicy ε)) (action : Text)
    (check : CompositionPolicy ε → Except Text Unit) : Except Text Unit :=
  match comp with
  | none => .ok ()
  | some c => if c.scopesAction action then check c else .ok ()

/-- What the operator's policy checks; without one there is a refusal. -/
def granting (policy : Option (OperatorPolicy ε)) (missing : Text)
    (check : OperatorPolicy ε → Except Text Unit) : Except Text Unit :=
  match policy with
  | none => .error missing
  | some p => check p

theorem narrowing_eq_ok {comp : Option (CompositionPolicy ε)} {action : Text}
    {check : CompositionPolicy ε → Except Text Unit} :
    narrowing comp action check = .ok () ↔
      ∀ c, comp = some c → c.scopesAction action = true → check c = .ok () := by
  cases comp with
  | none => simp [narrowing]
  | some c =>
      unfold narrowing
      by_cases hscopes : c.scopesAction action = true <;> simp [hscopes]

theorem granting_eq_ok {policy : Option (OperatorPolicy ε)} {missing : Text}
    {check : OperatorPolicy ε → Except Text Unit} :
    granting policy missing check = .ok () ↔ ∃ p, policy = some p ∧ check p = .ok () := by
  cases policy with
  | none => simp [granting]
  | some p => simp [granting]

end Layers

/-! ## The decision -/

section Decision

variable {ε : Type} [HttpLibrary] [Expressions ε Value]

def noPolicyFile : Text :=
  "but the runtime has no --sandbox-policy-file, which is required to grant ".toList

def admitPrivateTmp (policy : Option (OperatorPolicy ε)) (comp : Option (CompositionPolicy ε))
    (principal : Principal) : Except Text Unit := do
  let what := "requires a private /tmp (requires.filesystem.privateTmp), ".toList
  narrowing comp actionUsePrivateTmp fun c =>
    demand (c.permitsPrivateTmp principal)
      (what ++ "which the compositionPolicy does not permit for this request".toList)
  granting policy
    (what ++ noPolicyFile ++ "sandbox capabilities".toList) fun p =>
      demand (p.permitsPrivateTmp principal)
        (what ++ "which the operator policy (--sandbox-policy-file) does not permit".toList ++
          " for this request".toList)

def ruleHost (r : HttpRule) : Text := if r.host = [] then r.hostPattern else r.host

/-- A rule and one of its methods, as the layers judge them. -/
def egressGrantOf (r : HttpRule) (m : Text) : EgressGrant where
  host := r.host
  hostPattern := r.hostPattern
  method := m
  path := r.pathPrefix

/-- Visits every pair of a rule and one of its methods. -/
def eachEgress (rules : List HttpRule) (visit : Nat → Text → EgressGrant → Except Text Unit) :
    Except Text Unit :=
  checkAll
    (fun p => checkAll (fun m => visit p.2 (ruleHost p.1) (egressGrantOf p.1 m)) p.1.methods)
    rules.zipIdx

def egressRefusal (i : Nat) (host : Text) (g : EgressGrant) (by_ : String) : Text :=
  "requires egress ".toList ++ g.method ++ " to host ".toList ++ debug host ++ " (".toList ++
    entryName "requires.egress.http".toList i ++ "), which the ".toList ++ by_.toList ++
    " does not permit".toList

def admitEgress (rules : List HttpRule) (policy : Option (OperatorPolicy ε))
    (comp : Option (CompositionPolicy ε)) (principal : Principal) : Except Text Unit := do
  narrowing comp actionGrantEgress fun c =>
    eachEgress rules fun i host g =>
      demand (c.permitsEgress principal g) (egressRefusal i host g "compositionPolicy")
  granting policy
    ("requires egress (requires.egress.http), ".toList ++ noPolicyFile ++
      "egress (grantEgress)".toList) fun p =>
      eachEgress rules fun i host g =>
        demand (p.permitsEgress principal g)
          (egressRefusal i host g "operator policy (--sandbox-policy-file)")

def bindingRefusal (b : EnvBinding) (by_ : String) : Text :=
  "requires env ".toList ++ b.name ++ " from credential ".toList ++ debug b.fromCredential.name ++
    ", which the ".toList ++ by_.toList ++ " does not permit (spendCredential)".toList

/-- The names at once, then the credential of each binding; no repository is in play. -/
def admitEnv (bindings : List EnvBinding) (policy : Option (OperatorPolicy ε))
    (comp : Option (CompositionPolicy ε)) (principal : Principal) : Except Text Unit := do
  let keys := bindings.map EnvBinding.name
  let what := "requires env [".toList ++ " ".toList.intercalate keys ++ "] (requires.env), ".toList
  narrowing comp actionSetEnv fun c =>
    demand (c.permitsEnv principal keys)
      (what ++ "which the compositionPolicy does not permit (setEnv)".toList)
  granting policy
    (what ++ noPolicyFile ++ "sandbox capabilities".toList) fun p => do
      demand (p.permitsEnv principal keys)
        (what ++ "which the operator policy (--sandbox-policy-file) does not permit".toList ++
          " (setEnv)".toList)
      checkAll
        (fun b => do
          narrowing comp actionSpendCredential fun c =>
            demand (c.permitsSpendCredential principal b.fromCredential.name [])
              (bindingRefusal b "compositionPolicy")
          demand (p.permitsSpendCredential principal b.fromCredential.name)
            (bindingRefusal b "operator policy (--sandbox-policy-file)"))
        bindings

def credentialRefusal (i : Nat) (name why : Text) : Text :=
  "requires credential ".toList ++ debug name ++ " (".toList ++
    entryName "requires.credentials".toList i ++ "), ".toList ++ why

def admitCredentials (names : List Text) (policy : Option (OperatorPolicy ε))
    (comp : Option (CompositionPolicy ε)) (principal : Principal) : Except Text Unit := do
  narrowing comp actionSpendCredential fun c =>
    checkAll
      (fun p => demand (c.permitsSpendCredential principal p.1 [])
        (credentialRefusal p.2 p.1 "which the compositionPolicy does not permit".toList))
      names.zipIdx
  granting policy
    (credentialRefusal 0 (names.headD [])
      (noPolicyFile ++ "step credentials (spendCredential)".toList)) fun o =>
      checkAll
        (fun p => demand (o.permitsSpendCredential principal p.1)
          (credentialRefusal p.2 p.1
            "which the operator policy (--sandbox-policy-file) does not permit".toList))
        names.zipIdx

/-- A check that is made where something is required. -/
def whenRequired (required : Bool) (check : Except Text Unit) : Except Text Unit :=
  if required then check else .ok ()

/-- The grant of the rules, where there are any. -/
def grantRequired (egress : Option Ceiling) (rules : List HttpRule) : Except Text (Option Grant) :=
  if rules = [] then .ok none
  else
    match egress with
    | none =>
        .error ("requires egress (requires.egress.http), ".toList ++
          "but the runtime has no egress mechanism".toList)
    | some e =>
        match e.grant rules with
        | .error err => .error err
        | .ok g => .ok (some g)

def admitRequires (r : Option Requires) (egress : Option Ceiling)
    (policy : Option (OperatorPolicy ε)) (comp : Option (CompositionPolicy ε))
    (principal : Principal) : Except Text Capabilities :=
  match r with
  | none => .ok .default
  | some r => do
      whenRequired r.privateTmp (admitPrivateTmp policy comp principal)
      whenRequired (!r.http.isEmpty) (admitEgress r.http policy comp principal)
      let grant ← grantRequired egress r.http
      whenRequired (!r.env.isEmpty) (admitEnv r.env policy comp principal)
      whenRequired (!r.credentials.isEmpty) (admitCredentials r.credentials policy comp principal)
      return {
        privateTmp := r.privateTmp
        rules := r.http
        grant := grant
        env := r.env
        credentials := r.credentials }

end Decision
/-! ## What is judged -/

/-- What a layer is asked about. -/
inductive Capability where
  | privateTmp
  | egress (g : EgressGrant)
  | env (keys : List Text)
  | credential (name : Text)

namespace Capability

def action : Capability → Text
  | privateTmp => actionUsePrivateTmp
  | egress _ => actionGrantEgress
  | env _ => actionSetEnv
  | credential _ => actionSpendCredential

end Capability

/-- The capabilities in what a module requires: a private /tmp, every method of every rule, the
names of the environment, and every credential, bound to a variable or read whole. -/
def Requires.Requests (r : Requires) : Capability → Prop
  | .privateTmp => r.privateTmp = true
  | .egress g => ∃ rule ∈ r.http, ∃ m ∈ rule.methods, g = egressGrantOf rule m
  | .env keys => r.env ≠ [] ∧ keys = r.env.map EnvBinding.name
  | .credential name => (∃ b ∈ r.env, b.fromCredential.name = name) ∨ name ∈ r.credentials

variable [HttpLibrary] in
/-- What a run with these requirements gets, nothing less and nothing more. -/
def Requires.exactly (r : Requires) (e : Ceiling) : Capabilities where
  privateTmp := r.privateTmp
  rules := r.http
  grant := if r.http = [] then none else (e.grant r.http).toOption
  env := r.env
  credentials := r.credentials

section Layers

variable {ε : Type} [HttpLibrary] [Expressions ε Value]

def CompositionPolicy.permits (c : CompositionPolicy ε) (principal : Principal) :
    Capability → Bool
  | .privateTmp => c.permitsPrivateTmp principal
  | .egress g => c.permitsEgress principal g
  | .env keys => c.permitsEnv principal keys
  | .credential name => c.permitsSpendCredential principal name []

def OperatorPolicy.permits (p : OperatorPolicy ε) (principal : Principal) : Capability → Bool
  | .privateTmp => p.permitsPrivateTmp principal
  | .egress g => p.permitsEgress principal g
  | .env keys => p.permitsEnv principal keys
  | .credential name => p.permitsSpendCredential principal name

/-- There is an operator's policy and it permits the capability; the author's permits it, too, where
it has a rule for the action. -/
def Permitted (policy : Option (OperatorPolicy ε)) (comp : Option (CompositionPolicy ε))
    (principal : Principal) (cap : Capability) : Prop :=
  (∃ p, policy = some p ∧ p.permits principal cap = true) ∧
    ∀ c, comp = some c → c.scopesAction cap.action = true → c.permits principal cap = true

end Layers

/-! ## What each part judges -/

theorem forall_zipIdx {α : Type} {l : List α} {P : α → Prop} :
    (∀ p ∈ l.zipIdx, P p.1) ↔ ∀ a ∈ l, P a := by
  constructor
  · intro h a ha
    rcases List.mem_iff_getElem?.1 ha with ⟨i, hi⟩
    exact h (a, i) (List.mk_mem_zipIdx_iff_getElem?.2 hi)
  · intro h p hp
    exact h p.1 (List.fst_mem_of_mem_zipIdx hp)

theorem eachEgress_demand {rules : List HttpRule} {permits : EgressGrant → Bool}
    {refusal : Nat → Text → EgressGrant → Text} :
    eachEgress rules (fun i host g => demand (permits g) (refusal i host g)) = .ok () ↔
      ∀ r ∈ rules, ∀ m ∈ r.methods, permits (egressGrantOf r m) = true := by
  unfold eachEgress
  simp only [checkAll_eq_ok, demand_eq_ok]
  exact forall_zipIdx (P := fun r => ∀ m ∈ r.methods, permits (egressGrantOf r m) = true)

section Parts

variable {ε : Type} [HttpLibrary] [Expressions ε Value]
variable {policy : Option (OperatorPolicy ε)} {comp : Option (CompositionPolicy ε)}
variable {principal : Principal}

/-- Where something is asked for, the layers may be taken one after the other. -/
theorem forall_permitted {asked : List Capability} {action : Text} (hasked : asked ≠ [])
    (haction : ∀ cap ∈ asked, cap.action = action) :
    (∀ cap ∈ asked, Permitted policy comp principal cap) ↔
      (∀ c, comp = some c → c.scopesAction action = true →
        ∀ cap ∈ asked, c.permits principal cap = true) ∧
      ∃ p, policy = some p ∧ ∀ cap ∈ asked, p.permits principal cap = true := by
  constructor
  · intro h
    rcases List.exists_mem_of_ne_nil _ hasked with ⟨cap, hcap⟩
    rcases (h cap hcap).1 with ⟨p, hp, -⟩
    refine ⟨?_, p, hp, ?_⟩
    · intro c hc hscopes cap hcap
      exact (h cap hcap).2 c hc (by rwa [haction cap hcap])
    · intro cap hcap
      rcases (h cap hcap).1 with ⟨q, hq, hpermits⟩
      cases hp.symm.trans hq
      exact hpermits
  · rintro ⟨hcomp, p, hp, hpolicy⟩ cap hcap
    refine ⟨⟨p, hp, hpolicy cap hcap⟩, ?_⟩
    intro c hc hscopes
    exact hcomp c hc (by rwa [← haction cap hcap]) cap hcap

theorem admitPrivateTmp_eq_ok :
    admitPrivateTmp policy comp principal = .ok () ↔
      Permitted policy comp principal .privateTmp := by
  unfold admitPrivateTmp
  simp only [check_bind_eq_ok, narrowing_eq_ok, granting_eq_ok, demand_eq_ok]
  exact and_comm

/-- Every method of every rule is judged. -/
theorem admitEgress_eq_ok {rules : List HttpRule} (hmethods : ∃ r ∈ rules, r.methods ≠ []) :
    admitEgress rules policy comp principal = .ok () ↔
      ∀ r ∈ rules, ∀ m ∈ r.methods,
        Permitted policy comp principal (.egress (egressGrantOf r m)) := by
  let asked : List Capability :=
    rules.flatMap fun r => r.methods.map fun m => .egress (egressGrantOf r m)
  have hforall : ∀ P : Capability → Prop,
      (∀ cap ∈ asked, P cap) ↔ ∀ r ∈ rules, ∀ m ∈ r.methods, P (.egress (egressGrantOf r m)) := by
    intro P
    simp only [asked, List.forall_mem_flatMap, List.forall_mem_map]
  have hasked : asked ≠ [] := by
    rcases hmethods with ⟨r, hr, hne⟩
    rcases List.exists_mem_of_ne_nil _ hne with ⟨m, hm⟩
    exact List.ne_nil_of_mem (List.mem_flatMap.2 ⟨r, hr, List.mem_map_of_mem hm⟩)
  have haction : ∀ cap ∈ asked, cap.action = actionGrantEgress :=
    (hforall _).2 fun _ _ _ _ => rfl
  unfold admitEgress
  rw [← hforall, forall_permitted hasked haction]
  simp only [check_bind_eq_ok, narrowing_eq_ok, granting_eq_ok, eachEgress_demand, hforall]
  rfl

/-- The names are judged at once, and the credential of every binding. -/
theorem admitEnv_eq_ok {bindings : List EnvBinding} :
    admitEnv bindings policy comp principal = .ok () ↔
      Permitted policy comp principal (.env (bindings.map EnvBinding.name)) ∧
        ∀ b ∈ bindings, Permitted policy comp principal (.credential b.fromCredential.name) := by
  unfold admitEnv
  simp only [check_bind_eq_ok, narrowing_eq_ok, granting_eq_ok, checkAll_eq_ok, demand_eq_ok]
  constructor
  · rintro ⟨hcomp, p, hp, hpolicy, hbindings⟩
    refine ⟨⟨⟨p, hp, hpolicy⟩, hcomp⟩, ?_⟩
    intro b hb
    exact ⟨⟨p, hp, (hbindings b hb).2⟩, (hbindings b hb).1⟩
  · rintro ⟨⟨⟨p, hp, hpolicy⟩, hcomp⟩, hbindings⟩
    refine ⟨hcomp, p, hp, hpolicy, ?_⟩
    intro b hb
    rcases hbindings b hb with ⟨⟨q, hq, hpermits⟩, hnarrows⟩
    cases hp.symm.trans hq
    exact ⟨hnarrows, hpermits⟩

/-- Every credential that is read whole is judged. -/
theorem admitCredentials_eq_ok {names : List Text} (hne : names ≠ []) :
    admitCredentials names policy comp principal = .ok () ↔
      ∀ name ∈ names, Permitted policy comp principal (.credential name) := by
  have hforall : ∀ P : Capability → Prop,
      (∀ cap ∈ names.map Capability.credential, P cap) ↔ ∀ name ∈ names, P (.credential name) := by
    intro P
    exact List.forall_mem_map
  have hasked : names.map Capability.credential ≠ [] := by simpa using hne
  have haction : ∀ cap ∈ names.map Capability.credential, cap.action = actionSpendCredential :=
    (hforall _).2 fun _ _ => rfl
  unfold admitCredentials
  rw [← hforall, forall_permitted hasked haction]
  simp only [check_bind_eq_ok, narrowing_eq_ok, granting_eq_ok, checkAll_eq_ok, demand_eq_ok,
    hforall]
  refine and_congr ?_ ?_
  · refine forall₃_congr ?_
    intro c _ _
    exact forall_zipIdx (P := fun name => c.permitsSpendCredential principal name [] = true)
  · refine exists_congr ?_
    intro p
    refine and_congr_right fun _ => ?_
    exact forall_zipIdx (P := fun name => p.permitsSpendCredential principal name = true)

end Parts

end Authz
end FunctionWasm

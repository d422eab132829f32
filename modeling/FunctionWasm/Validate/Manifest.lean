import FunctionWasm.Compose.Changes
import FunctionWasm.Egress.Coverage
import FunctionWasm.Foundation.Decimal
import FunctionWasm.Policy.Capabilities

/-!
# Manifest — what a module declares about itself

A manifest is a request, never a grant: it is checked by itself when it is read, and held against
what a run was granted.

* `Manifest.validate` checks its shape, `ValidManifest` is what a checked one is like.
* `Manifest.check` holds it against `Grants`; `checkRequires_of_admitted` says that what was admitted
  for a manifest is what it asks for.
* `coverage_exact_iff` puts this together with the soundness of coverage.

The JSON Schema of a manifest's config is a library's.
-/

namespace FunctionWasm

open Authz Egress
open HttpLibrary (debug)

deriving instance DecidableEq for CredentialKey, EnvBinding

/-! ## What is declared -/

/-- A kind that a module declares it requires, and how it selects it. -/
structure RequiredResource where
  kind : Text
  by_ : List Text
  deriving DecidableEq

/-- A kind that a module declares it composes, and how. -/
structure Composes where
  kind : Text
  changes : List Text
  deriving DecidableEq

/-- The requirements with the advisory ones. -/
structure DeclaredRequires extends Requires where
  resources : List RequiredResource

class SchemaLibrary where
  Json : Type
  isNull : Json → Bool
  emptyObject : Json
  /-- Why a schema does not compile. -/
  compile : Json → Except Text Unit
  /-- Where an instance fails a schema first, and why. -/
  firstError : Json → Json → Option (Text × Text)

structure Config [SchemaLibrary] where
  schema : Option SchemaLibrary.Json

structure Manifest [SchemaLibrary] where
  type : Text
  abi : Int
  requires : Option DeclaredRequires
  config : Option Config
  minRuntime : Text
  composes : List Composes

/-- What one run was granted. -/
structure Grants where
  privateTmp : Bool
  http : List HttpRule
  env : List EnvBinding
  credentials : List Text

/-- The admitted set as a manifest is held against it. -/
def Authz.Capabilities.grants (c : Capabilities) : Grants where
  privateTmp := c.privateTmp
  http := c.rules
  env := c.env
  credentials := c.credentials

section Kinds

/-- The group and the kind of `<group>/<Kind>`, neither of them empty. -/
def groupAndKind (kind : Text) : Option (Text × Text) :=
  (splitOnce '/' kind).filter fun p => p.1 ≠ [] ∧ p.2 ≠ []

def resourceMatches : List Text := ["name".toList, "labels".toList]

def changeNames : List Text := ["add".toList, "modify".toList, "remove".toList]

/-- `ChangeKind::parse` -/
def Compose.ChangeKind.parse (s : Text) : Option Compose.ChangeKind :=
  if s = "add".toList then some .add
  else if s = "modify".toList then some .modify
  else if s = "remove".toList then some .remove
  else none

/-- The changes that are declared, every one when none is. -/
def Composes.changeKinds (c : Composes) : List Compose.ChangeKind :=
  if c.changes = [] then [.add, .modify, .remove] else c.changes.filterMap Compose.ChangeKind.parse

/-- The matches that are declared, both when none is. -/
def RequiredResource.matchKinds (r : RequiredResource) : List Text :=
  if r.by_ = [] then resourceMatches else r.by_.filter fun b => b ∈ resourceMatches

end Kinds

/-! ## The check of a manifest by itself -/

section Bindings

variable [HttpLibrary]

/-- Whether a text is an identifier. -/
def validEnvKey : Text → Bool
  | [] => false
  | first :: rest =>
      (first.isAlpha || first = '_') && rest.all fun c => c.isAlphanum || c = '_'

def validateBindingsFrom (field : Text) :
    Nat → List (Text × Text) → List EnvBinding → Except Text Unit
  | _, _, [] => .ok ()
  | i, seen, b :: rest =>
      let entry := entryName field i
      if validEnvKey b.name = false then
        .error (entry ++ ".name ".toList ++ debug b.name ++
          " is not an identifier ([A-Za-z_][A-Za-z0-9_]*)".toList)
      else if b.fromCredential.name = [] then
        .error (entry ++ ".fromCredential.name must not be empty".toList)
      else if b.fromCredential.key = [] then
        .error (entry ++ ".fromCredential.key must not be empty".toList)
      else
        match seen.lookup b.name with
        | some prev =>
            .error (entry ++ ": ".toList ++ b.name ++ " is already bound by ".toList ++ prev)
        | none => validateBindingsFrom field (i + 1) ((b.name, entry) :: seen) rest

/-- An identifier set at most once, a credential's name and a key. -/
def validateBindings (field : Text) (bindings : List EnvBinding) : Except Text Unit :=
  validateBindingsFrom field 0 [] bindings

def validateCredentialsFrom (field : Text) :
    Nat → List (Text × Text) → List Text → Except Text Unit
  | _, _, [] => .ok ()
  | i, seen, name :: rest =>
      let entry := entryName field i
      if name = [] then .error (entry ++ " must not be empty".toList)
      else
        match seen.lookup name with
        | some prev =>
            .error (entry ++ ": credential ".toList ++ debug name ++
              " is already required by ".toList ++ prev)
        | none => validateCredentialsFrom field (i + 1) ((name, entry) :: seen) rest

/-- The name of a credential, required at most once. -/
def validateCredentials (field : Text) (names : List Text) : Except Text Unit :=
  validateCredentialsFrom field 0 [] names

theorem validateBindingsFrom_ok {field : Text} {i : Nat} {seen : List (Text × Text)}
    {bindings : List EnvBinding} (h : validateBindingsFrom field i seen bindings = .ok ()) :
    ∀ b ∈ bindings, b.fromCredential.name ≠ [] := by
  induction bindings generalizing i seen with
  | nil => simp
  | cons b rest ih =>
      unfold validateBindingsFrom at h
      dsimp only at h
      split at h
      · cases h
      split at h
      · cases h
      next hname =>
      split at h
      · cases h
      split at h
      · cases h
      exact List.forall_mem_cons.2 ⟨hname, ih h⟩

theorem validateCredentialsFrom_ok {field : Text} {i : Nat} {seen : List (Text × Text)}
    {names : List Text} (h : validateCredentialsFrom field i seen names = .ok ()) :
    ∀ name ∈ names, name ≠ [] := by
  induction names generalizing i seen with
  | nil => simp
  | cons name rest ih =>
      unfold validateCredentialsFrom at h
      dsimp only at h
      split at h
      · cases h
      next hname =>
      split at h
      · cases h
      exact List.forall_mem_cons.2 ⟨hname, ih h⟩

end Bindings

section Versions

/-- Gives a version its leading `v`. -/
def canonical (v : Text) : Text :=
  if v = [] ∨ v.head? = some 'v' then v else 'v' :: v

/-- A version: major, minor, patch, and whether it is no prerelease. -/
structure Semver where
  major : Nat
  minor : Nat
  patch : Nat
  release : Bool
  deriving DecidableEq

/-- The order of versions: a prerelease sorts before its release. -/
def Semver.lt (a b : Semver) : Bool :=
  a.major < b.major ∨ a.major = b.major ∧ (a.minor < b.minor ∨ a.minor = b.minor ∧
    (a.patch < b.patch ∨ a.patch = b.patch ∧ (a.release = false ∧ b.release = true)))

def parseSemver (v : Text) : Option Semver :=
  match v with
  | 'v' :: v =>
      let core := v.takeWhile fun c => c ≠ '-' && c ≠ '+'
      let pre : Bool := core ≠ v ∧ '-' ∈ v
      let parts := core.splitOn '.'
      let number (i : Nat) := readWord (2 ^ 64) (parts.getD i "0".toList)
      match number 0, number 1, number 2 with
      | some major, some minor, some patch =>
          if 3 < parts.length then none else some ⟨major, minor, patch, !pre⟩
      | _, _, _ => none
  | _ => none

end Versions

namespace Manifest

variable [SchemaLibrary]

def typeWasm : Text := "wasm".toList

def typeOciImage : Text := "oci".toList

/-- The ABIs that the runtime implements. -/
def supportedAbis : List Int := [2]

def ociContractAbi : Int := 1

/-- `wasm` when the manifest leaves it out. -/
def kind (m : Manifest) : Text := if m.type = [] then typeWasm else m.type

def configSchema (m : Manifest) : Option SchemaLibrary.Json :=
  (m.config.bind Config.schema).filter fun s => !SchemaLibrary.isNull s

variable [HttpLibrary]

def validateAbi (m : Manifest) : Except Text Unit :=
  if m.kind = typeWasm then
    demand (m.abi ∈ supportedAbis)
      (("abi must be 2 (this runtime implements ABI v2 only; ABI v1 was removed in " ++
        "function-wasm 1.0.0), got ").toList ++ (toString m.abi).toList)
  else if m.kind = typeOciImage then
    demand (m.abi = ociContractAbi)
      ("abi must be 1 for type oci (the process contract), got ".toList ++ (toString m.abi).toList)
  else .error ("type must be wasm or oci, got ".toList ++ m.kind)

def validateKind (entry kind : Text) : Except Text Unit :=
  demand (groupAndKind kind).isSome
    (entry ++ ".kind must be <group>/<Kind> (the core group spelled core), got ".toList ++ debug kind)

def validateResource (p : RequiredResource × Nat) : Except Text Unit := do
  let entry := entryName "requires.resources".toList p.2
  validateKind entry p.1.kind
  checkAll
    (fun b => demand (b ∈ resourceMatches)
      (entry ++ ".by must be among name and labels, got ".toList ++ debug b))
    p.1.by_

def validateComposes (p : Composes × Nat) : Except Text Unit := do
  let entry := entryName "composes".toList p.2
  validateKind entry p.1.kind
  checkAll
    (fun change => demand (Compose.ChangeKind.parse change).isSome
      (entry ++ ".changes must be among add, modify and remove, got ".toList ++ debug change))
    p.1.changes

def validateRequires (r : DeclaredRequires) : Except Text Unit := do
  validateRules "requires.egress.http".toList r.http
  validateBindings "requires.env".toList r.env
  validateCredentials "requires.credentials".toList r.credentials
  checkAll validateResource r.resources.zipIdx

/-- A check of something that need not be there. -/
def whenSome {α : Type} (x : Option α) (check : α → Except Text Unit) : Except Text Unit :=
  match x with
  | none => .ok ()
  | some a => check a

/-- The check of a manifest by itself. -/
def validate (m : Manifest) : Except Text Unit := do
  m.validateAbi
  whenSome m.requires validateRequires
  checkAll validateComposes m.composes.zipIdx
  demand (m.minRuntime = [] ∨ (parseSemver (canonical m.minRuntime)).isSome)
    ("minRuntime ".toList ++ debug m.minRuntime ++
      " is not a semantic version (e.g. v0.2.0)".toList)
  whenSome m.configSchema fun schema =>
    match SchemaLibrary.compile schema with
    | .error e => .error ("config.schema: ".toList ++ e)
    | .ok () => .ok ()

/-- What the parts of a checked manifest that policies are written from are like. -/
structure Valid (m : Manifest) : Prop where
  rules : ∀ r, m.requires = some r → validateRules "requires.egress.http".toList r.http = .ok ()
  bound : ∀ r, m.requires = some r → ∀ b ∈ r.env, b.fromCredential.name ≠ []
  whole : ∀ r, m.requires = some r → ∀ name ∈ r.credentials, name ≠ []
  required : ∀ r, m.requires = some r → ∀ x ∈ r.resources,
    (groupAndKind x.kind).isSome = true ∧ ∀ b ∈ x.by_, b ∈ resourceMatches
  composed : ∀ c ∈ m.composes, (groupAndKind c.kind).isSome = true ∧
    ∀ change ∈ c.changes, change ∈ changeNames

omit [SchemaLibrary] [HttpLibrary] in
theorem whenSome_eq_ok {α : Type} {x : Option α} {check : α → Except Text Unit} :
    whenSome x check = .ok () ↔ ∀ a, x = some a → check a = .ok () := by
  cases x <;> simp [whenSome]

omit [SchemaLibrary] [HttpLibrary] in
theorem changeNames_of_parse {change : Text}
    (h : (Compose.ChangeKind.parse change).isSome = true) : change ∈ changeNames := by
  unfold Compose.ChangeKind.parse at h
  split at h
  · next hadd => simp [changeNames, hadd]
  split at h
  · next hmodify => simp [changeNames, hmodify]
  split at h
  · next hremove => simp [changeNames, hremove]
  · cases h

theorem valid_of_validate {m : Manifest} (h : m.validate = .ok ()) : m.Valid := by
  unfold validate at h
  simp only [check_bind_eq_ok, whenSome_eq_ok, checkAll_eq_ok] at h
  rcases h with ⟨-, hrequires, hcomposes, -⟩
  have hparts : ∀ r, m.requires = some r →
      validateRules "requires.egress.http".toList r.http = .ok () ∧
        validateBindings "requires.env".toList r.env = .ok () ∧
        validateCredentials "requires.credentials".toList r.credentials = .ok () ∧
        ∀ p ∈ r.resources.zipIdx, validateResource p = .ok () := by
    intro r hr
    have hr := hrequires r hr
    unfold validateRequires at hr
    simpa only [check_bind_eq_ok, checkAll_eq_ok] using hr
  refine
    { rules := fun r hr => (hparts r hr).1
      bound := fun r hr => validateBindingsFrom_ok (hparts r hr).2.1
      whole := fun r hr => validateCredentialsFrom_ok (hparts r hr).2.2.1
      required := ?_
      composed := ?_ }
  · intro r hr x hx
    rcases List.mem_iff_getElem?.1 hx with ⟨i, hi⟩
    have hone := (hparts r hr).2.2.2 (x, i) (List.mk_mem_zipIdx_iff_getElem?.2 hi)
    unfold validateResource validateKind at hone
    simpa only [check_bind_eq_ok, demand_eq_ok, checkAll_eq_ok, decide_eq_true_eq] using hone
  · intro c hc
    rcases List.mem_iff_getElem?.1 hc with ⟨i, hi⟩
    have hone := hcomposes (c, i) (List.mk_mem_zipIdx_iff_getElem?.2 hi)
    unfold validateComposes validateKind at hone
    simp only [check_bind_eq_ok, demand_eq_ok, checkAll_eq_ok] at hone
    exact ⟨hone.1, fun change hchange => changeNames_of_parse (hone.2 change hchange)⟩

/-! ## The check against what was granted -/

def describeRule (r : HttpRule) : Text :=
  (if r.host = [] then "hostPattern ".toList ++ r.hostPattern else "host ".toList ++ r.host) ++
    " methods [".toList ++ " ".toList.intercalate r.methods ++ "]".toList ++
    if r.pathPrefix = [] then [] else " pathPrefix ".toList ++ r.pathPrefix

/-- Every requirement is covered by what was granted. -/
def checkRequires (r : DeclaredRequires) (g : Grants) : Except Text Unit := do
  checkAll
    (fun required => demand (covered required g.http)
      ("requires egress ".toList ++ describeRule required ++ ", which was not granted".toList))
    r.http
  demand (!r.privateTmp || g.privateTmp)
    ("requires a private /tmp (requires.filesystem.privateTmp), which was not granted".toList)
  checkAll
    (fun b => demand (b ∈ g.env)
      ("requires env ".toList ++ b.name ++ " from credential ".toList ++
        debug b.fromCredential.name ++ " key ".toList ++ debug b.fromCredential.key ++
        ", which was not granted".toList))
    r.env
  checkAll
    (fun p => demand (p.1 ∈ g.credentials)
      ("requires credential ".toList ++ debug p.1 ++ " (".toList ++
        entryName "requires.credentials".toList p.2 ++ "), which was not granted".toList))
    r.credentials.zipIdx

/-- A development build passes every rule. -/
def checkRuntime (m : Manifest) (runtimeVersion : Text) : Except Text Unit :=
  if m.minRuntime = [] ∨ runtimeVersion = [] ∨ runtimeVersion = "(devel)".toList then .ok ()
  else
    let have_ := canonical runtimeVersion
    match parseSemver have_, parseSemver (canonical m.minRuntime) with
    | some haveV, some wantV =>
        demand (!haveV.lt wantV)
          ("requires runtime ".toList ++ canonical m.minRuntime ++ " or newer, this is ".toList ++
            have_)
    | _, _ => .ok ()

def validateConfig (m : Manifest) (config : Option SchemaLibrary.Json) : Except Text Unit :=
  whenSome m.configSchema fun schema =>
    match SchemaLibrary.compile schema with
    | .error e => .error ("config.schema: ".toList ++ e)
    | .ok () =>
        match SchemaLibrary.firstError schema (config.getD SchemaLibrary.emptyObject) with
        | none => .ok ()
        | some (pointer, why) =>
            let pointer := if pointer = [] then "/".toList else pointer
            .error ("config does not match the module's schema: ".toList ++ pointer ++
              ": ".toList ++ why)

/-- The check of a manifest against what one run was granted. -/
def check (m : Manifest) (g : Grants) (config : Option SchemaLibrary.Json)
    (runtimeVersion : Text) : Except Text Unit := do
  demand (m.kind ≠ typeOciImage)
    (("is a type: oci module, which function-wasm does not serve; the OCI runtime is " ++
      "function-oci (docs/one-pager-oci-runtime.md)").toList)
  demand (m.abi ∈ supportedAbis)
    ("requires ABI v".toList ++ (toString m.abi).toList ++
      ", this runtime implements ABI v2 only".toList)
  whenSome m.requires fun r => checkRequires r g
  m.checkRuntime runtimeVersion
  m.validateConfig config

/-- The check without what it asks of the grants. -/
def checkRest (m : Manifest) (config : Option SchemaLibrary.Json) (runtimeVersion : Text) :
    Except Text Unit := do
  demand (m.kind ≠ typeOciImage)
    (("is a type: oci module, which function-wasm does not serve; the OCI runtime is " ++
      "function-oci (docs/one-pager-oci-runtime.md)").toList)
  demand (m.abi ∈ supportedAbis)
    ("requires ABI v".toList ++ (toString m.abi).toList ++
      ", this runtime implements ABI v2 only".toList)
  m.checkRuntime runtimeVersion
  m.validateConfig config

/-! ## What was admitted for a manifest -/

section Admitted

variable {ε : Type} [Cedar.Expressions ε Value]

omit [SchemaLibrary] in
theorem admitRequires_fields {r : Requires} {egress : Option Ceiling}
    {policy : Option (OperatorPolicy ε)} {comp : Option (CompositionPolicy ε)}
    {principal : Principal} {caps : Capabilities}
    (h : admitRequires (some r) egress policy comp principal = .ok caps) :
    caps.privateTmp = r.privateTmp ∧ caps.rules = r.http ∧ caps.env = r.env ∧
      caps.credentials = r.credentials := by
  unfold admitRequires at h
  rcases check_bind_eq_ok.1 h with ⟨-, h⟩
  rcases check_bind_eq_ok.1 h with ⟨-, h⟩
  rcases bind_eq_ok.1 h with ⟨grant, -, h⟩
  rcases check_bind_eq_ok.1 h with ⟨-, h⟩
  rcases check_bind_eq_ok.1 h with ⟨-, h⟩
  cases h
  exact ⟨rfl, rfl, rfl, rfl⟩

/-- What was admitted for a checked manifest is what it asks for. -/
theorem checkRequires_of_admitted {m : Manifest} (hm : m.Valid) {egress : Option Ceiling}
    {policy : Option (OperatorPolicy ε)} {comp : Option (CompositionPolicy ε)}
    {principal : Principal} {caps : Capabilities}
    (h : admitRequires (m.requires.map DeclaredRequires.toRequires) egress policy comp principal =
      .ok caps) :
    whenSome m.requires (fun r => checkRequires r caps.grants) = .ok () := by
  rw [whenSome_eq_ok]
  intro r hr
  rw [hr] at h
  rcases admitRequires_fields h with ⟨hprivate, hrules, henv, hcredentials⟩
  have hvalid := validateRules_ok (hm.rules r hr)
  unfold checkRequires
  simp only [check_bind_eq_ok, checkAll_eq_ok, demand_eq_ok, Capabilities.grants, hprivate, hrules,
    henv, hcredentials, decide_eq_true_eq]
  refine ⟨fun required hrequired => covered_self hrequired (hvalid required hrequired), ?_,
    fun b hb => hb, fun p hp => List.fst_mem_of_mem_zipIdx hp⟩
  cases r.privateTmp <;> rfl

theorem check_of_admitted {m : Manifest} (hm : m.Valid) {egress : Option Ceiling}
    {policy : Option (OperatorPolicy ε)} {comp : Option (CompositionPolicy ε)}
    {principal : Principal} {caps : Capabilities}
    (h : admitRequires (m.requires.map DeclaredRequires.toRequires) egress policy comp principal =
      .ok caps) (config : Option SchemaLibrary.Json) (runtimeVersion : Text) :
    m.check caps.grants config runtimeVersion = m.checkRest config runtimeVersion := by
  unfold check checkRest
  rw [checkRequires_of_admitted hm h]
  rfl

/-- Coverage is sound exactly where hosts are compared as requests are; and it is reflexive, so that
nothing is missing of what was admitted for a manifest itself. -/
theorem coverage_exact_iff :
    (∀ required granted : ValidRules,
      (∀ r ∈ required.rules, covered r granted.rules = true → AdmitsAll r granted.rules) ↔
        ∀ r ∈ required.rules, covered r granted.rules = true → SameHost r granted.rules) ∧
    (∀ rules : ValidRules, ∀ r ∈ rules.rules, covered r rules.rules = true) ∧
    ∀ (m : Manifest) (egress : Option Ceiling) (policy : Option (OperatorPolicy ε))
      (comp : Option (CompositionPolicy ε)) (principal : Principal) (caps : Capabilities),
      m.validate = .ok () →
        admitRequires (m.requires.map DeclaredRequires.toRequires) egress policy comp principal =
          .ok caps →
        ∀ config runtimeVersion,
          m.check caps.grants config runtimeVersion = m.checkRest config runtimeVersion :=
  ⟨coverage_sound_iff, fun _ _ hr => covered_self hr (ValidRules.rule hr),
    fun _ _ _ _ _ _ hm h => check_of_admitted (valid_of_validate hm) h⟩

end Admitted
end Manifest

/-! ## Two spellings that are not one host -/

section Sample

/-- The libraries on one URL. -/
@[reducible] def oneUrl : HttpLibrary where
  ParsedUrl := Unit
  parseUrl raw := if raw = "http://a.com/".toList then .ok () else .error "no URL".toList
  scheme _ := "http".toList
  hostStr _ := some "a.com".toList
  path _ := "/".toList
  asStr _ := "http://a.com/".toList
  join _ _ := .error "no URL".toList
  literal _ := none
  literal_hostStr := by
    intro u ip h
    cases h
  methodFromBytes _ := .ok ()
  lowercase := List.map Char.toLower
  uppercase := List.map Char.toUpper
  showIp _ := []
  debug := id

attribute [local instance] oneUrl

def ruleFor (host : String) : HttpRule where
  host := host.toList
  hostPattern := []
  methods := ["GET".toList]
  pathPrefix := []

def bareCeiling : Ceiling where
  blocked := []
  allowed := []
  explicit := []
  budget := .default
  rateLimited := false

def grantFor (host : String) : Grant where
  egress := bareCeiling
  rules :=
    [{ host := host.toList
       suffix := []
       methods := ["GET".toList]
       pathPrefix := [] }]

/-- A carriage return is stripped of the one spelling and kept in the other. -/
theorem covered_not_granted :
    validateRules "requires.egress.http".toList [ruleFor "a.com\r"] = .ok () ∧
      validateRules "requires.egress.http".toList [ruleFor "a.com\r."] = .ok () ∧
      covered (ruleFor "a.com\r") [ruleFor "a.com\r."] = true ∧
      bareCeiling.grant [ruleFor "a.com\r"] = .ok (grantFor "a.com") ∧
      bareCeiling.grant [ruleFor "a.com\r."] = .ok (grantFor "a.com\r") ∧
      ∃ u, Url.parse "http://a.com/".toList = .ok u ∧
        (grantFor "a.com").admits "GET".toList u = .ok () ∧
        (grantFor "a.com\r").admits "GET".toList u ≠ .ok () := by
  refine ⟨by decide +kernel, by decide +kernel, by decide +kernel, ?_, ?_, _, rfl, ?_, ?_⟩
  · rfl
  · rfl
  · decide +kernel
  · decide +kernel

end Sample
end FunctionWasm

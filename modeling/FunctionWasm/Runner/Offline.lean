import FunctionWasm.Runner.Handle

/-!
# Offline — the verdict on a step without a request

The Inputs of some documents are judged with no cluster and no request: what a request would be
admitted with, and with the modules at hand what its module would be allowed.

* `Step` is an Input and where it was found, `StepResult` everything that is said of it.
* `consider` is what is decided about an Input alone, `locate` what is decided about its module,
  `readManifest` and `grant` what about its manifest.
* `validate` is the verdict, with everything that is said beside it.
-/

namespace FunctionWasm
namespace Offline

open Authz Cedar UnicodeTables
open Egress (HttpLibrary Ceiling)
open SandboxEnv (refusePullCredential)
open Runner (Input admitRequest)

/-! ## A step, and what is said of it -/

/-- An Input, with where it came from. -/
structure Step where
  file : Text
  composition : Text
  document : Nat
  /-- The place in the pipeline; a bare Input has none. -/
  index : Option Nat
  name : Text
  function : Text
  input : List (Text × Json)

def asObject : Json → Option (List (Text × Json))
  | .object entries => some entries
  | _ => none

inductive Status where
  | ok
  | refused (message : Text)
  | panicked
  deriving DecidableEq

variable [DocumentLibrary]

/-- What is read of a module. -/
structure ReadModule where
  digest : Text
  size : Nat
  imports : List Text
  manifest : Option ManifestDocument

structure StepResult where
  step : Step
  status : Status
  module : Text
  details : List Text
  warnings : List Text
  resolved : Option ReadModule
  /-- The credentials that the module gets. -/
  credentials : List Text

def StepResult.of (s : Step) : StepResult where
  step := s
  status := .ok
  module := []
  details := []
  warnings := []
  resolved := none
  credentials := []

def StepResult.warn (r : StepResult) (warnings : List Text) : StepResult :=
  { r with warnings := r.warnings ++ warnings }

@[simp] theorem StepResult.warn_status (r : StepResult) (warnings : List Text) :
    (r.warn warnings).status = r.status := rfl

@[simp] theorem StepResult.warn_resolved (r : StepResult) (warnings : List Text) :
    (r.warn warnings).resolved = r.resolved := rfl

def StepResult.stop (r : StepResult) (status : Status) : StepResult :=
  { r with status := status }

@[simp] theorem StepResult.stop_status (r : StepResult) (status : Status) :
    (r.stop status).status = status := rfl

/-! ## What is to hand -/

/-- What compiles modules: `γ` is a component, `μ` one that implements the world. -/
structure WasmEngine (γ μ : Type) where
  compiled : Bytes → Except Text γ
  pre : γ → Except Text μ
  hostImports : γ → List Text

structure Inspection where
  hostImports : List Text
  abiError : Option Text

namespace WasmEngine

variable {γ μ : Type}

def compile (engine : WasmEngine γ μ) (wasm : Bytes) : Except Text μ := do
  let c ← engine.compiled wasm
  engine.pre c

def inspect (engine : WasmEngine γ μ) (wasm : Bytes) : Except Text Inspection := do
  let c ← engine.compiled wasm
  return {
    hostImports := engine.hostImports c
    abiError :=
      match engine.pre c with
      | .error e => some e
      | .ok _ => none }

end WasmEngine

/-- Where modules are, with the credentials of the local config. -/
structure Modules where
  resolve : ModuleSource → Except Text Resolved
  fetch : Resolved → Except Text Bytes
  manifest : Resolved → Except Text Bytes

structure Validator (ε γ μ : Type) where
  build : Build
  ceilings : Engine.Config
  /-- How an Input is decoded. -/
  decode : List (Text × Json) → Except Text (Input Json)
  describe : DecodeError → Text
  engine : Option (WasmEngine γ μ)
  resolver : Option Modules
  xr : Option Json
  policy : Option (OperatorPolicy ε)
  egress : Ceiling
  verifierConfigured : Bool
  verifier : Option (OciReference → Option Auth → Except Text Unit)
  /-- The local Docker config. -/
  keychain : Option Bytes
  runtimeVersion : Text

/-! ## Fields that nothing reads -/

section Fields

variable [UnicodeTables]

/-- The fields that are known under a path; other objects are not looked into. -/
def knownFields : List Text → Option (List Text)
  | [] =>
      some (["apiVersion", "kind", "metadata", "module", "compositionPolicy", "limits",
        "config"].map String.toList)
  | [a] =>
      if a = "module".toList then
        some (["type", "oci", "http", "path", "manifestPath", "from", "allowEmpty"].map
          String.toList)
      else if a = "limits".toList then
        some (["timeout", "memory", "concurrency"].map String.toList)
      else none
  | [a, b] =>
      if a = "module".toList ∧ b = "oci".toList then some (["ref", "credentials"].map String.toList)
      else if a = "module".toList ∧ b = "http".toList then
        some (["url", "digest", "manifestURL", "manifestDigest"].map String.toList)
      else none
  | _ => none

/-- Objects that are the module's own. -/
def isOpaque (key : Text) : Bool :=
  key = "metadata".toList ∨ key = "config".toList

/-- A warning for each field that is not known, by key and with what is below it; no object is known
four levels down. -/
def unknownFieldsFrom : Nat → List Text → List (Text × Json) → List Text
  | 0, _, _ => []
  | depth + 1, path, obj =>
      match knownFields path with
      | none => []
      | some known =>
          (sortedKeys (obj.map Prod.fst)).flatMap fun key =>
            if key ∉ known then
              ["unknown field ".toList ++ debug key ++ " is ignored by the runtime".toList]
            else if isOpaque key then []
            else
              match (obj.lookup key).bind asObject with
              | none => []
              | some child => unknownFieldsFrom depth (path ++ [key]) child

def unknownFields (obj : List (Text × Json)) : List Text :=
  unknownFieldsFrom 3 [] obj

/-- The Input of a step, with what is said of fields that nothing reads; what was replaced is refused
by name. -/
def decodeInput {ε γ μ : Type} (v : Validator ε γ μ) (raw : List (Text × Json)) :
    Except Text (Input Json × List Text) :=
  if "policy".toList ∈ raw.map Prod.fst then
    .error ("the Input's policy field was removed: fence a module.from source with " ++
      "compositionPolicy instead (Cedar pullModule and spendCredential rules)").toList
  else if "sandbox".toList ∈ raw.map Prod.fst then
    .error ("the Input's sandbox field was removed: a module requests capabilities through its " ++
      "manifest's requires, granted by the operator's --sandbox-policy-file and narrowed by the " ++
      "Input's compositionPolicy").toList
  else
    match v.decode raw with
    | .error e => .error ("cannot decode the Input: ".toList ++ e)
    | .ok input => .ok (input, unknownFields raw)

end Fields

/-! ## What is said of an Input -/

section Describe

variable [UnicodeTables]

/-- A source as the messages name it. -/
def describeSource (src : ModuleSource) : Text :=
  if src.fromField ≠ [] then
    "chosen by the composite resource from ".toList ++ src.fromField ++
      (if src.allowEmpty then " (allowEmpty)".toList else [])
  else
    match src.oci, src.http with
    | some oci, _ => "oci ".toList ++ oci.ref
    | none, some http => "http ".toList ++ http.url
    | none, none => "path ".toList ++ src.path

/-- The timeout that a text reads as. -/
def timeoutOf (b : Build) (t : Text) : Option Nat :=
  match Duration.parse debug b t with
  | .ok (.ok timeout) => some timeout
  | _ => none

/-- The number of bytes that a text reads as. -/
def memoryOf (b : Build) (t : Text) : Option Int :=
  match Quantity.parse debug b t with
  | .ok (.ok bytes) => some bytes
  | _ => none

variable {ε : Type} [Expressions ε Value]

def describeLimits (b : Build) (limits : Runner.Limits) (admitted : Runner.Admitted ε) : List Text :=
  ((limits.timeout.bind (timeoutOf b)).map fun t => "timeout ".toList ++ Duration.format t).toList ++
  (limits.memory.map fun mem => "memory ".toList ++ mem).toList ++
  (limits.concurrency.map fun _ => "concurrency ".toList ++ decimalText admitted.concurrency).toList

/-- What a step is admitted with. -/
def describeAdmitted (b : Build) (input : Input Json) (admitted : Runner.Admitted ε) : List Text :=
  (match input.limits with
  | none => []
  | some limits =>
      let parts := describeLimits b limits admitted
      if parts = [] then [] else ["limits ".toList ++ List.intercalate " ".toList parts]) ++
  (match admitted.composition with
  | none => []
  | some comp =>
      ["compositionPolicy".toList] ++
      (if comp.scopesAction actionComposeResource then ["composeResource".toList] else []) ++
      (if comp.scopesAction actionRequireResource then ["requireResource".toList] else []))

/-- What is accepted and unwise. -/
def unwise {γ μ : Type} (v : Validator ε γ μ) (input : Input Json) : List Text :=
  (if input.module.type = typePath then
    [("module.type Path names a file under the runtime's --module-dir and carries no digest; " ++
      "a cluster Composition should pin an OCI or HTTP source by digest").toList]
  else []) ++
  (match input.limits with
  | none => []
  | some limits =>
      (match limits.timeout.bind (timeoutOf v.build) with
      | none => []
      | some timeout =>
          if timeout = v.ceilings.timeout then
            ["limits.timeout ".toList ++ Duration.format timeout ++
              " equals --module-timeout: it narrows nothing".toList]
          else []) ++
      (match limits.memory with
      | none => []
      | some mem =>
          if memoryOf v.build mem = some (v.ceilings.memoryLimit : Int) then
            ["limits.memory ".toList ++ mem ++ " equals --module-memory-limit (".toList ++
              Quantity.formatBinarySi v.ceilings.memoryLimit ++ "): it narrows nothing".toList]
          else []))

end Describe

/-! ## The verdict -/

section Verdict

variable {ε γ μ : Type} [Expressions ε Value] [PolicyParser Value.str ε] [UnicodeTables]
variable [HttpLibrary] [DockerConfigLibrary]

/-- What stands of a step whose Input was admitted. -/
structure Considered (ε : Type) where
  result : StepResult
  input : Input Json
  admitted : Runner.Admitted ε
  source : ModuleSource

def cannotResolve (e : Text) : Status := .refused ("cannot resolve module: ".toList ++ e)

/-- The source of a step: read from the composite resource where one is given; without one, or where
the composite resource leaves it unset, the verdict is said already. -/
def considerSource (v : Validator ε γ μ) (r : StepResult) (input : Input Json)
    (admitted : Runner.Admitted ε) : Except StepResult (Considered ε) :=
  let considered (module : Text) (source : ModuleSource) : Considered ε :=
    { result := ({ r with module := module }).warn (unwise v input)
      input := input
      admitted := admitted
      source := source }
  if input.module.fromField = [] then
    .ok (considered (describeSource input.module) input.module)
  else
    match v.xr with
    | some xr =>
        match fromComposite v.describe input.module admitted.composition (some xr) with
        | .error e => .error (r.stop (cannotResolve e))
        | .ok none =>
            .error (({ r with
              module := "no module: ".toList ++ input.module.fromField ++
                " of the composite resource is unset (allowEmpty)".toList }).warn (unwise v input))
        | .ok (some concrete) =>
            .ok (considered
              (describeSource concrete ++ " (from ".toList ++ input.module.fromField ++ ")".toList)
              concrete)
    | none =>
        match validateFrom input.module admitted.composition with
        | .error e => .error (r.stop (cannotResolve e))
        | .ok () => .error (({ r with module := describeSource input.module }).warn (unwise v input))

/-- What is decided about an Input alone. -/
def consider (v : Validator ε γ μ) (s : Step) : Except StepResult (Considered ε) :=
  let r := StepResult.of s
  match decodeInput v s.input with
  | .error e => .error (r.stop (.refused e))
  | .ok (input, warnings) =>
      let r := r.warn warnings
      match (admitRequest v.build v.ceilings input : Checked (Except Text (Runner.Admitted ε))) with
      | .error _ => .error (r.stop .panicked)
      | .ok (.error e) => .error (r.stop (.refused e))
      | .ok (.ok admitted) =>
          considerSource v { r with details := describeAdmitted v.build input admitted } input
            admitted

/-- The credential that a source names to be pulled with. -/
def namedCredential (src : ModuleSource) : Text :=
  match src.oci with
  | some oci => if src.type = typeOci then oci.credentials else []
  | none => []

def unreadable (src : ModuleSource) : List Text :=
  if namedCredential src = [] then []
  else
    ["module.oci.credentials ".toList ++ debug (namedCredential src) ++
      (" is a step Secret this tool cannot read; the module is pulled with the local Docker " ++
        "config instead").toList]

def cannotVerify (resolved : Resolved) (e : Text) : Status :=
  .refused ("cannot verify module ".toList ++ resolved.description ++ e)

/-- Whether the module must be signed; what is not in a registry cannot be. -/
def requireSignature (v : Validator ε γ μ) (src : ModuleSource) : Except Status Bool :=
  let required := signatureRequired v.policy v.verifier.isSome src
  if required ∧ src.type ≠ typeOci then
    .error (cannotResolve (nonOciSignatureRefusal v.policy src))
  else .ok required

/-- A module that must be signed is verified, with the local config's credential. -/
def verifySignature (v : Validator ε γ μ) (src : ModuleSource) (required : Bool)
    (resolved : Resolved) : Except Status Unit :=
  if required then
    match v.verifier with
    | none =>
        .error (cannotVerify resolved
          (": the operator policy requires a cosign signature, but the runtime has neither " ++
            "--cosign-key nor --cosign-trusted-root to verify it").toList)
    | some verify =>
        match src.oci.map fun oci => parseOciReference oci.ref with
        | some (.ok reference) =>
            (verify reference (DockerConfig.pullAuth v.keychain reference.registry none)).mapError
              fun e => cannotVerify resolved (": ".toList ++ e)
        -- the source expects a validated reference
        | _ => .error .panicked
  else .ok ()

def cannotLoad (resolved : Resolved) (e : Text) : Status :=
  .refused ("cannot load module ".toList ++ resolved.description ++ ": ".toList ++ e)

/-- What a module's bytes are to the engine, when they are a module that it runs. -/
def readWorld (engine : WasmEngine γ μ) (resolved : Resolved) (wasm : Bytes) :
    Except Status Inspection :=
  match engine.inspect wasm with
  | .error e => .error (cannotLoad resolved e)
  | .ok inspection =>
      match inspection.abiError with
      | some e => .error (cannotLoad resolved e)
      | none => .ok inspection

/-- The module: settled whether it must be signed, then resolved, verified, fetched and read. -/
def locate (v : Validator ε γ μ) (modules : Modules) (engine : WasmEngine γ μ)
    (src : ModuleSource) : Except Status (Resolved × Bytes × Inspection) := do
  let required ← requireSignature v src
  let resolved ← (modules.resolve src).mapError cannotResolve
  verifySignature v src required resolved
  let wasm ← (modules.fetch resolved).mapError fun e =>
    cannotLoad resolved ("cannot fetch module: ".toList ++ e)
  let inspection ← readWorld engine resolved wasm
  return (resolved, wasm, inspection)

def moduleRefusal (resolved : Resolved) (e : Text) : Status :=
  .refused ("module ".toList ++ resolved.description ++ e)

/-- The manifest that some bytes are; without bytes there is none. -/
def parseManifest (resolved : Resolved) (raw : Bytes) : Except Status (Option ManifestDocument) :=
  if raw = [] then .ok none
  else
    match ManifestDocument.parse raw with
    | .error e => .error (moduleRefusal resolved (" has an invalid manifest: ".toList ++ e))
    | .ok m => .ok (some m)

def readManifest (modules : Modules) (resolved : Resolved) :
    Except Status (Option ManifestDocument) :=
  match modules.manifest resolved with
  | .error e =>
      .error (.refused ("cannot read the manifest of module ".toList ++ resolved.description ++
        ": ".toList ++ e))
  | .ok raw => parseManifest resolved raw

/-- The caller, where a composite resource is given. -/
def principalOf (v : Validator ε γ μ) : Principal :=
  match v.xr with
  | none => ⟨[], [], []⟩
  | some xr => principalFromComposite xr

/-- What a manifest requires, decided by the layers and held against what they grant. -/
def grant (v : Validator ε γ μ) (c : Considered ε) (resolved : Resolved) (m : ManifestDocument) :
    Except Status Capabilities := do
  let caps ← (admitRequires (m.requires.map DeclaredRequires.toRequires) (some v.egress) v.policy
    c.admitted.composition (principalOf v)).mapError fun e =>
      moduleRefusal resolved (" ".toList ++ e)
  (m.toManifest.check caps.grants c.input.config v.runtimeVersion).mapError fun e =>
    moduleRefusal resolved (" ".toList ++ e)
  return caps

def unverifiedEgress (v : Validator ε γ μ) (m : ManifestDocument) : List Text :=
  if m.requires.any (fun r => r.http ≠ []) ∧ v.verifierConfigured = false then
    [("the module requires egress but is not signature-verified: neither --cosign-key nor " ++
      "--cosign-trusted-root was given").toList]
  else []

/-- The changes that a manifest declares and a layer would refuse. -/
def composeWarnings (v : Validator ε γ μ) (c : Considered ε) (m : ManifestDocument) : List Text :=
  m.composes.flatMap fun declared =>
    match groupAndKind declared.kind with
    | none => []
    | some (group, kind) =>
        declared.changeKinds.filterMap fun change =>
          (Compose.composeRefusedBy
            { group := group
              kind := kind
              change := change
              name := []
              composite := false }
            (v.policy.map fun p => (Runner.OperatorPolicy.layer p).toPolicyLayer)
            (c.admitted.composition.map fun p => p.layer.toPolicyLayer) (principalOf v)).map
          fun layer =>
            "the module declares it composes ".toList ++ declared.kind ++ " (".toList ++
              change.asStr ++ "), which ".toList ++ layer.describe ++
              " does not permit (composeResource)".toList

/-- The resources that a manifest declares it requires and a layer would refuse. -/
def requireWarnings (v : Validator ε γ μ) (c : Considered ε) (m : ManifestDocument) : List Text :=
  (m.requires.elim [] DeclaredRequires.resources).flatMap fun declared =>
    match groupAndKind declared.kind with
    | none => []
    | some (group, kind) =>
        declared.matchKinds.filterMap fun matched =>
          (Require.requireRefusedBy
            { group := group
              kind := kind
              matched := if matched = "name".toList then .name [] else .labels []
              namespaceName := none
              field := "resources".toList
              key := [] }
            (v.policy.map Runner.OperatorPolicy.layer)
            (c.admitted.composition.map CompositionPolicy.layer) (principalOf v)).map
          fun layer =>
            "the module declares it requires ".toList ++ declared.kind ++ " (by ".toList ++ matched ++
              "), which ".toList ++ layer.describe ++ " does not permit (requireResource)".toList

/-- What is decided about a module, beside what is said of it. -/
def inspectModule (v : Validator ε γ μ) (modules : Modules) (engine : WasmEngine γ μ)
    (c : Considered ε) : StepResult :=
  let r := c.result.warn (unreadable c.source)
  match locate v modules engine c.source with
  | .error status => r.stop status
  | .ok (resolved, wasm, inspection) =>
      let read : ReadModule :=
        { digest := resolved.digest
          size := wasm.length
          imports := inspection.hostImports
          manifest := none }
      match readManifest modules resolved with
      | .error status => ({ r with resolved := some read }).stop status
      | .ok none => { r with resolved := some read }
      | .ok (some m) =>
          let r := ({ r with resolved := some { read with manifest := some m } }).warn
            (unverifiedEgress v m)
          match grant v c resolved m with
          | .error status => r.stop status
          | .ok caps =>
              let r := r.warn (composeWarnings v c m ++ requireWarnings v c m)
              match refusePullCredential caps.env caps.credentials (namedCredential c.source) with
              | .error e => r.stop (moduleRefusal resolved (": ".toList ++ e))
              | .ok () =>
                  { r with
                    credentials := sortedKeys
                      (caps.env.map (fun b => b.fromCredential.name) ++ caps.credentials) }

def validate (v : Validator ε γ μ) (s : Step) : StepResult :=
  match consider v s with
  | .error r => r
  | .ok c =>
      match v.resolver, v.engine with
      | some modules, some engine => inspectModule v modules engine c
      | _, _ => c.result

end Verdict
end Offline
end FunctionWasm

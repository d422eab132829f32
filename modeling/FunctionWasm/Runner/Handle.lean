import FunctionWasm.Foundation.Program
import FunctionWasm.Policy.Fences
import FunctionWasm.Registry.DockerConfig
import FunctionWasm.Require.Fence
import FunctionWasm.Runner.Admission
import FunctionWasm.Source.From
import FunctionWasm.Source.Resolver
import FunctionWasm.Validate.RoundTrip
import FunctionWasm.Validate.SandboxEnv
import FunctionWasm.Wire.Completion
import FunctionWasm.Wire.Noop
import FunctionWasm.Wire.Withhold

/-!
# Handle — the whole way of a request

A request is a program that asks its surroundings: the resolver, the verifier, the cache of modules
and the engine.  Between a question and its answer other requests go on, so nothing is said here of
what the answers are.

* `Ask` are the questions, `Answer` is how a request ends.
* `choose` settles what runs, before anything is asked; `serve` gets the module, `readManifest` its
  manifest, `prepare` decides what the run may do, `conclude` what becomes of its response.
* `handleRaw` puts them together.
-/

namespace FunctionWasm
namespace Runner

open Authz Cedar UnicodeTables
open Egress (HttpLibrary Ceiling Grant)
open SandboxEnv (Credentials Sources Environ stepEnv)
open Protobuf (signed64 signed32 signed64_range signed32_range)

/-! ## What is asked, and how a request ends -/

inductive Outcome where
  | refused
  | error
  deriving DecidableEq, Repr

/-- How a request ends: with a status of the server, a fatal result, the request's own desired
state, or the bytes of the module; or the handler panics. -/
inductive Answer where
  | status (message : Text)
  | fatal (outcome : Outcome) (reason : Text)
  | skipped (rsp : Bytes)
  | relayed (rsp : Bytes)
  | panicked
  deriving DecidableEq

/-- A resolved module and the credential that reads its registry. -/
structure Target where
  resolved : Resolved
  auth : Option Auth

structure RunOptions where
  timeout : Option Nat
  deadline : Option Nat
  memoryLimit : Option Nat
  privateTmp : Bool
  env : Environ
  http : Option Grant
  description : Text
  digest : Text

/-- A run, with the slot of its step that it waits for; zero concurrency is no slot. -/
structure Job (μ : Type) where
  module : μ
  request : Bytes
  opts : RunOptions
  concurrency : Nat
  wait : Nat

/-- What a request asks of what it shares with others; `μ` is a compiled module. -/
inductive Ask (μ : Type) where
  | resolve (src : ModuleSource) (auth : Option Auth)
  | keychain
  | verify (reference : OciReference) (auth : Option Auth)
  | load (target : Target)
  | cachedManifest (target : Target)
  | manifest (target : Target)
  | now
  | run (job : Job μ)

/-- The outer error of what runs off the executor is that it did not end. -/
@[reducible] def Ask.Ret {μ : Type} : Ask μ → Type
  | .resolve _ _ => Except Text (Except Text Target)
  | .keychain => Option Bytes
  | .verify _ _ => Except Text (Except Text Unit)
  | .load _ => Except Text μ
  | .cachedManifest _ => Option Bytes
  | .manifest _ => Except Text (Except Text Bytes)
  | .now => Nat
  | .run _ => Except Text (Except Text Bytes)

/-- A part of a request; what ends the request early is its error. -/
abbrev Part (μ α : Type) : Type := Program (Ask μ) Ask.Ret (Except Answer α)

/-- The next part, unless the request has ended. -/
def Part.andThen {μ α β : Type} (p : Part μ α) (next : α → Part μ β) : Part μ β :=
  p.bind fun
    | .error answer => .done (.error answer)
    | .ok a => next a

/-- What a part of a request comes to when the rest follows. -/
def finish {μ α : Type} (p : Part μ α) (rest : α → Program (Ask μ) Ask.Ret Answer) :
    Program (Ask μ) Ask.Ret Answer :=
  p.bind fun
    | .error answer => .done answer
    | .ok a => rest a

@[simp] theorem finish_ok {μ α : Type} (a : α) (rest : α → Program (Ask μ) Ask.Ret Answer) :
    finish (.done (.ok a)) rest = rest a := rfl

@[simp] theorem finish_error {μ α : Type} (answer : Answer)
    (rest : α → Program (Ask μ) Ask.Ret Answer) :
    finish (.done (.error answer)) rest = .done answer := rfl

/-! ## What the handler has -/

/-- How the SDK reads the messages. -/
structure Sdk (P : Prost) (J B : Type) where
  decodeError : Bytes → Text
  getInput : Option (P.Value .struct) → Except Text (Input J)
  metas : MetaReader P
  /-- The resource of a state's composite. -/
  composite : P.Value .state → Option Json
  credentials : P.Value .credentials → Credentials
  state : P.Value .state → Compose.State B
  response : RunFunctionResponse P → Require.Response B

/-- `WasmFunction`, but what it shares with other requests. -/
structure WasmFunction (ε J B : Type) (P : Prost) where
  build : Build
  sdk : Sdk P J B
  engine : Engine.Config
  ttl : StdDuration
  policy : Option (OperatorPolicy ε)
  egress : Ceiling
  verifier : Bool
  runtimeVersion : Text
  describe : DecodeError → Text

/-- What is settled before anything is asked. -/
structure Asked (ε J : Type) (P : Prost) where
  req : RunFunctionRequest P
  input : Input J
  admitted : Admitted ε
  source : ModuleSource
  signatureRequired : Bool
  pullCredential : Text
  auth : Option Auth

section Layer

variable {ε : Type} [Expressions ε Value]

/-- The operator's policy, as the fences see it. -/
def OperatorPolicy.layer (p : OperatorPolicy ε) : Require.PolicyLayer Principal where
  scopesComposeResource := p.scopesAction actionComposeResource
  permitsCompose := permitsComposeBy p.policy
  scopesRequireResource := p.scopesAction actionRequireResource
  permitsRequire := permitsRequireBy p.policy

end Layer

def refused (reason : Text) : Answer := .fatal .refused reason

def internalError (e : Text) : Answer :=
  .fatal .error ("internal error while running the module: ".toList ++ e)

def cannotResolve (e : Text) : Answer := refused ("cannot resolve module: ".toList ++ e)

section Handler

variable {ε B μ : Type} {P : Prost}
variable [Expressions ε Value] [PolicyParser Value.str ε] [UnicodeTables] [HttpLibrary]
variable [DocumentLibrary] [DockerConfigLibrary] [Compose.StructBody B]

/-! ## What runs -/

/-- The composite resource of a request, where the source reads one. -/
def compositeOf {J : Type} (sdk : Sdk P J B) (req : RunFunctionRequest P) : Option Json :=
  req.observed.bind sdk.composite

/-- The caller as the policies see it; without a composite resource it has no kind. -/
def principalFrom {J : Type} (sdk : Sdk P J B) (req : RunFunctionRequest P) : Principal :=
  match compositeOf sdk req with
  | none => ⟨[], [], []⟩
  | some composite => principalFromComposite composite

variable {J : Type}

/-- `response_meta` -/
def responseMeta (f : WasmFunction ε J B P) (tag : HeldText) : ResponseMeta where
  tag := tag.text
  ttl := some
    { seconds := signed64 f.ttl.secs
      nanos := signed32 f.ttl.nanos
      seconds_fits := signed64_range _
      nanos_fits := signed32_range _ }

/-- The no-op of a step for which no module was chosen. -/
def skip (f : WasmFunction ε J B P) (raw : Bytes) (tag : HeldText) : Answer :=
  match ProtoWire.noopResponse f.build raw (responseMeta f tag).encode with
  | .ok rsp => .skipped rsp
  | .error _ => .panicked

def decodeRequest (f : WasmFunction ε J B P) (raw : Bytes) :
    Except Answer (RunFunctionRequest P) :=
  orError (.status ("cannot decode the request: ".toList ++ f.sdk.decodeError raw))
    (RunFunctionRequest.decode P raw)

def readInput (f : WasmFunction ε J B P) (req : RunFunctionRequest P) : Except Answer (Input J) :=
  (f.sdk.getInput req.input).mapError fun e =>
    refused ("cannot get function input from *v1.RunFunctionRequest: ".toList ++ e)

def admitInput (f : WasmFunction ε J B P) (input : Input J) : Except Answer (Admitted ε) :=
  match (admitRequest f.build f.engine input : Checked (Except Text (Admitted ε))) with
  | .error _ => .error .panicked
  | .ok (.error e) => .error (refused e)
  | .ok (.ok admitted) => .ok admitted

/-- The source that runs; where there is none the request is over. -/
def chooseSource (f : WasmFunction ε J B P) (raw : Bytes) (req : RunFunctionRequest P)
    (input : Input J) (admitted : Admitted ε) : Except Answer ModuleSource :=
  let composite := if input.module.fromField = [] then none else compositeOf f.sdk req
  match fromComposite f.describe input.module admitted.composition composite with
  | .error e => .error (cannotResolve e)
  | .ok none => .error (skip f raw (f.sdk.metas.requestTag req))
  | .ok (some source) => .ok source

/-- Whether the module must be signed; what is not in a registry cannot be. -/
def requireSignature (f : WasmFunction ε J B P) (source : ModuleSource) : Except Answer Bool :=
  let required := signatureRequired f.policy f.verifier source
  if required ∧ source.type ≠ typeOci then
    .error (cannotResolve (nonOciSignatureRefusal f.policy source))
  else .ok required

/-- The data of a step's credential. -/
def credentialData (f : WasmFunction ε J B P) (req : RunFunctionRequest P) (name : Text) :
    Option (EntryMap Text Bytes) :=
  (req.credentials.lookup name).bind fun c => (f.sdk.credentials c).source

/-- The name of the credential that pulls the module, and what it says; none is the empty name. -/
def pullCredential (f : WasmFunction ε J B P) (req : RunFunctionRequest P)
    (source : ModuleSource) : Except Answer (Text × Option Auth) :=
  match source.oci with
  | none => .ok ([], none)
  | some oci =>
      if source.type = typeOci ∧ oci.credentials ≠ [] then
        match credentialData f req oci.credentials with
        | none =>
            .error (refused ("cannot get credentials ".toList ++ debug oci.credentials ++
              " for module.oci: the request carries no such credential".toList))
        | some data =>
            let registry :=
              match parseOciReference oci.ref with
              | .ok reference => reference.registry
              | .error _ => []
            match DockerConfig.authFor debug registry data with
            | .ok auth => .ok (oci.credentials, some auth)
            | .error e =>
                .error (refused ("cannot use credentials ".toList ++ debug oci.credentials ++
                  " for module.oci: ".toList ++ e))
      else .ok ([], none)

def choose (f : WasmFunction ε J B P) (raw : Bytes) : Except Answer (Asked ε J P) := do
  let req ← decodeRequest f raw
  let input ← readInput f req
  let admitted ← admitInput f input
  let source ← chooseSource f raw req input admitted
  let required ← requireSignature f source
  let (name, auth) ← pullCredential f req source
  return {
    req := req
    input := input
    admitted := admitted
    source := source
    signatureRequired := required
    pullCredential := name
    auth := auth }

/-! ## The module -/

def cannotVerify (target : Target) (e : Text) : Answer :=
  refused ("cannot verify module ".toList ++ target.resolved.description ++ e)

/-- The verification of a module, with the credential that its registry is read with. -/
def verifyWith (asked : Asked ε J P) (target : Target) (reference : OciReference)
    (config : Option Bytes) : Part μ Unit :=
  .ask (.verify reference (DockerConfig.pullAuth config reference.registry asked.auth)) fun
    | .error e => .done (.error (internalError e))
    | .ok (.error e) => .done (.error (cannotVerify target (": ".toList ++ e)))
    | .ok (.ok ()) => .done (.ok ())

/-- The verification where the module must be signed; the local config is read where the step has no
credential. -/
def verifySignature (f : WasmFunction ε J B P) (asked : Asked ε J P) (target : Target) :
    Part μ Unit :=
  if asked.signatureRequired then
    if f.verifier then
      match asked.source.oci.map fun oci => parseOciReference oci.ref with
      | some (.ok reference) =>
          match asked.auth with
          | some _ => verifyWith asked target reference none
          | none => .ask .keychain fun config => verifyWith asked target reference config
      -- the source expects a validated reference
      | _ => .done (.error .panicked)
    else
      .done (.error (cannotVerify target
        (": the operator policy requires a cosign signature, but the runtime has neither " ++
          "--cosign-key nor --cosign-trusted-root to verify it").toList))
  else .done (.ok ())

def resolveTarget (asked : Asked ε J P) : Part μ Target :=
  .ask (.resolve asked.source asked.auth) fun
    | .error e => .done (.error (internalError e))
    | .ok (.error e) => .done (.error (cannotResolve e))
    | .ok (.ok target) => .done (.ok target)

def loadModule (target : Target) : Part μ μ :=
  .ask (.load target) fun
    | .error e =>
        .done (.error (.fatal .error ("cannot load module ".toList ++ target.resolved.description ++
          ": ".toList ++ e)))
    | .ok m => .done (.ok m)

/-- The resolved module, compiled: verified before any cache is asked. -/
def serve (f : WasmFunction ε J B P) (asked : Asked ε J P) : Part μ (Target × μ) :=
  (resolveTarget asked).andThen fun target =>
    (verifySignature f asked target).andThen fun _ =>
      (loadModule target).andThen fun m => .done (.ok (target, m))

/-! ## The manifest -/

def moduleRefusal (target : Target) (e : Text) : Answer :=
  refused ("module ".toList ++ target.resolved.description ++ e)

/-- The manifest that some bytes are; without bytes there is none. -/
def parseManifest (target : Target) (raw : Bytes) : Except Answer (Option ManifestDocument) :=
  if raw = [] then .ok none
  else
    match ManifestDocument.parse raw with
    | .error e => .error (moduleRefusal target (" has an invalid manifest: ".toList ++ e))
    | .ok m => .ok (some m)

/-- The manifest: what is remembered of it, else what is read. -/
def readManifest (target : Target) : Part μ (Option ManifestDocument) :=
  .ask (.cachedManifest target) fun
    | some raw => .done (parseManifest target raw)
    | none =>
        .ask (.manifest target) fun
          | .error e => .done (.error (internalError e))
          | .ok (.error e) =>
              .done (.error (refused ("cannot read the manifest of module ".toList ++
                target.resolved.description ++ ": ".toList ++ e)))
          | .ok (.ok raw) => .done (parseManifest target raw)

/-! ## What the run may do -/

/-- What a run is given. -/
structure Prepared where
  caps : Capabilities
  env : Environ
  request : Bytes

def sourcesOf (f : WasmFunction ε J B P) (asked : Asked ε J P) : Sources where
  credentials := mapValues f.sdk.credentials asked.req.credentials
  withheld := asked.pullCredential

/-- The credentials that go to the guest when nothing withholds them. -/
def forwardedCredentials (caps : Capabilities) : Finset Text :=
  (caps.env.map (fun b => b.fromCredential.name) ++ caps.credentials).toFinset

def admitManifest (f : WasmFunction ε J B P) (asked : Asked ε J P) (target : Target)
    (manifest : Option ManifestDocument) : Except Answer Capabilities :=
  (admitRequires ((manifest.bind fun m => m.requires).map DeclaredRequires.toRequires) (some f.egress)
    f.policy asked.admitted.composition (principalFrom f.sdk asked.req)).mapError fun e =>
      moduleRefusal target (" ".toList ++ e)

def checkManifest (f : WasmFunction ε SchemaLibrary.Json B P)
    (asked : Asked ε SchemaLibrary.Json P) (target : Target) (manifest : Option ManifestDocument)
    (caps : Capabilities) : Except Answer Unit :=
  match manifest with
  | none => .ok ()
  | some m =>
      (m.toManifest.check caps.grants asked.input.config f.runtimeVersion).mapError fun e =>
        moduleRefusal target (" ".toList ++ e)

/-- The caller's bytes without the credentials that the module was not granted. -/
def withholdFrom (f : WasmFunction ε J B P) (asked : Asked ε J P) (raw : Bytes)
    (caps : Capabilities) : Except Answer Bytes :=
  match guestBytes f.build asked.pullCredential (forwardedCredentials caps) asked.req raw with
  | .error _ => .error .panicked
  | .ok (.error e) => .error (.fatal .error e)
  | .ok (.ok bytes) => .ok bytes

def prepare (f : WasmFunction ε SchemaLibrary.Json B P) (asked : Asked ε SchemaLibrary.Json P)
    (raw : Bytes) (target : Target) (manifest : Option ManifestDocument) :
    Except Answer Prepared := do
  let caps ← admitManifest f asked target manifest
  checkManifest f asked target manifest caps
  let env ← (stepEnv caps.env caps.credentials (sourcesOf f asked)).mapError fun e =>
    moduleRefusal target (": ".toList ++ e)
  let request ← withholdFrom f asked raw caps
  return { caps := caps, env := env, request := request }

/-! ## The run -/

def jobOf (f : WasmFunction ε J B P) (asked : Asked ε J P) (deadline : Option Nat)
    (target : Target) (m : μ) (prepared : Prepared) (now : Nat) : Job μ where
  module := m
  request := prepared.request
  opts :=
    { timeout := asked.admitted.timeout
      deadline := deadline
      memoryLimit := asked.admitted.memoryLimit
      privateTmp := prepared.caps.privateTmp
      env := prepared.env
      http := prepared.caps.grant
      description := target.resolved.description
      digest := target.resolved.digest }
  concurrency := asked.admitted.concurrency
  wait :=
    let wait := now + asked.admitted.timeout.getD f.engine.timeout
    match deadline with
    | none => wait
    | some d => if d < wait then d else wait

/-- What the fences and the completion of a run hold. -/
def stepOf (f : WasmFunction ε J B P) (asked : Asked ε J P) (target : Target) : Step P where
  description := target.resolved.description
  ttl := f.ttl
  decodeError := f.sdk.decodeError
  readFence got :=
    (Require.readFence (f.policy.map OperatorPolicy.layer)
      (asked.admitted.composition.map CompositionPolicy.layer) (principalFrom f.sdk asked.req)
      (f.sdk.response got)).mapError (Require.RequireError.message debug)
  outputFence got :=
    (Compose.outputFence (f.policy.map fun p => (OperatorPolicy.layer p).toPolicyLayer)
      (asked.admitted.composition.map fun p => p.layer.toPolicyLayer)
      (principalFrom f.sdk asked.req) (asked.req.observed.map f.sdk.state)
      (asked.req.desired.map f.sdk.state) (f.sdk.response got).desired
      (f.sdk.response got).results).mapError (Compose.ComposeError.message debug)

/-- What becomes of the module's response: it goes back, or it is no response, or it is refused. -/
def conclude (f : WasmFunction ε J B P) (asked : Asked ε J P) (target : Target) (out : Bytes) :
    Answer :=
  match (stepOf f asked target).answer (f.sdk.metas.requestTag asked.req) out with
  | .ok rsp => .relayed rsp
  | .error reason =>
      .fatal (if (RunFunctionResponse.decode P out).isNone then .error else .refused) reason

def execute (f : WasmFunction ε J B P) (asked : Asked ε J P) (deadline : Option Nat)
    (target : Target) (m : μ) (prepared : Prepared) : Program (Ask μ) Ask.Ret Answer :=
  .ask .now fun now =>
    .ask (.run (jobOf f asked deadline target m prepared now)) fun
      | .error e => .done (internalError e)
      | .ok (.error e) =>
          .done (.fatal .error ("module ".toList ++ target.resolved.description ++
            " failed: ".toList ++ e))
      | .ok (.ok out) => .done (conclude f asked target out)

/-- A request from its bytes to its end. -/
def handleRaw (f : WasmFunction ε SchemaLibrary.Json B P) (raw : Bytes) (deadline : Option Nat) :
    Program (Ask μ) Ask.Ret Answer :=
  finish (.done (choose f raw)) fun asked =>
  finish (serve f asked) fun (target, m) =>
  finish (readManifest target) fun manifest =>
  finish (.done (prepare f asked raw target manifest)) fun prepared =>
  execute f asked deadline target m prepared

end Handler
end Runner
end FunctionWasm

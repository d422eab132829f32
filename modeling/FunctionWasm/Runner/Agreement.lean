import FunctionWasm.Runner.Mediation
import FunctionWasm.Runner.Offline

/-!
# Agreement — what the verdict without a request says of requests

The verdict is the runtime's own: configured alike, and with the same answers about modules, a
request ends without a run with the very message that its step was refused with.

* `Configured` is a validator with the runtime's configuration, `Steady` are answers that are those
  of the validator.
* `considered` compares what is decided about an Input, `serve_located`, `readManifest_read` and
  `prepare_granted` what is decided about its module.
* `verdict_holds`: a run is asked for only when the verdict lets it, and a request that ends without
  one ends as the verdict says, or for want of a credential.
-/

namespace FunctionWasm
namespace Offline

open Authz Cedar UnicodeTables Program Protobuf Runner
open Egress (HttpLibrary)
open SandboxEnv (Sources stepEnv refusePullCredential pullSourceRefusal checkCredentials)

/-! ## Admission under other bounds on the number of runs -/

section Admit

variable {ε J : Type} [Expressions ε Value] [UnicodeTables] [PolicyParser Value.str ε]
variable {b : Build} {ceilings ceilings' : Engine.Config}

/-- What is admitted, but for the number of runs at once. -/
def Runs (x y : Checked (Except Text (Runner.Admitted ε))) : Prop :=
  (x.map fun r => r.map fun a => { a with concurrency := 0 }) =
    y.map fun r => r.map fun a => { a with concurrency := 0 }

omit [Expressions ε Value] [UnicodeTables] [PolicyParser Value.str ε] in
theorem runs_unlessRefused {α β : Type} {x : Checked (Except Text α)} {y : Checked (Except Text β)}
    {f : α → Checked (Except Text (Runner.Admitted ε))}
    {g : β → Checked (Except Text (Runner.Admitted ε))} (R : α → β → Prop)
    (hxy : (∃ fault, x = .error fault ∧ y = .error fault) ∨
      (∃ e, x = .ok (.error e) ∧ y = .ok (.error e)) ∨
        ∃ a b, x = .ok (.ok a) ∧ y = .ok (.ok b) ∧ R a b)
    (h : ∀ a b, R a b → Runs (f a) (g b)) : Runs (unlessRefused x f) (unlessRefused y g) := by
  rcases hxy with ⟨fault, rfl, rfl⟩ | ⟨e, rfl, rfl⟩ | ⟨a, b, rfl, rfl, hab⟩
  · rfl
  · rfl
  · exact h a b hab

omit [Expressions ε Value] [UnicodeTables] [PolicyParser Value.str ε] in
/-- One answer is itself. -/
theorem same_answer {α : Type} (x : Checked (Except Text α)) :
    (∃ fault, x = .error fault ∧ x = .error fault) ∨
      (∃ e, x = .ok (.error e) ∧ x = .ok (.error e)) ∨
        ∃ a b, x = .ok (.ok a) ∧ x = .ok (.ok b) ∧ a = b := by
  rcases x with fault | e | a
  · exact Or.inl ⟨fault, rfl, rfl⟩
  · exact Or.inr (Or.inl ⟨e, rfl, rfl⟩)
  · exact Or.inr (Or.inr ⟨a, a, rfl, rfl, rfl⟩)

omit [Expressions ε Value] [UnicodeTables] [PolicyParser Value.str ε] in
theorem Runs.cases {x y : Checked (Except Text (Runner.Admitted ε))} (h : Runs x y) :
    (∃ fault, x = .error fault ∧ y = .error fault) ∨
      (∃ e, x = .ok (.error e) ∧ y = .ok (.error e)) ∨
        ∃ a b, x = .ok (.ok a) ∧ y = .ok (.ok b) ∧
          ({ a with concurrency := 0 } : Runner.Admitted ε) = { b with concurrency := 0 } := by
  rcases x with fault | e | a
  · rcases y with fault' | e' | a'
    · cases h
      exact Or.inl ⟨fault, rfl, rfl⟩
    · cases h
    · cases h
  · rcases y with fault' | e' | a'
    · cases h
    · cases h
      exact Or.inr (Or.inl ⟨e, rfl, rfl⟩)
    · cases h
  · rcases y with fault' | e' | a'
    · cases h
    · cases h
    · exact Or.inr (Or.inr ⟨a, a', rfl, rfl, Except.ok.inj (Except.ok.inj h)⟩)

/-- No limit but the number of runs depends on how many there may be. -/
theorem admit_runs (htimeout : ceilings'.timeout = ceilings.timeout)
    (hmemory : ceilings'.memoryLimit = ceilings.memoryLimit) (input : Input J) :
    Runs (ε := ε) (admitRequest b ceilings' input) (admitRequest b ceilings input) := by
  have htime : holdTimeout ceilings' = holdTimeout ceilings := by
    funext t parsed
    unfold holdTimeout
    rw [htimeout]
  have hbytes : holdMemory ceilings' = holdMemory ceilings := by
    funext t parsed
    unfold holdMemory
    rw [hmemory]
  have hlimits : Runs (ε := ε) (runOptions b ceilings' input.limits)
      (runOptions b ceilings input.limits) := by
    cases input.limits with
    | none => rfl
    | some limits =>
        refine runs_unlessRefused (fun _ _ => True) ?_ fun _ _ _ => ?_
        · -- whether there may be so many runs is not asked of the ceilings
          cases limits.concurrency with
          | none => exact Or.inr (Or.inr ⟨0, 0, rfl, rfl, trivial⟩)
          | some n =>
              unfold admitConcurrency
              by_cases hn : n ≤ 0
              · simp only [hn, if_true]
                exact Or.inr (Or.inl ⟨_, rfl, rfl⟩)
              · simp only [hn, if_false]
                refine Or.inr (Or.inr ⟨_, _, congrArg _ (apply_ite _ _ _ _).symm,
                  congrArg _ (apply_ite _ _ _ _).symm, trivial⟩)
        · rw [htime, hbytes]
          refine runs_unlessRefused _ (same_answer _) ?_
          rintro timeout _ rfl
          refine runs_unlessRefused _ (same_answer _) ?_
          rintro memoryLimit _ rfl
          rfl
  unfold admitRequest
  split
  · rfl
  refine runs_unlessRefused _ (same_answer _) ?_
  rintro composition _ rfl
  refine runs_unlessRefused _ hlimits.cases fun a a' ha => ?_
  refine runs_unlessRefused _ (same_answer _) ?_
  rintro - - -
  rcases a with ⟨_, _, _, _⟩
  rcases a' with ⟨_, _, _, _⟩
  cases ha
  rfl

end Admit

/-! ## One configuration, and the same answers -/

section Agree

variable {ε B γ μ : Type} {P : Prost}
variable [Expressions ε Value] [PolicyParser Value.str ε] [UnicodeTables] [HttpLibrary]
variable [DocumentLibrary] [DockerConfigLibrary] [Compose.StructBody B]

/-- The validator has the configuration of the runtime, the number of runs at once apart, and the
composite resource of the request. -/
structure Configured (v : Validator ε γ μ) (f : WasmFunction ε Json B P)
    (req : RunFunctionRequest P) : Prop where
  build : v.build = f.build
  timeout : v.ceilings.timeout = f.engine.timeout
  memoryLimit : v.ceilings.memoryLimit = f.engine.memoryLimit
  describe : v.describe = f.describe
  policy : v.policy = f.policy
  egress : v.egress = f.egress
  verifier : v.verifier.isSome = f.verifier
  runtimeVersion : v.runtimeVersion = f.runtimeVersion
  composite : ∃ xr, v.xr = some xr ∧ compositeOf f.sdk req = some xr

/-- A module that is fetched and compiled. -/
def loadOf (modules : Modules) (engine : WasmEngine γ μ) (resolved : Resolved) : Except Text μ := do
  let wasm ← (modules.fetch resolved).mapError fun e => "cannot fetch module: ".toList ++ e
  engine.compile wasm

/-- The answers that the validator gets, whichever credential a request has for them. -/
def Steady (v : Validator ε γ μ) (modules : Modules) (engine : WasmEngine γ μ) :
    Program.Event (Ask μ) Ask.Ret → Prop
  | ⟨.resolve src _, r⟩ =>
      ∃ answer, r = .ok answer ∧ answer.map Target.resolved = modules.resolve src
  | ⟨.keychain, _⟩ => True
  | ⟨.verify reference _, r⟩ => ∀ verify, v.verifier = some verify →
      r = .ok (verify reference (DockerConfig.pullAuth v.keychain reference.registry none))
  | ⟨.load target, r⟩ => r = loadOf modules engine target.resolved
  | ⟨.cachedManifest target, r⟩ =>
      ∀ raw, r = some raw → modules.manifest target.resolved = .ok raw
  | ⟨.manifest target, r⟩ => r = .ok (modules.manifest target.resolved)
  | ⟨.now, _⟩ => True
  | ⟨.run _, _⟩ => True

/-- A request ends as a verdict says. -/
def EndsAs : Status → Runner.Answer → Prop
  | .ok, _ => False
  | .refused message, answer => ∃ outcome, answer = .fatal outcome message
  | .panicked, answer => answer = .panicked

/-- How a request ends without a run, by the verdict on its step: as the verdict says, with nothing to
run, or for want of a credential that the manifest requires. -/
inductive Concludes (f : WasmFunction ε Json B P) (req : RunFunctionRequest P) (r : StepResult) :
    Runner.Answer → Prop
  | stopped {answer : Runner.Answer} : EndsAs r.status answer → Concludes f req r answer
  | skipped (rsp : Bytes) : r.status = .ok → r.resolved = none → Concludes f req r (.skipped rsp)
  | credentials {read : ReadModule} {m : ManifestDocument} {pull description e : Text} :
      r.resolved = some read → read.manifest = some m →
        stepEnv (requiresOf (some m)).env (requiresOf (some m)).credentials
          ⟨mapValues f.sdk.credentials req.credentials, pull⟩ = .error e →
          Concludes f req r
            (.fatal .refused ("module ".toList ++ description ++ (": ".toList ++ e)))
  | groups : Concludes f req r (.fatal .error cannotWithhold)

/-! ## The Input -/

section Input

variable {v : Validator ε γ μ} {f : WasmFunction ε Json B P} {req : RunFunctionRequest P}
variable {raw : Buffer} {s : Step} {input : Input Json} {warnings : List Text}

/-- What is settled at the start of a request, after what is decided about its Input. -/
def signAndPull (f : WasmFunction ε Json B P) (req : RunFunctionRequest P)
    (input : Input Json) (admitted : Runner.Admitted ε) (source : ModuleSource) :
    Except Runner.Answer (Asked ε Json P) := do
  let required ← Runner.requireSignature f source
  let (name, auth) ← pullCredential f req source
  return {
    req := req
    input := input
    admitted := admitted
    source := source
    signatureRequired := required
    pullCredential := name
    auth := auth }

omit [PolicyParser Value.str ε] [DockerConfigLibrary] [Compose.StructBody B] in
/-- The source of a step is the source of a request. -/
theorem considerSource_chosen (hconf : Configured v f req)
    (hraw : RunFunctionRequest.decode P raw.bytes = some req)
    {a a' : Runner.Admitted ε} (hcomp : a'.composition = a.composition)
    (hshape : validateSource input.module = .ok ()) {r : StepResult} (hok : r.status = .ok)
    (hnone : r.resolved = none) :
    (∃ r' answer, considerSource v r input a = .error r' ∧
        chooseSource f raw.bytes req input a' = .error answer ∧ Concludes f req r' answer) ∨
      ∃ c, considerSource v r input a = .ok c ∧ c.result.status = .ok ∧ c.input = input ∧
        c.admitted = a ∧ chooseSource f raw.bytes req input a' = .ok c.source := by
  rcases hconf.composite with ⟨xr, hxr, hcomposite⟩
  have hskip : ∀ tag, ∃ rsp, skip f raw.bytes tag = .skipped rsp := by
    intro tag
    rcases RunFunctionRequest.decode_eq_some.1 hraw with ⟨rs, hrs, -⟩
    unfold skip
    rw [noopResponse_of_records f.build raw _ hrs]
    exact ⟨_, rfl⟩
  unfold considerSource chooseSource
  dsimp only
  by_cases hfrom : input.module.fromField = []
  · have hstatic : ∀ describe, fromComposite describe input.module a'.composition none =
        .ok (some input.module) := by
      intro describe
      simp only [fromComposite, hshape, ok_bind, hfrom, if_true]
      rfl
    rw [if_pos hfrom, if_pos hfrom, hstatic]
    exact Or.inr ⟨_, rfl, hok, rfl, rfl, rfl⟩
  · rw [if_neg hfrom, if_neg hfrom, hxr, hcomposite, hconf.describe, hcomp]
    dsimp only
    cases fromComposite f.describe input.module a.composition (some xr) with
    | error e => exact Or.inl ⟨_, _, rfl, rfl, .stopped ⟨_, rfl⟩⟩
    | ok chosen =>
        cases chosen with
        | none =>
            rcases hskip (f.sdk.metas.requestTag req) with ⟨rsp, hrsp⟩
            exact Or.inl ⟨_, _, rfl, congrArg Except.error hrsp, .skipped rsp hok hnone⟩
        | some source => exact Or.inr ⟨_, rfl, hok, rfl, rfl, rfl⟩

omit [Compose.StructBody B] in
/-- What is decided about an Input is what a request that has it starts with. -/
theorem considered (hconf : Configured v f req)
    (hraw : RunFunctionRequest.decode P raw.bytes = some req)
    (hinput : f.sdk.getInput req.input = .ok input)
    (hdecode : decodeInput v s.input = .ok (input, warnings)) :
    (∃ r answer, consider v s = .error r ∧ choose f raw.bytes = .error answer ∧
        Concludes f req r answer) ∨
      ∃ c admitted, consider v s = .ok c ∧ c.result.status = .ok ∧ c.input = input ∧
        admitted.composition = c.admitted.composition ∧
        choose f raw.bytes = signAndPull f req input admitted c.source := by
  have hchoose : choose f raw.bytes =
      (admitInput f input >>= fun admitted =>
        chooseSource f raw.bytes req input admitted >>= fun source =>
          signAndPull f req input admitted source) := by
    unfold choose decodeRequest readInput
    rw [hraw]
    simp only [orError, ok_bind, hinput]
    rfl
  have hruns := admit_runs (ε := ε) (b := f.build) hconf.timeout hconf.memoryLimit input
  unfold consider
  rw [hdecode, hchoose]
  dsimp only
  rw [hconf.build]
  unfold admitInput
  rcases hruns.cases with ⟨fault, hx, hy⟩ | ⟨e, hx, hy⟩ | ⟨a, a', hx, hy, ha⟩
  · rw [hx, hy]
    exact Or.inl ⟨_, _, rfl, rfl, .stopped rfl⟩
  · rw [hx, hy]
    exact Or.inl ⟨_, _, rfl, rfl, .stopped ⟨_, rfl⟩⟩
  · rw [hx, hy]
    have hcomp : a'.composition = a.composition := by
      rcases a with ⟨_, _, _, _⟩
      rcases a' with ⟨_, _, _, _⟩
      cases ha
      rfl
    have hshape : validateSource input.module = .ok () := (admit_eq_ok_iff.1 hy).shape
    simp only [ok_bind]
    rcases considerSource_chosen hconf hraw hcomp hshape
        (r := { (StepResult.of s).warn warnings with
          details := describeAdmitted f.build input a }) rfl rfl with
      ⟨r, answer, hr, hanswer, hends⟩ | ⟨c, hc, hok, hinputs, hadmitted, hsource⟩
    · rw [hr, hanswer]
      exact Or.inl ⟨r, answer, rfl, rfl, hends⟩
    · rw [hc, hsource]
      exact Or.inr ⟨c, a', rfl, hok, hinputs, hadmitted ▸ hcomp, rfl⟩

end Input

/-! ## The module -/

section Module

variable {v : Validator ε γ μ} {f : WasmFunction ε Json B P} {req : RunFunctionRequest P}
variable {modules : Modules} {engine : WasmEngine γ μ} {asked : Asked ε Json P} {h : History μ}
variable {allowed : History μ → Ask μ → Prop}

omit [PolicyParser Value.str ε] [HttpLibrary] [DocumentLibrary] [DockerConfigLibrary]
  [Compose.StructBody B] in
theorem requireSignature_same (hconf : Configured v f req) (src : ModuleSource) :
    (∃ e, requireSignature v src = .error (cannotResolve e) ∧
        Runner.requireSignature f src = .error (Runner.cannotResolve e)) ∨
      ∃ required, requireSignature v src = .ok required ∧
        Runner.requireSignature f src = .ok required := by
  unfold requireSignature Runner.requireSignature
  dsimp only
  rw [hconf.policy, hconf.verifier]
  split
  · exact Or.inl ⟨_, rfl, rfl⟩
  · exact Or.inr ⟨_, rfl, rfl⟩

/-- A part of a request that is decided as the validator decides it. -/
def Decides {α β : Type} (same : α → β → Prop) (x : Except Status α) (h : History μ) :
    Except Runner.Answer β → Prop
  | .error answer => NoRun h ∧ ∃ status, x = .error status ∧ EndsAs status answer
  | .ok b => NoRun h ∧ ∃ a, x = .ok a ∧ same a b

omit [Expressions ε Value] [PolicyParser Value.str ε] [UnicodeTables] [HttpLibrary]
  [DocumentLibrary] in
theorem resolveTarget_decides (hallowed : ∀ h op, (∀ job, op ≠ .run job) → allowed h op)
    (hrun : NoRun h) :
    Meets (Steady v modules engine) allowed
      (Decides (fun resolved target => resolved = target.resolved)
        ((modules.resolve asked.source).mapError cannotResolve))
      (resolveTarget asked) h := by
  refine ⟨hallowed _ _ fun _ => nofun, ?_⟩
  rintro r ⟨answer, rfl, hanswer⟩
  have hrun' : NoRun (h ++ [⟨.resolve asked.source asked.auth, .ok answer⟩]) :=
    hrun.snoc fun _ => nofun
  rw [← hanswer]
  cases answer with
  | error e => exact ⟨hrun', _, rfl, _, rfl⟩
  | ok target => exact ⟨hrun', _, rfl, rfl⟩

omit [Expressions ε Value] [PolicyParser Value.str ε] [UnicodeTables] [HttpLibrary]
  [DocumentLibrary] in
theorem verifyWith_decides (hallowed : ∀ h op, (∀ job, op ≠ .run job) → allowed h op)
    {verify : OciReference → Option Auth → Except Text Unit} (hverify : v.verifier = some verify)
    {target : Target} {reference : OciReference} {config : Option Bytes} (hrun : NoRun h) :
    Meets (Steady v modules engine) allowed
      (Decides (fun _ _ => True)
        ((verify reference (DockerConfig.pullAuth v.keychain reference.registry none)).mapError
          fun e => cannotVerify target.resolved (": ".toList ++ e)))
      (verifyWith asked target reference config) h := by
  refine ⟨hallowed _ _ fun _ => nofun, fun r hr => ?_⟩
  rw [hr verify hverify]
  have hrun' : ∀ r, NoRun (h ++ [⟨.verify reference
      (DockerConfig.pullAuth config reference.registry asked.auth), r⟩]) :=
    fun _ => hrun.snoc fun _ => nofun
  cases verify reference (DockerConfig.pullAuth v.keychain reference.registry none) with
  | error e => exact ⟨hrun' _, _, rfl, _, rfl⟩
  | ok _ => exact ⟨hrun' _, _, rfl, trivial⟩

omit [Compose.StructBody B] [Expressions ε Value] [PolicyParser Value.str ε] [HttpLibrary]
  [DocumentLibrary] in
theorem verifySignature_decides (hallowed : ∀ h op, (∀ job, op ≠ .run job) → allowed h op)
    (hconf : Configured v f req) {target : Target} (hrun : NoRun h) :
    Meets (Steady v modules engine) allowed
      (Decides (fun _ _ => True)
        (verifySignature v asked.source asked.signatureRequired target.resolved))
      (Runner.verifySignature f asked target) h := by
  unfold verifySignature Runner.verifySignature
  by_cases hrequired : asked.signatureRequired = true
  · rw [if_pos hrequired, if_pos hrequired, ← hconf.verifier]
    cases hverify : v.verifier with
    | none => exact ⟨hrun, _, rfl, _, rfl⟩
    | some verify =>
        rw [Option.isSome_some, if_pos rfl]
        cases asked.source.oci.map fun oci => parseOciReference oci.ref with
        | none => exact ⟨hrun, .panicked, rfl, rfl⟩
        | some parsed =>
            cases parsed with
            | error e => exact ⟨hrun, .panicked, rfl, rfl⟩
            | ok reference =>
                dsimp only
                split
                · exact verifyWith_decides hallowed hverify hrun
                · refine ⟨hallowed _ _ fun _ => nofun, fun config _ => ?_⟩
                  exact verifyWith_decides hallowed hverify (hrun.snoc fun _ => nofun)
  · rw [if_neg hrequired, if_neg hrequired]
    exact ⟨hrun, (), rfl, trivial⟩

/-- What the validator reads of a module that is fetched. -/
def fetchAndRead (modules : Modules) (engine : WasmEngine γ μ) (resolved : Resolved) :
    Except Status (Bytes × Inspection) := do
  let wasm ← (modules.fetch resolved).mapError fun e =>
    cannotLoad resolved ("cannot fetch module: ".toList ++ e)
  let inspection ← readWorld engine resolved wasm
  return (wasm, inspection)

omit [Expressions ε Value] [PolicyParser Value.str ε] [UnicodeTables] [HttpLibrary]
  [DocumentLibrary] in
/-- A module loads when the validator reads it, and fails in the same words. -/
theorem loadModule_decides (hallowed : ∀ h op, (∀ job, op ≠ .run job) → allowed h op)
    {target : Target} (hrun : NoRun h) :
    Meets (Steady v modules engine) allowed
      (Decides (fun _ _ => True) (fetchAndRead modules engine target.resolved))
      (loadModule target) h := by
  refine ⟨hallowed _ _ fun _ => nofun, ?_⟩
  rintro r ⟨⟩
  have hrun' : NoRun (h ++ [⟨.load target, loadOf modules engine target.resolved⟩]) :=
    hrun.snoc fun _ => nofun
  unfold loadOf at hrun' ⊢
  unfold fetchAndRead readWorld WasmEngine.inspect
  unfold WasmEngine.compile at hrun' ⊢
  cases hfetch : modules.fetch target.resolved with
  | error e =>
      rw [hfetch] at hrun'
      exact ⟨hrun', _, rfl, _, rfl⟩
  | ok wasm =>
      rw [hfetch] at hrun'
      simp only [Except.mapError, ok_bind] at hrun' ⊢
      cases hcompiled : engine.compiled wasm with
      | error e =>
          rw [hcompiled] at hrun'
          exact ⟨hrun', _, rfl, _, rfl⟩
      | ok c =>
          rw [hcompiled] at hrun'
          simp only [ok_bind] at hrun' ⊢
          cases hpre : engine.pre c with
          | error e =>
              rw [hpre] at hrun'
              exact ⟨hrun', _, rfl, _, rfl⟩
          | ok m =>
              rw [hpre] at hrun'
              exact ⟨hrun', _, rfl, trivial⟩

omit [Compose.StructBody B] [PolicyParser Value.str ε] [HttpLibrary] [DocumentLibrary] in
/-- The module of a request is the one that the validator locates. -/
theorem serve_located (hallowed : ∀ h op, (∀ job, op ≠ .run job) → allowed h op)
    (hconf : Configured v f req)
    (hrequired : requireSignature v asked.source = .ok asked.signatureRequired) (hrun : NoRun h) :
    Meets (Steady v modules engine) allowed
      (Decides (fun located served => located.1 = served.1.resolved)
        (locate v modules engine asked.source))
      (serve f asked) h := by
  unfold locate
  simp only [hrequired, ok_bind]
  refine meets_andThen ((resolveTarget_decides hallowed hrun).mono fun h r hr => ?_)
  rcases r with answer | target
  · rcases hr with ⟨hrun, status, hstatus, hends⟩
    rw [hstatus]
    exact ⟨hrun, status, rfl, hends⟩
  rcases hr with ⟨hrun, resolved, hresolved, rfl⟩
  rw [hresolved]
  simp only [ok_bind]
  refine meets_andThen ((verifySignature_decides hallowed hconf hrun).mono fun h r hr => ?_)
  rcases r with answer | ⟨⟩
  · rcases hr with ⟨hrun, status, hstatus, hends⟩
    rw [hstatus]
    exact ⟨hrun, status, rfl, hends⟩
  rcases hr with ⟨hrun, ⟨⟩, hverified, -⟩
  rw [hverified]
  simp only [ok_bind]
  refine meets_andThen ((loadModule_decides hallowed hrun).mono fun h r hr => ?_)
  rcases r with answer | m
  · rcases hr with ⟨hrun, status, hstatus, hends⟩
    refine ⟨hrun, status, ?_, hends⟩
    rcases bind_eq_error.1 hstatus with hfetch | ⟨wasm, hfetch, hstatus⟩
    · rw [hfetch]
      rfl
    · rw [hfetch]
      rcases bind_eq_error.1 hstatus with hworld | ⟨inspection, hworld, hstatus⟩
      · simp only [ok_bind, hworld]
        rfl
      · cases hstatus
  · rcases hr with ⟨hrun, ⟨wasm, inspection⟩, hread, -⟩
    rcases bind_eq_ok.1 hread with ⟨_, hfetch, hread⟩
    rcases bind_eq_ok.1 hread with ⟨_, hworld, hread⟩
    cases hread
    refine ⟨hrun, (target.resolved, wasm, inspection), ?_, rfl⟩
    simp only [hfetch, ok_bind, hworld]
    rfl

omit [Expressions ε Value] [PolicyParser Value.str ε] [UnicodeTables] in
/-- The manifest of a request is the one that the validator reads, remembered or not. -/
theorem readManifest_read (hallowed : ∀ h op, (∀ job, op ≠ .run job) → allowed h op)
    {target : Target} (hrun : NoRun h) :
    Meets (Steady v modules engine) allowed
      (Decides Eq (readManifest modules target.resolved)) (Runner.readManifest target) h := by
  have hparsed : ∀ {raw : Bytes} {h : History μ}, NoRun h → modules.manifest target.resolved = .ok raw →
      Decides Eq (readManifest modules target.resolved) h (Runner.parseManifest target raw) := by
    intro raw h hrun hraw
    unfold readManifest
    rw [hraw]
    dsimp only
    unfold parseManifest Runner.parseManifest
    by_cases hempty : raw = []
    · rw [if_pos hempty, if_pos hempty]
      exact ⟨hrun, none, rfl, rfl⟩
    · rw [if_neg hempty, if_neg hempty]
      cases ManifestDocument.parse raw with
      | error e => exact ⟨hrun, _, rfl, _, rfl⟩
      | ok m => exact ⟨hrun, some m, rfl, rfl⟩
  refine ⟨hallowed _ _ fun _ => nofun, fun cached hcached => ?_⟩
  cases cached with
  | some raw => exact hparsed (hrun.snoc fun _ => nofun) (hcached raw rfl)
  | none =>
      refine ⟨hallowed _ _ fun _ => nofun, ?_⟩
      rintro r ⟨⟩
      have hasked : NoRun (h ++ [⟨.cachedManifest target, none⟩]) := hrun.snoc fun _ => nofun
      have hrun' : ∀ r, NoRun (h ++ [⟨.cachedManifest target, none⟩] ++ [⟨.manifest target, r⟩]) :=
        fun _ => hasked.snoc fun _ => nofun
      cases hmanifest : modules.manifest target.resolved with
      | error e =>
          refine ⟨hrun' _, .refused _, ?_, _, rfl⟩
          unfold readManifest
          rw [hmanifest]
      | ok raw => exact hparsed (hrun' _) hmanifest

end Module

/-! ## The verdict -/

section Verdict

variable {v : Validator ε γ μ} {f : WasmFunction ε Json B P} {req : RunFunctionRequest P}
variable {modules : Modules} {engine : WasmEngine γ μ} {asked : Asked ε Json P}
variable {c : Considered ε} {resolved : Resolved} {wasm : Bytes} {inspection : Inspection}

omit [PolicyParser Value.str ε] in
theorem status_of_locate {status : Status} (h : locate v modules engine c.source = .error status) :
    (inspectModule v modules engine c).status = status := by
  unfold inspectModule
  rw [h]
  rfl

omit [PolicyParser Value.str ε] in
theorem status_of_readManifest {status : Status}
    (h : locate v modules engine c.source = .ok (resolved, wasm, inspection))
    (hmanifest : readManifest modules resolved = .error status) :
    (inspectModule v modules engine c).status = status := by
  unfold inspectModule
  rw [h]
  dsimp only
  rw [hmanifest]
  rfl

omit [PolicyParser Value.str ε] in
theorem status_of_none (h : locate v modules engine c.source = .ok (resolved, wasm, inspection))
    (hmanifest : readManifest modules resolved = .ok none) :
    (inspectModule v modules engine c).status = c.result.status ∧
      (inspectModule v modules engine c).resolved.isSome = true := by
  unfold inspectModule
  rw [h]
  dsimp only
  rw [hmanifest]
  exact ⟨rfl, rfl⟩

omit [PolicyParser Value.str ε] in
theorem status_of_grant {m : ManifestDocument} {status : Status}
    (h : locate v modules engine c.source = .ok (resolved, wasm, inspection))
    (hmanifest : readManifest modules resolved = .ok (some m))
    (hgrant : grant v c resolved m = .error status) :
    (inspectModule v modules engine c).status = status := by
  unfold inspectModule
  rw [h]
  dsimp only
  rw [hmanifest]
  dsimp only
  rw [hgrant]
  rfl

omit [PolicyParser Value.str ε] in
theorem status_of_granted {m : ManifestDocument} {caps : Capabilities}
    (h : locate v modules engine c.source = .ok (resolved, wasm, inspection))
    (hmanifest : readManifest modules resolved = .ok (some m))
    (hgrant : grant v c resolved m = .ok caps) :
    (∃ read, (inspectModule v modules engine c).resolved = some read ∧ read.manifest = some m) ∧
      (refusePullCredential caps.env caps.credentials (namedCredential c.source) = .ok () →
        (inspectModule v modules engine c).status = c.result.status) := by
  unfold inspectModule
  rw [h]
  dsimp only
  rw [hmanifest]
  dsimp only
  rw [hgrant]
  dsimp only
  cases refusePullCredential caps.env caps.credentials (namedCredential c.source) with
  | error e => exact ⟨⟨_, rfl, rfl⟩, fun hok => nomatch hok⟩
  | ok _ => exact ⟨⟨_, rfl, rfl⟩, fun _ => rfl⟩

omit [UnicodeTables] [DocumentLibrary] [DockerConfigLibrary] in
/-- What a run can be made of names nothing that pulls the module. -/
theorem refusePullCredential_of_stepEnv {bindings : List EnvBinding} {required : List Text}
    {src : Sources} {env : SandboxEnv.Environ} (h : stepEnv bindings required src = .ok env) :
    refusePullCredential bindings required src.withheld = .ok () := by
  rw [SandboxEnv.stepEnv_eq, bind_eq_ok] at h
  rcases h with ⟨env', hread, h⟩
  rcases check_bind_eq_ok.1 h with ⟨hchecked, -⟩
  rcases check_bind_eq_ok.1 hchecked with ⟨hrequired, -⟩
  have hbound := (SandboxEnv.materializeFrom_eq_ok.1 hread).1
  unfold refusePullCredential at hrequired ⊢
  by_cases hnone : src.withheld = []
  · rw [if_pos hnone]
  · rw [if_neg hnone] at hrequired ⊢
    refine check_bind_eq_ok.2 ⟨checkAll_eq_ok.2 ?_, (check_bind_eq_ok.1 hrequired).2⟩
    rintro ⟨b, i⟩ hmem
    rw [demand_eq_ok, decide_eq_true_eq]
    exact (hbound b (List.fst_mem_of_mem_zipIdx hmem)).1

omit [Expressions ε Value] [PolicyParser Value.str ε] [UnicodeTables] [HttpLibrary]
  [DocumentLibrary] [DockerConfigLibrary] [Compose.StructBody B] in
/-- A request that decodes loses no credential, or it cannot be edited. -/
theorem withholdFrom_error {raw : Buffer} {caps : Capabilities} {answer : Runner.Answer}
    (hraw : RunFunctionRequest.decode P raw.bytes = some asked.req)
    (h : withholdFrom f asked raw.bytes caps = .error answer) :
    answer = .fatal .error cannotWithhold := by
  rcases RunFunctionRequest.decode_eq_some.1 hraw with ⟨rs, hrs, hfold⟩
  have hguest := guestBytes_of_decode f.build asked.pullCredential (forwardedCredentials caps) raw
    hrs hfold
  unfold withholdFrom at h
  rw [hguest] at h
  by_cases hany : rs.any (withheldEntry P
      (forwards asked.pullCredential (forwardedCredentials caps))) = true
  · rw [if_pos hany] at h
    by_cases hless : groupless rs
    · rw [if_pos hless] at h
      cases h
    · rw [if_neg hless] at h
      cases h
      rfl
  · rw [if_neg hany] at h
    cases h

/-- What a request has of a step that was considered. -/
structure Matches (c : Considered ε) (req : RunFunctionRequest P) (asked : Asked ε Json P) :
    Prop where
  req : asked.req = req
  input : asked.input = c.input
  composition : asked.admitted.composition = c.admitted.composition
  source : asked.source = c.source
  pull : asked.pullCredential = namedCredential c.source

omit [UnicodeTables] [DockerConfigLibrary] in
theorem valid_of_readManifest {m : ManifestDocument}
    (h : readManifest modules resolved = .ok (some m)) : m.toManifest.validate = .ok () := by
  unfold readManifest at h
  cases hraw : modules.manifest resolved with
  | error e =>
      rw [hraw] at h
      cases h
  | ok raw =>
      rw [hraw] at h
      dsimp only at h
      unfold parseManifest at h
      by_cases hempty : raw = []
      · rw [if_pos hempty] at h
        cases h
      · rw [if_neg hempty] at h
        cases hparse : ManifestDocument.parse raw with
        | error e =>
            rw [hparse] at h
            cases h
        | ok d =>
            rw [hparse] at h
            cases h
            exact (ManifestDocument.parse_eq_ok_iff.1 hparse).2.1

omit [PolicyParser Value.str ε] [UnicodeTables] [DockerConfigLibrary] [Compose.StructBody B] in
/-- What a request may do is what the validator grants. -/
theorem grants_same (hconf : Configured v f req) (hmatch : Matches c req asked) (target : Target)
    (m : ManifestDocument) :
    (∃ status answer, grant v c target.resolved m = .error status ∧ EndsAs status answer ∧
        ∀ raw, prepare f asked raw target (some m) = .error answer) ∨
      ∃ caps, grant v c target.resolved m = .ok caps ∧
        Runner.admitManifest f asked target (some m) = .ok caps ∧
        ∀ raw, prepare f asked raw target (some m) =
          ((stepEnv caps.env caps.credentials (sourcesOf f asked)).mapError fun e =>
            Runner.moduleRefusal target (": ".toList ++ e)) >>= fun env =>
              withholdFrom f asked raw caps >>= fun request =>
                .ok { caps := caps, env := env, request := request } := by
  have hprincipal : principalFrom f.sdk asked.req = principalOf v := by
    rcases hconf.composite with ⟨xr, hxr, hcomposite⟩
    unfold principalFrom principalOf
    rw [hmatch.req, hcomposite, hxr]
  have hrequest : Runner.admitManifest f asked target (some m) =
      (admitRequires (m.requires.map DeclaredRequires.toRequires) (some v.egress) v.policy
        c.admitted.composition (principalOf v)).mapError fun e =>
          Runner.moduleRefusal target (" ".toList ++ e) := by
    unfold Runner.admitManifest
    rw [hprincipal, hmatch.composition, hconf.egress, hconf.policy]
    rfl
  unfold grant prepare
  rw [hrequest]
  cases hcaps : admitRequires (m.requires.map DeclaredRequires.toRequires) (some v.egress) v.policy
      c.admitted.composition (principalOf v) with
  | error e => exact Or.inl ⟨_, _, rfl, ⟨_, rfl⟩, fun _ => rfl⟩
  | ok caps =>
      simp only [Except.mapError, ok_bind]
      unfold checkManifest
      rw [hmatch.input, ← hconf.runtimeVersion]
      dsimp only
      cases m.toManifest.check caps.grants c.input.config v.runtimeVersion with
      | error e => exact Or.inl ⟨_, _, rfl, ⟨_, rfl⟩, fun _ => rfl⟩
      | ok _ => exact Or.inr ⟨caps, rfl, rfl, fun _ => rfl⟩

omit [PolicyParser Value.str ε] [Compose.StructBody B] in
/-- A request gets to its run, or it lacks a credential. -/
theorem prepare_granted (hconf : Configured v f req) (hmatch : Matches c req asked) {raw : Buffer}
    (hraw : RunFunctionRequest.decode P raw.bytes = some req) (hok : c.result.status = .ok)
    {target : Target}
    (hlocate : locate v modules engine c.source = .ok (target.resolved, wasm, inspection))
    {manifest : Option ManifestDocument}
    (hmanifest : readManifest modules target.resolved = .ok manifest) :
    (∀ answer, prepare f asked raw.bytes target manifest = .error answer →
        Concludes f req (inspectModule v modules engine c) answer) ∧
      ∀ prepared, prepare f asked raw.bytes target manifest = .ok prepared →
        (inspectModule v modules engine c).status = .ok ∧
          (inspectModule v modules engine c).resolved.isSome = true := by
  have hdecoded : RunFunctionRequest.decode P raw.bytes = some asked.req := hmatch.req ▸ hraw
  cases manifest with
  | none =>
      have hdone := status_of_none hlocate hmanifest
      refine ⟨fun answer h => ?_, fun _ _ => ⟨hdone.1.trans hok, hdone.2⟩⟩
      -- without a manifest nothing is asked of the credentials
      have henv : stepEnv [] [] (sourcesOf f asked) = .ok ∅ := by
        unfold stepEnv checkCredentials refusePullCredential
        by_cases hnone : (sourcesOf f asked).withheld = []
        · rw [if_pos hnone]
          rfl
        · rw [if_neg hnone]
          rfl
      have hprepare : prepare f asked raw.bytes target none =
          (stepEnv [] [] (sourcesOf f asked)).mapError (fun e =>
            Runner.moduleRefusal target (": ".toList ++ e)) >>= fun env =>
              withholdFrom f asked raw.bytes .default >>= fun request =>
                .ok { caps := .default, env := env, request := request } := rfl
      rw [hprepare, henv] at h
      rcases bind_eq_error.1 h with hmade | ⟨_, -, h⟩
      · cases hmade
      rcases bind_eq_error.1 h with hwithheld | ⟨_, -, h⟩
      · rw [withholdFrom_error hdecoded hwithheld]
        exact .groups
      · cases h
  | some m =>
      rcases grants_same hconf hmatch target m with
        ⟨status, answer', hgrant, hends, hprepare⟩ | ⟨caps, hgrant, hrequest, hprepare⟩
      · have hstatus := status_of_grant hlocate hmanifest hgrant
        rw [hprepare]
        refine ⟨?_, fun _ h => nomatch h⟩
        rintro _ ⟨⟩
        exact .stopped (hstatus ▸ hends)
      · rcases status_of_granted hlocate hmanifest hgrant with ⟨⟨read, hread, hdoc⟩, hstatus⟩
        rw [hprepare]
        have hvalid : ∀ d, some m = some d → d.toManifest.validate = .ok () := by
          rintro _ ⟨⟩
          exact valid_of_readManifest hmanifest
        have hexact := ((admitManifest_eq_ok hvalid).1 hrequest).2
        cases henv : stepEnv caps.env caps.credentials (sourcesOf f asked) with
        | error e =>
            refine ⟨?_, fun _ h => nomatch h⟩
            rintro _ ⟨⟩
            have hwant : stepEnv (requiresOf (some m)).env (requiresOf (some m)).credentials
                ⟨mapValues f.sdk.credentials req.credentials, asked.pullCredential⟩ = .error e := by
              rw [← hmatch.req]
              subst hexact
              exact henv
            exact .credentials hread hdoc hwant
        | ok env =>
            have hpull := refusePullCredential_of_stepEnv henv
            have hspent : (sourcesOf f asked).withheld = namedCredential c.source := hmatch.pull
            rw [hspent] at hpull
            simp only [Except.mapError, ok_bind]
            refine ⟨fun answer h => ?_, fun _ _ => ⟨(hstatus hpull).trans hok, ?_⟩⟩
            · rcases bind_eq_error.1 h with hwithheld | ⟨request, -, h⟩
              · rw [withholdFrom_error hdecoded hwithheld]
                exact .groups
              · cases h
            · rw [hread]
              rfl

/-- What may be asked under a verdict. -/
def MayAsk (r : StepResult) (_ : History μ) (op : Ask μ) : Prop :=
  ∀ job, op = .run job → r.status = .ok ∧ r.resolved.isSome = true

/-- How a request may end under a verdict. -/
def MayEnd (f : WasmFunction ε Json B P) (req : RunFunctionRequest P) (r : StepResult)
    (h : History μ) (answer : Runner.Answer) : Prop :=
  NoRun h → Concludes f req r answer

omit [PolicyParser Value.str ε] in
theorem execute_mayEnd {r : StepResult} {deadline : Option Nat} {target : Target} {m : μ}
    {prepared : Prepared} {h : History μ} (hok : r.status = .ok ∧ r.resolved.isSome = true) :
    Meets (Steady v modules engine) (MayAsk r) (MayEnd f req r)
      (execute f asked deadline target m prepared) h := by
  refine ⟨fun _ h => (nomatch h), fun now _ => ⟨fun _ _ => hok, fun answer _ => ?_⟩⟩
  -- the run has been asked for
  have hasked : ∀ {h : History μ} {job : Job μ} {r'}, ¬ NoRun (h ++ [⟨.run job, r'⟩]) :=
    fun hno => hno _ _ (List.mem_append_right _ (List.mem_singleton_self _))
  rcases answer with e | e | out
  · exact fun hno => absurd hno hasked
  · exact fun hno => absurd hno hasked
  · exact fun hno => absurd hno hasked

theorem handleRaw_verdict (hconf : Configured v f req) {raw : Buffer} {s : Step}
    {input : Input Json} {warnings : List Text}
    (hraw : RunFunctionRequest.decode P raw.bytes = some req)
    (hinput : f.sdk.getInput req.input = .ok input)
    (hdecode : decodeInput v s.input = .ok (input, warnings))
    (hmodules : v.resolver = some modules) (hengine : v.engine = some engine)
    (hpull : ∀ c, consider v s = .ok c →
      ∃ auth, pullCredential f req c.source = .ok (namedCredential c.source, auth))
    (deadline : Option Nat) :
    Meets (Steady v modules engine) (MayAsk (validate v s)) (MayEnd f req (validate v s))
      (handleRaw f raw.bytes deadline) [] := by
  unfold handleRaw validate
  have hempty : NoRun ([] : History μ) := fun _ _ hmem => nomatch hmem
  rcases considered hconf hraw hinput hdecode with
    ⟨r, answer, hr, hanswer, hends⟩ | ⟨c, admitted, hc, hok, hinputs, hcomp, hchoose⟩
  · rw [hr, hanswer]
    exact fun _ => hends
  rw [hc, hchoose, hmodules, hengine]
  dsimp only
  have hother : ∀ (h : History μ) op, (∀ job, op ≠ .run job) →
      MayAsk (inspectModule v modules engine c) h op := fun _ _ hop job heq => absurd heq (hop job)
  unfold signAndPull
  rcases requireSignature_same hconf c.source with ⟨e, hv, hf⟩ | ⟨required, hv, hf⟩
  · have hlocate : locate v modules engine c.source = .error (cannotResolve e) := by
      unfold locate
      rw [hv]
      rfl
    rw [hf]
    exact fun _ => .stopped ((status_of_locate hlocate).symm ▸ ⟨_, rfl⟩)
  rcases hpull c hc with ⟨auth, hpulled⟩
  rw [hf, hpulled]
  let asked : Asked ε Json P :=
    { req := req
      input := input
      admitted := admitted
      source := c.source
      signatureRequired := required
      pullCredential := namedCredential c.source
      auth := auth }
  have hmatch : Matches c req asked := ⟨rfl, hinputs.symm, hcomp, rfl, rfl⟩
  show Meets _ _ _ (finish (serve f asked) _) []
  refine meets_finish ((serve_located hother hconf hv hempty).mono fun h r hr => ?_)
  rcases r with answer | ⟨target, m⟩
  · rcases hr with ⟨-, status, hlocate, hends⟩
    exact fun _ => .stopped ((status_of_locate hlocate).symm ▸ hends)
  rcases hr with ⟨hrun, ⟨_, wasm, inspection⟩, hlocate, rfl⟩
  refine meets_finish ((readManifest_read hother hrun).mono fun h r hr => ?_)
  rcases r with answer | _
  · rcases hr with ⟨-, status, hmanifest, hends⟩
    exact fun _ => .stopped ((status_of_readManifest hlocate hmanifest).symm ▸ hends)
  rcases hr with ⟨hrun, manifest, hmanifest, rfl⟩
  have hgranted := prepare_granted hconf hmatch hraw hok hlocate hmanifest
  refine meets_finish ?_
  cases hprepare : prepare f asked raw.bytes target manifest with
  | error answer => exact fun _ => hgranted.1 answer hprepare
  | ok prepared => exact execute_mayEnd (hgranted.2 prepared hprepare)

end Verdict
end Agree

/-! ## A module without the world -/

section Sample

attribute [local instance] noDockerConfig oneUrl plainDocuments asciiTables

/-- The composite resource is empty. -/
def emptyFunction : WasmFunction (Condition Value.str) Json Compose.Fields .withMeta :=
  { fileFunction with sdk := { fileFunction.sdk with composite := fun _ => some (.object []) } }

def worldless : WasmEngine Bytes Nat where
  compiled := .ok
  pre _ := .error "no world".toList
  hostImports _ := []

def fileModules : Modules where
  resolve _ := .ok fileTarget.resolved
  fetch _ := .ok []
  manifest _ := .ok []

def fileValidator : Validator (Condition Value.str) Bytes Nat where
  build := ⟨true⟩
  ceilings := { smallEngine with maxConcurrentRuns := 1 }
  decode _ := .ok fileInput
  describe _ := []
  engine := some worldless
  resolver := some fileModules
  xr := some (.object [])
  policy := none
  egress := bareCeiling
  verifierConfigured := false
  verifier := none
  keychain := none
  runtimeVersion := []

def fileStep : Step where
  file := []
  composition := []
  document := 0
  index := none
  name := []
  function := []
  input := []

/-- A request with an observed state and nothing else. -/
def observedOnly : Buffer where
  bytes := [0x12, 0x00]
  fits := by decide

def observedRequest : RunFunctionRequest .withMeta :=
  { RunFunctionRequest.empty .withMeta with observed := some ([] : Bytes) }

theorem fileValidator_configured : Configured fileValidator emptyFunction observedRequest where
  build := rfl
  timeout := rfl
  memoryLimit := rfl
  describe := rfl
  policy := rfl
  egress := rfl
  verifier := rfl
  runtimeVersion := rfl
  composite := ⟨_, rfl, rfl⟩

theorem choose_observed :
    choose emptyFunction observedOnly.bytes = .ok { fileAsked with req := observedRequest } := by
  have hsource : fromComposite emptyFunction.describe fileInput.module
      fileAsked.admitted.composition none = .ok (some fileInput.module) := by decide +kernel
  exact choose_eq_ok.2
    { decoded := rfl
      input := rfl
      admitted := (choose_eq_ok.1 choose_file).admitted
      source := fromComposite_eq_some.1 hsource
      required := rfl
      registry := fun h => nomatch h
      pulls := rfl }

end Sample
end Offline
end FunctionWasm

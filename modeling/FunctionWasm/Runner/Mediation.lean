import FunctionWasm.Runner.Handle
import FunctionWasm.Source.Published
import FunctionWasm.Wire.Noninterference

/-!
# Mediation — no module runs before everything about it was decided

What a request asks is read off its history: whatever the answers were and whatever went on in
between, it asks for a module only when its source was let through and, where a signature is
required, verified; and for a run only with what every layer permits.

* `Chosen` is what was settled at the start, `Served` what was then asked and answered.
* `MayRun` is what holds of a run that is asked for, `Relays` of a response that goes back.
* `handleRaw_meets` puts the parts together; `question_mediated` and `answer_mediated` say it of
  every history.
-/

namespace FunctionWasm
namespace Runner

open Authz Cedar UnicodeTables Program Protobuf
open Egress (HttpLibrary)
open SandboxEnv (Sources stepEnv materialize materializeFrom materializeFrom_eq_ok checkCredentials)

/-- What has been asked and answered, in order. -/
abbrev History (μ : Type) : Type := List (Program.Event (Ask μ) Ask.Ret)

/-! ## Parts one after another -/

section Parts

variable {μ α β : Type} {answers : Program.Event (Ask μ) Ask.Ret → Prop}
variable {allowed : History μ → Ask μ → Prop} {h : History μ}

theorem meets_andThen {post : History μ → Except Answer β → Prop} {p : Part μ α}
    {next : α → Part μ β}
    (hp : Meets answers allowed (fun h r => match r with
      | .error answer => post h (.error answer)
      | .ok a => Meets answers allowed post (next a) h) p h) :
    Meets answers allowed post (p.andThen next) h := by
  refine meets_bind.2 (hp.mono fun h r hr => ?_)
  cases r with
  | error answer => exact hr
  | ok a => exact hr

theorem meets_finish {post : History μ → Answer → Prop} {p : Part μ α}
    {rest : α → Program (Ask μ) Ask.Ret Answer}
    (hp : Meets answers allowed (fun h r => match r with
      | .error answer => post h answer
      | .ok a => Meets answers allowed post (rest a) h) p h) :
    Meets answers allowed post (finish p rest) h := by
  refine meets_bind.2 (hp.mono fun h r hr => ?_)
  cases r with
  | error answer => exact hr
  | ok a => exact hr

end Parts

section Handler

variable {ε J B μ : Type} {P : Prost}
variable [Expressions ε Value] [PolicyParser Value.str ε] [UnicodeTables] [HttpLibrary]
variable [DocumentLibrary] [DockerConfigLibrary] [Compose.StructBody B]

/-! ## What was settled at the start -/

/-- The composite resource that a source is read from. -/
def readFrom (f : WasmFunction ε J B P) (asked : Asked ε J P) : Option Json :=
  if asked.input.module.fromField = [] then none else compositeOf f.sdk asked.req

/-- What was chosen is what the request says, within what the policies and the ceilings allow. -/
structure Chosen (f : WasmFunction ε J B P) (raw : Bytes) (asked : Asked ε J P) : Prop where
  decoded : RunFunctionRequest.decode P raw = some asked.req
  input : f.sdk.getInput asked.req.input = .ok asked.input
  admitted : Admits f.build f.engine asked.input asked.admitted
  source : LetThrough asked.input.module asked.admitted.composition (readFrom f asked) asked.source
  required : asked.signatureRequired = signatureRequired f.policy f.verifier asked.source
  registry : asked.signatureRequired = true → asked.source.type = typeOci
  pulls : pullCredential f asked.req asked.source = .ok (asked.pullCredential, asked.auth)

omit [HttpLibrary] [DocumentLibrary] [DockerConfigLibrary] [Compose.StructBody B] in
theorem admitInput_eq_ok {f : WasmFunction ε J B P} {input : Input J} {a : Admitted ε} :
    admitInput f input = .ok a ↔ Admits f.build f.engine input a := by
  rw [← admit_eq_ok_iff]
  unfold admitInput
  split
  · next hfault => simp [hfault]
  · next hrefused => simp [hrefused]
  · next hadmitted => simp [hadmitted]

omit [PolicyParser Value.str ε] [HttpLibrary] [DocumentLibrary] [DockerConfigLibrary]
  [Compose.StructBody B] in
theorem chooseSource_eq_ok {f : WasmFunction ε J B P} {raw : Bytes} {req : RunFunctionRequest P}
    {input : Input J} {a : Admitted ε} {source : ModuleSource} :
    chooseSource f raw req input a = .ok source ↔
      LetThrough input.module a.composition
        (if input.module.fromField = [] then none else compositeOf f.sdk req) source := by
  rw [← @fromComposite_eq_some ε _ _ f.describe]
  unfold chooseSource
  dsimp only
  split
  · next herror => simp [herror]
  · next hnone => simp [hnone]
  · next hsome => simp [hsome]

omit [PolicyParser Value.str ε] [HttpLibrary] [DocumentLibrary] [DockerConfigLibrary]
  [Compose.StructBody B] in
theorem requireSignature_eq_ok {f : WasmFunction ε J B P} {source : ModuleSource} {b : Bool} :
    requireSignature f source = .ok b ↔
      b = signatureRequired f.policy f.verifier source ∧ (b = true → source.type = typeOci) := by
  unfold requireSignature
  dsimp only
  split
  · next h =>
      refine iff_of_false (fun heq => nomatch heq) ?_
      rintro ⟨rfl, htype⟩
      exact h.2 (htype h.1)
  · next h =>
      rw [Except.ok.injEq]
      constructor
      · rintro rfl
        exact ⟨rfl, fun hrequired => by_contra fun htype => h ⟨hrequired, htype⟩⟩
      · exact fun heq => heq.1.symm

omit [HttpLibrary] [DocumentLibrary] [Compose.StructBody B] in
theorem choose_eq_ok {f : WasmFunction ε J B P} {raw : Bytes} {asked : Asked ε J P} :
    choose f raw = .ok asked ↔ Chosen f raw asked := by
  rcases asked with ⟨req, input, admitted, source, required, name, auth⟩
  unfold choose decodeRequest readInput
  simp only [bind_eq_ok, orError_eq_ok, mapError_eq_ok, admitInput_eq_ok, chooseSource_eq_ok,
    requireSignature_eq_ok]
  constructor
  · rintro ⟨_, hdecoded, _, hinput, _, hadmitted, _, hsource, _, ⟨hrequired, hregistry⟩,
      ⟨_, _⟩, hpulls, heq⟩
    cases heq
    exact ⟨hdecoded, hinput, hadmitted, hsource, hrequired, hregistry, hpulls⟩
  · intro h
    exact ⟨req, h.decoded, input, h.input, admitted, h.admitted, source, h.source, required,
      ⟨h.required, h.registry⟩, (name, auth), h.pulls, rfl⟩

/-! ## What was asked and answered -/

def Resolves (asked : Asked ε J P) (target : Target) (h : History μ) : Prop :=
  ⟨.resolve asked.source asked.auth, .ok (.ok target)⟩ ∈ h

/-- A module that must be signed is in a registry and was verified there. -/
def Signed (f : WasmFunction ε J B P) (asked : Asked ε J P) (h : History μ) : Prop :=
  signatureRequired f.policy f.verifier asked.source = true →
    asked.source.type = typeOci ∧ ∃ oci reference auth, asked.source.oci = some oci ∧
      parseOciReference oci.ref = .ok reference ∧ ⟨.verify reference auth, .ok (.ok ())⟩ ∈ h

/-- What holds when a module is asked for. -/
structure MayLoad (f : WasmFunction ε J B P) (raw : Bytes) (h : History μ) (asked : Asked ε J P)
    (target : Target) : Prop where
  chosen : Chosen f raw asked
  resolved : Resolves asked target h
  signed : Signed f asked h

/-- The module came after all of that. -/
def Served (f : WasmFunction ε J B P) (raw : Bytes) (h : History μ) (asked : Asked ε J P)
    (target : Target) (m : μ) : Prop :=
  ∃ before after, h = before ++ ⟨.load target, .ok m⟩ :: after ∧ MayLoad f raw before asked target

/-- The manifest is what the target's bytes say. -/
def ManifestOf (target : Target) (manifest : Option ManifestDocument) (h : History μ) : Prop :=
  ∃ raw, (⟨.cachedManifest target, some raw⟩ ∈ h ∨ ⟨.manifest target, .ok (.ok raw)⟩ ∈ h) ∧
    (raw = [] ∧ manifest = none ∨ ∃ m, manifest = some m ∧ ManifestDocument.parse raw = .ok m)

/-- What the module requires. -/
def requiresOf (manifest : Option ManifestDocument) : Requires :=
  ((manifest.bind fun m => m.requires).map DeclaredRequires.toRequires).getD .nothing

/-- What a run gets: what is required, all of it permitted, and of the request's credentials those
that are required and did not pull the module. -/
structure Grants (f : WasmFunction ε J B P) (asked : Asked ε J P)
    (manifest : Option ManifestDocument) (prepared : Prepared) : Prop where
  permitted : ∀ cap, (requiresOf manifest).Requests cap →
    Permitted f.policy asked.admitted.composition (principalFrom f.sdk asked.req) cap
  caps : prepared.caps = (requiresOf manifest).exactly f.egress
  env : ∀ name value, prepared.env.lookup name = some value →
    ∃ b ∈ (requiresOf manifest).env, b.name = name ∧ b.fromCredential.name ≠ asked.pullCredential ∧
      ∃ bytes, (sourcesOf f asked).value b = some bytes ∧ utf8Lossy bytes = value
  sees : ∃ credentials,
    RunFunctionRequest.decode P prepared.request =
      some { asked.req with credentials := credentials } ∧
    ∀ name ∈ credentials, name ≠ asked.pullCredential ∧
      Permitted f.policy asked.admitted.composition (principalFrom f.sdk asked.req)
        (.credential name)

/-! ## The stages -/

section Stages

variable {f : WasmFunction ε J B P} {raw : Bytes} {asked : Asked ε J P} {target : Target}

omit [UnicodeTables] [DockerConfigLibrary] in
theorem valid_requiresOf {manifest : Option ManifestDocument}
    (hvalid : ∀ m, manifest = some m → m.toManifest.validate = .ok ()) :
    ∀ rule ∈ (requiresOf manifest).http, Egress.ValidRule rule := by
  cases manifest with
  | none =>
      intro rule hrule
      cases hrule
  | some m =>
      have hm := Manifest.valid_of_validate (hvalid m rfl)
      cases hrequires : m.requires with
      | none =>
          intro rule hrule
          simp [requiresOf, hrequires, Requires.nothing, Requires.http] at hrule
      | some r =>
          have hhttp : (requiresOf (some m)).http = r.http := by
            simp [requiresOf, hrequires]
          rw [hhttp]
          exact Egress.validateRules_ok (hm.rules r hrequires)

omit [PolicyParser Value.str ε] [UnicodeTables] [DockerConfigLibrary] [Compose.StructBody B] in
theorem admitManifest_eq_ok {manifest : Option ManifestDocument}
    (hvalid : ∀ m, manifest = some m → m.toManifest.validate = .ok ()) {caps : Capabilities} :
    admitManifest f asked target manifest = .ok caps ↔
      (∀ cap, (requiresOf manifest).Requests cap →
        Permitted f.policy asked.admitted.composition (principalFrom f.sdk asked.req) cap) ∧
      caps = (requiresOf manifest).exactly f.egress := by
  unfold admitManifest
  rw [mapError_eq_ok, admitRequires_getD]
  exact admitRequires_eq_ok (valid_requiresOf hvalid)

omit [UnicodeTables] [DocumentLibrary] [DockerConfigLibrary] in
theorem mem_of_lookup_env {bindings : List EnvBinding} {required : List Text} {src : Sources}
    {env : SandboxEnv.Environ} (h : stepEnv bindings required src = .ok env) {name value : Text}
    (hvalue : env.lookup name = some value) :
    ∃ b ∈ bindings, b.name = name ∧ b.fromCredential.name ≠ src.withheld ∧
      ∃ bytes, src.value b = some bytes ∧ utf8Lossy bytes = value := by
  rw [SandboxEnv.stepEnv_eq, bind_eq_ok] at h
  rcases h with ⟨env', hread, h⟩
  rcases check_bind_eq_ok.1 h with ⟨-, h⟩
  cases h
  rcases materializeFrom_eq_ok.1 hread with ⟨hall, henv⟩
  rcases lookup_insertAll_eq_some (henv ▸ hvalue) with hempty | ⟨b, hb, rfl, rfl⟩
  · rw [AList.lookup_empty] at hempty
    cases hempty
  · rcases hall b hb with ⟨hpull, bytes, hbytes, -⟩
    refine ⟨b, hb, rfl, hpull, bytes, hbytes, ?_⟩
    simp [Sources.text, hbytes]

omit [Expressions ε Value] [PolicyParser Value.str ε] [UnicodeTables] [HttpLibrary]
  [DocumentLibrary] [DockerConfigLibrary] [Compose.StructBody B] in
/-- The bytes of the request as the module reads them. -/
theorem sees_of_withheld (raw : Buffer) {caps : Capabilities} {bytes : Bytes}
    (hreq : RunFunctionRequest.decode P raw.bytes = some asked.req)
    (h : withholdFrom f asked raw.bytes caps = .ok bytes) :
    ∃ credentials,
      RunFunctionRequest.decode P bytes = some { asked.req with credentials := credentials } ∧
      ∀ name ∈ credentials, name ≠ asked.pullCredential ∧ name ∈ forwardedCredentials caps := by
  rcases RunFunctionRequest.decode_eq_some.1 hreq with ⟨rs, hrs, hfold⟩
  have hguest := guestBytes_of_decode f.build asked.pullCredential (forwardedCredentials caps) raw
    hrs hfold
  unfold withholdFrom at h
  rw [hguest] at h
  by_cases hany : rs.any (withheldEntry P
      (forwards asked.pullCredential (forwardedCredentials caps))) = true
  · rw [if_pos hany] at h
    by_cases hless : groupless rs
    · rw [if_pos hless] at h
      cases h
      rcases decode_kept (forwards asked.pullCredential (forwardedCredentials caps)) hrs hfold with
        ⟨credentials, hdecode, hall⟩
      exact ⟨credentials, hdecode, fun name hname => forwards_iff.1 (hall name hname)⟩
    · rw [if_neg hless] at h
      cases h
  · rw [if_neg hany] at h
    cases h
    -- nothing is withheld: the request itself is what the module sees
    refine ⟨asked.req.credentials, hreq, fun name hname => ?_⟩
    refine forwards_iff.1 (by_contra fun hnot => hany ?_)
    exact (withheld_iff hfold).1 ⟨name, hname, Bool.eq_false_iff.2 hnot⟩

omit [PolicyParser Value.str ε] [UnicodeTables] [DockerConfigLibrary] [Compose.StructBody B] in
theorem grants_of_prepare {f : WasmFunction ε SchemaLibrary.Json B P}
    {asked : Asked ε SchemaLibrary.Json P} (raw : Buffer) {manifest : Option ManifestDocument}
    {prepared : Prepared} (hreq : RunFunctionRequest.decode P raw.bytes = some asked.req)
    (hvalid : ∀ m, manifest = some m → m.toManifest.validate = .ok ())
    (h : prepare f asked raw.bytes target manifest = .ok prepared) :
    Grants f asked manifest prepared := by
  rcases bind_eq_ok.1 h with ⟨caps, hcaps, h⟩
  rcases check_bind_eq_ok.1 h with ⟨-, h⟩
  rcases bind_eq_ok.1 h with ⟨env, henv, h⟩
  rcases bind_eq_ok.1 h with ⟨request, hrequest, h⟩
  cases h
  rcases (admitManifest_eq_ok hvalid).1 hcaps with ⟨hpermitted, rfl⟩
  refine
    { permitted := hpermitted
      caps := rfl
      env := fun name value hvalue => mem_of_lookup_env (mapError_eq_ok.1 henv) hvalue
      sees := ?_ }
  rcases sees_of_withheld raw hreq hrequest with ⟨credentials, hdecode, hall⟩
  refine ⟨credentials, hdecode, fun name hname => ⟨(hall name hname).1, hpermitted _ ?_⟩⟩
  -- a credential that goes to the guest is bound to a variable or required whole
  have hmem := (hall name hname).2
  simp only [forwardedCredentials, List.mem_toFinset, List.mem_append, List.mem_map] at hmem
  exact hmem

end Stages

/-! ## Every question and every end -/

def NoRun (h : History μ) : Prop := ∀ job r, ⟨.run job, r⟩ ∉ h

/-- What holds when a run is asked for. -/
def MayRun (f : WasmFunction ε J B P) (raw : Bytes) (deadline : Option Nat) (h : History μ)
    (asked : Asked ε J P) (target : Target) (job : Job μ) : Prop :=
  NoRun h ∧ Served f raw h asked target job.module ∧
    ∃ manifest prepared now, ManifestOf target manifest h ∧ Grants f asked manifest prepared ∧
      job = jobOf f asked deadline target job.module prepared now

/-- What may be asked after a history. -/
def Allowed (f : WasmFunction ε J B P) (raw : Bytes) (deadline : Option Nat) (h : History μ) :
    Ask μ → Prop
  | .resolve src auth => ∃ asked, Chosen f raw asked ∧ src = asked.source ∧ auth = asked.auth
  | .keychain => True
  | .verify reference _ => ∃ asked oci, Chosen f raw asked ∧ asked.source.oci = some oci ∧
      parseOciReference oci.ref = .ok reference
  | .load target => ∃ asked, MayLoad f raw h asked target
  | .cachedManifest target => ∃ asked m, Served f raw h asked target m
  | .manifest target => ∃ asked m, Served f raw h asked target m
  | .now => True
  | .run job => ∃ asked target, MayRun f raw deadline h asked target job

/-- What holds of a response that goes back. -/
structure Relays (f : WasmFunction ε J B P) (asked : Asked ε J P) (out rsp : Bytes)
    (got : RunFunctionResponse P) : Prop where
  decoded : RunFunctionResponse.decode P out = some got
  bytes : rsp = if got.responseMeta.isSome then out
    else ProtoWire.appendMeta out (responseMeta f (f.sdk.metas.requestTag asked.req)).encode
  reads : Require.requireFenced (f.policy.map OperatorPolicy.layer)
      (asked.admitted.composition.map CompositionPolicy.layer) = true →
    ∀ field key s, Require.Asks (f.sdk.response got) field key s →
      ∃ r, Require.requirement field key s = .ok r ∧
        Require.Permitted (f.policy.map OperatorPolicy.layer)
          (asked.admitted.composition.map CompositionPolicy.layer) (principalFrom f.sdk asked.req) r
  writes : (f.sdk.response got).results.any (· == Compose.severityFatal) = false →
    ∀ c, Compose.StateChange (asked.req.desired.map f.sdk.state) (f.sdk.response got).desired
        ((Compose.compositeBefore (asked.req.observed.map f.sdk.state)).bind Compose.kindOf) c →
      Compose.Permitted (f.policy.map fun p => (OperatorPolicy.layer p).toPolicyLayer)
        (asked.admitted.composition.map fun p => p.layer.toPolicyLayer)
        (principalFrom f.sdk asked.req) c

/-- How a request may end after a history. -/
def Ends (f : WasmFunction ε J B P) (raw : Bytes) (deadline : Option Nat) (h : History μ) :
    Answer → Prop
  | .status _ => h = [] ∧ RunFunctionRequest.decode P raw = none
  | .skipped _ => h = [] ∧ ∃ req input, RunFunctionRequest.decode P raw = some req ∧
      f.sdk.getInput req.input = .ok input ∧ input.module.allowEmpty = true ∧
      input.module.fromField ≠ []
  | .relayed rsp => ∃ before asked target job out got,
      h = before ++ [⟨.run job, .ok (.ok out)⟩] ∧ MayRun f raw deadline before asked target job ∧
      Relays f asked out rsp got
  | .fatal _ _ => True
  | .panicked => True

/-- A part ends the request as it may end, or comes to what is stated. -/
def Comes {α : Type} (f : WasmFunction ε J B P) (raw : Bytes) (deadline : Option Nat)
    (good : History μ → α → Prop) (h : History μ) : Except Answer α → Prop
  | .error answer => Ends f raw deadline h answer
  | .ok a => good h a

section Stages

variable {f : WasmFunction ε J B P} {raw : Bytes} {deadline : Option Nat} {asked : Asked ε J P}
variable {target : Target} {h : History μ}

omit [UnicodeTables] [HttpLibrary] [DocumentLibrary] [DockerConfigLibrary] in
theorem NoRun.snoc {op : Ask μ} {r : op.Ret} (hrun : NoRun h) (hop : ∀ job, op ≠ .run job) :
    NoRun (h ++ [⟨op, r⟩]) := by
  intro job r' hmem
  rcases List.mem_append.1 hmem with hmem | hmem
  · exact hrun job r' hmem
  · cases List.mem_singleton.1 hmem
    exact hop job rfl

theorem resolveTarget_meets (hrun : NoRun h) (hchosen : Chosen f raw asked) :
    Meets (fun _ => True) (Allowed f raw deadline)
      (Comes f raw deadline fun h target => NoRun h ∧ Resolves asked target h)
      (resolveTarget asked) h := by
  refine ⟨⟨asked, hchosen, rfl, rfl⟩, fun r _ => ?_⟩
  rcases r with e | e | target
  · trivial
  · trivial
  · exact ⟨hrun.snoc fun _ => nofun, List.mem_append_right h (List.mem_singleton_self _)⟩

theorem verifyWith_meets {oci : OciSource} {reference : OciReference} {config : Option Bytes}
    (hrun : NoRun h) (hchosen : Chosen f raw asked) (hresolved : Resolves asked target h)
    (hoci : asked.source.oci = some oci) (href : parseOciReference oci.ref = .ok reference)
    (hrequired : asked.signatureRequired = true) :
    Meets (fun _ => True) (Allowed f raw deadline)
      (Comes f raw deadline fun h _ => NoRun h ∧ MayLoad f raw h asked target)
      (verifyWith asked target reference config) h := by
  refine ⟨⟨asked, oci, hchosen, hoci, href⟩, fun r _ => ?_⟩
  rcases r with e | e | ⟨⟩
  · trivial
  · trivial
  · refine ⟨hrun.snoc fun _ => nofun, hchosen, List.mem_append_left _ hresolved, fun _ => ?_⟩
    exact ⟨hchosen.registry hrequired, oci, reference, _, hoci, href,
      List.mem_append_right h (List.mem_singleton_self _)⟩

theorem verifySignature_meets (hrun : NoRun h) (hchosen : Chosen f raw asked)
    (hresolved : Resolves asked target h) :
    Meets (fun _ => True) (Allowed f raw deadline)
      (Comes f raw deadline fun h _ => NoRun h ∧ MayLoad f raw h asked target)
      (verifySignature f asked target) h := by
  unfold verifySignature
  by_cases hrequired : asked.signatureRequired = true
  · rw [if_pos hrequired]
    by_cases hverifier : f.verifier = true
    · rw [if_pos hverifier]
      split
      · next reference hreference =>
          rcases Option.map_eq_some_iff.1 hreference with ⟨oci, hoci, href⟩
          split
          · exact verifyWith_meets hrun hchosen hresolved hoci href hrequired
          · refine ⟨trivial, fun config _ => ?_⟩
            exact verifyWith_meets (hrun.snoc fun _ => nofun) hchosen (List.mem_append_left _ hresolved)
              hoci href hrequired
      · trivial
    · rw [if_neg hverifier]
      trivial
  · rw [if_neg hrequired]
    refine ⟨hrun, hchosen, hresolved, fun hneeded => ?_⟩
    exact absurd (hchosen.required.trans hneeded) hrequired

theorem loadModule_meets (hrun : NoRun h) (hload : MayLoad f raw h asked target) :
    Meets (fun _ => True) (Allowed f raw deadline)
      (Comes f raw deadline fun h m => NoRun h ∧ Served f raw h asked target m)
      (loadModule target) h := by
  refine ⟨⟨asked, hload⟩, fun r _ => ?_⟩
  rcases r with e | m
  · trivial
  · exact ⟨hrun.snoc fun _ => nofun, h, [], rfl, hload⟩

theorem serve_meets (hrun : NoRun h) (hchosen : Chosen f raw asked) :
    Meets (fun _ => True) (Allowed f raw deadline)
      (Comes f raw deadline fun h tm => NoRun h ∧ Served f raw h asked tm.1 tm.2)
      (serve f asked) h := by
  refine meets_andThen ((resolveTarget_meets hrun hchosen).mono fun h r hr => ?_)
  rcases r with answer | target
  · exact hr
  refine meets_andThen ((verifySignature_meets hr.1 hchosen hr.2).mono fun h r hr => ?_)
  rcases r with answer | ⟨⟩
  · exact hr
  refine meets_andThen ((loadModule_meets hr.1 hr.2).mono fun h r hr => ?_)
  rcases r with answer | m
  · exact hr
  · exact hr

omit [HttpLibrary] [DocumentLibrary] [Compose.StructBody B] in
theorem Served.snoc {m : μ} {op : Ask μ} {r : op.Ret} (hserved : Served f raw h asked target m) :
    Served f raw (h ++ [⟨op, r⟩]) asked target m := by
  rcases hserved with ⟨before, after, rfl, hload⟩
  exact ⟨before, after ++ [⟨op, r⟩], by simp, hload⟩

/-- The manifest is checked as soon as it is parsed. -/
theorem comes_parseManifest {m : μ} {bytes : Bytes} (hrun : NoRun h)
    (hserved : Served f raw h asked target m)
    (hread : ⟨.cachedManifest target, some bytes⟩ ∈ h ∨ ⟨.manifest target, .ok (.ok bytes)⟩ ∈ h) :
    Comes f raw deadline (fun h manifest => NoRun h ∧ Served f raw h asked target m ∧
        ManifestOf target manifest h ∧ ∀ d, manifest = some d → d.toManifest.validate = .ok ()) h
      (parseManifest target bytes) := by
  unfold parseManifest
  by_cases hempty : bytes = []
  · rw [if_pos hempty]
    exact ⟨hrun, hserved, ⟨bytes, hread, Or.inl ⟨hempty, rfl⟩⟩, fun _ heq => nomatch heq⟩
  · rw [if_neg hempty]
    cases hparse : ManifestDocument.parse bytes with
    | error e => trivial
    | ok d =>
        refine ⟨hrun, hserved, ⟨bytes, hread, Or.inr ⟨d, rfl, hparse⟩⟩, ?_⟩
        rintro _ ⟨⟩
        exact (ManifestDocument.parse_eq_ok_iff.1 hparse).2.1

theorem readManifest_meets {m : μ} (hrun : NoRun h) (hserved : Served f raw h asked target m) :
    Meets (fun _ => True) (Allowed f raw deadline)
      (Comes f raw deadline fun h manifest => NoRun h ∧ Served f raw h asked target m ∧
        ManifestOf target manifest h ∧ ∀ d, manifest = some d → d.toManifest.validate = .ok ())
      (readManifest target) h := by
  refine ⟨⟨asked, m, hserved⟩, fun cached _ => ?_⟩
  cases cached with
  | some bytes =>
      exact comes_parseManifest (hrun.snoc fun _ => nofun) hserved.snoc
        (Or.inl (List.mem_append_right h (List.mem_singleton_self _)))
  | none =>
      refine ⟨⟨asked, m, hserved.snoc⟩, fun r _ => ?_⟩
      rcases r with e | e | bytes
      · trivial
      · trivial
      · have hasked : NoRun (h ++ [⟨.cachedManifest target, none⟩]) := hrun.snoc fun _ => nofun
        exact comes_parseManifest (hasked.snoc fun _ => nofun) hserved.snoc.snoc
          (Or.inr (List.mem_append_right _ (List.mem_singleton_self _)))

omit [PolicyParser Value.str ε] [HttpLibrary] [DocumentLibrary] [DockerConfigLibrary] in
/-- What a fence lets pass is permitted, and the bytes are the module's. -/
theorem relays_of_conclude {out rsp : Bytes} (h : conclude f asked target out = .relayed rsp) :
    ∃ got, Relays f asked out rsp got := by
  unfold conclude at h
  split at h
  · next rsp' hanswer =>
      cases h
      cases hgot : RunFunctionResponse.decode P out with
      | none =>
          rw [Step.answer, hgot] at hanswer
          cases hanswer
      | some got =>
          rcases (answer_of_decode hgot).1 hanswer with ⟨hread, hwrite, hbytes⟩
          refine ⟨got, hgot, hbytes, ?_, ?_⟩
          · intro hfenced field key s hasks
            rcases Require.readFence_ok hfenced (mapError_eq_ok.1 hread) hasks with
              ⟨r, -, hr, -, hpermitted⟩
            exact ⟨r, hr, hpermitted⟩
          · intro hfatal c hc
            exact Compose.outputFence_sound hfatal (mapError_eq_ok.1 hwrite) hc
  · cases h

theorem execute_meets {f : WasmFunction ε SchemaLibrary.Json B P}
    {asked : Asked ε SchemaLibrary.Json P} {m : μ} {manifest : Option ManifestDocument}
    {prepared : Prepared} (hrun : NoRun h) (hserved : Served f raw h asked target m)
    (hmanifest : ManifestOf target manifest h) (hgrants : Grants f asked manifest prepared) :
    Meets (fun _ => True) (Allowed f raw deadline) (Ends f raw deadline)
      (execute f asked deadline target m prepared) h := by
  refine ⟨trivial, fun now _ => ?_⟩
  have hmay : MayRun f raw deadline (h ++ [⟨.now, now⟩]) asked target
      (jobOf f asked deadline target m prepared now) := by
    refine ⟨hrun.snoc fun _ => nofun, hserved.snoc, manifest, prepared, now, ?_, hgrants, rfl⟩
    rcases hmanifest with ⟨bytes, hread, hparsed⟩
    exact ⟨bytes, hread.imp (List.mem_append_left _) (List.mem_append_left _), hparsed⟩
  refine ⟨⟨asked, target, hmay⟩, fun r _ => ?_⟩
  rcases r with e | e | out
  · trivial
  · trivial
  · show Ends f raw deadline _ (conclude f asked target out)
    cases hanswer : conclude f asked target out with
    | status message =>
        unfold conclude at hanswer
        split at hanswer <;> cases hanswer
    | skipped rsp =>
        unfold conclude at hanswer
        split at hanswer <;> cases hanswer
    | fatal outcome reason => trivial
    | panicked => trivial
    | relayed rsp =>
        rcases relays_of_conclude hanswer with ⟨got, hrelays⟩
        exact ⟨_, asked, target, _, out, got, rfl, hmay, hrelays⟩

omit [PolicyParser Value.str ε] [HttpLibrary] [DocumentLibrary] [DockerConfigLibrary] in
theorem allowEmpty_of_none {describe : DecodeError → Text} {src : ModuleSource}
    {comp : Option (CompositionPolicy ε)} {composite : Option Json}
    (h : fromComposite describe src comp composite = .ok none) :
    src.allowEmpty = true ∧ src.fromField ≠ [] := by
  rcases bind_eq_ok.1 h with ⟨⟨⟩, -, h⟩
  by_cases hfrom : src.fromField = []
  · rw [if_pos hfrom] at h
    cases h
  · refine ⟨by_contra fun hallow => ?_, hfrom⟩
    simp only [hfrom, if_false, hallow] at h
    cases composite with
    | none => cases h
    | some doc =>
        dsimp only at h
        split at h
        · cases h
        · next value hvalue =>
            simp only [Bool.false_eq_true, false_and, if_false] at h
            split at h
            · cases h
            · split at h
              · cases h
              · rcases bind_eq_ok.1 h with ⟨-, -, h⟩
                cases h

/-- A request that is over before anything is asked. -/
theorem ends_of_choose {answer : Answer} (h : choose f raw = .error answer) :
    Ends f raw deadline ([] : History μ) answer := by
  unfold choose at h
  rcases bind_eq_error.1 h with hreq | ⟨req, hreq, h⟩
  · unfold decodeRequest at hreq
    cases hdecode : RunFunctionRequest.decode P raw with
    | none =>
        rw [hdecode] at hreq
        cases hreq
        exact ⟨rfl, hdecode⟩
    | some req =>
        rw [hdecode] at hreq
        cases hreq
  rcases bind_eq_error.1 h with hinput | ⟨input, hinput, h⟩
  · unfold readInput at hinput
    cases hread : f.sdk.getInput req.input with
    | error e =>
        rw [hread] at hinput
        cases hinput
        trivial
    | ok input =>
        rw [hread] at hinput
        cases hinput
  rcases bind_eq_error.1 h with hrequest | ⟨admitted, hrequest, h⟩
  · unfold admitInput at hrequest
    split at hrequest <;> cases hrequest <;> trivial
  rcases bind_eq_error.1 h with hsource | ⟨source, hsource, h⟩
  · unfold chooseSource at hsource
    dsimp only at hsource
    split at hsource
    · cases hsource
      trivial
    · next hnone =>
        cases hsource
        unfold skip
        split
        · rcases allowEmpty_of_none hnone with ⟨hallow, hfrom⟩
          exact ⟨rfl, req, input, orError_eq_ok.1 hreq, mapError_eq_ok.1 hinput, hallow, hfrom⟩
        · trivial
    · cases hsource
  rcases bind_eq_error.1 h with hrequired | ⟨required, -, h⟩
  · unfold requireSignature at hrequired
    dsimp only at hrequired
    split at hrequired <;> cases hrequired
    trivial
  rcases bind_eq_error.1 h with hpulls | ⟨pulls, -, h⟩
  · unfold pullCredential at hpulls
    split at hpulls
    · cases hpulls
    · split at hpulls
      · split at hpulls
        · cases hpulls
          trivial
        · dsimp only at hpulls
          split at hpulls <;> cases hpulls
          trivial
      · cases hpulls
  · cases h

theorem ends_of_prepare {f : WasmFunction ε SchemaLibrary.Json B P}
    {asked : Asked ε SchemaLibrary.Json P} {manifest : Option ManifestDocument} {answer : Answer}
    (hprepare : prepare f asked raw target manifest = .error answer) :
    Ends f raw deadline h answer := by
  rcases bind_eq_error.1 hprepare with hcaps | ⟨caps, -, hprepare⟩
  · rcases mapError_eq_error.1 hcaps with ⟨e, -, rfl⟩
    trivial
  rcases bind_eq_error.1 hprepare with hcheck | ⟨⟨⟩, -, hprepare⟩
  · unfold checkManifest at hcheck
    split at hcheck
    · cases hcheck
    · rcases mapError_eq_error.1 hcheck with ⟨e, -, rfl⟩
      trivial
  rcases bind_eq_error.1 hprepare with henv | ⟨env, -, hprepare⟩
  · rcases mapError_eq_error.1 henv with ⟨e, -, rfl⟩
    trivial
  rcases bind_eq_error.1 hprepare with hrequest | ⟨request, -, hprepare⟩
  · unfold withholdFrom at hrequest
    split at hrequest <;> cases hrequest <;> trivial
  · cases hprepare

end Stages

/-- Every question of a request is allowed by what came before it, and it ends as it may. -/
theorem handleRaw_meets (f : WasmFunction ε SchemaLibrary.Json B P) (raw : Buffer)
    (deadline : Option Nat) :
    Meets (fun _ => True) (Allowed f raw.bytes deadline) (Ends f raw.bytes deadline)
      (handleRaw (μ := μ) f raw.bytes deadline) [] := by
  have hnone : NoRun ([] : History μ) := fun _ _ hmem => nomatch hmem
  refine meets_finish ?_
  cases hchoose : choose f raw.bytes with
  | error answer => exact ends_of_choose hchoose
  | ok asked =>
      have hchosen := choose_eq_ok.1 hchoose
      refine meets_finish ((serve_meets hnone hchosen).mono fun h r hr => ?_)
      rcases r with answer | ⟨target, m⟩
      · exact hr
      refine meets_finish ((readManifest_meets hr.1 hr.2).mono fun h r hr => ?_)
      rcases r with answer | manifest
      · exact hr
      rcases hr with ⟨hrun, hserved, hmanifest, hvalid⟩
      refine meets_finish ?_
      cases hprepare : prepare f asked raw.bytes target manifest with
      | error answer => exact ends_of_prepare hprepare
      | ok prepared =>
          exact execute_meets hrun hserved hmanifest
            (grants_of_prepare raw hchosen.decoded hvalid hprepare)

end Handler

/-! ## A run of a file -/

section Sample

@[reducible] def noDockerConfig : DockerConfigLibrary where
  auths _ := none

attribute [local instance] noDockerConfig oneUrl plainDocuments asciiTables

/-- A step that runs a file without a manifest. -/
def fileInput : Input Json where
  apiVersion := apiVersionV1
  module :=
    { type := typePath
      oci := none
      http := none
      path := "m.wasm".toList
      manifestPath := []
      fromField := []
      allowEmpty := false }
  compositionPolicy := []
  limits := none
  config := none

def fileFunction : WasmFunction (Condition Value.str) Json Compose.Fields .withMeta where
  build := ⟨true⟩
  sdk :=
    { decodeError := fun _ => []
      getInput := fun _ => .ok fileInput
      metas := metaReader
      composite := fun _ => none
      credentials := fun _ => ⟨none⟩
      state := fun _ => ⟨none, ∅⟩
      response := fun _ => ⟨none, [], none⟩ }
  engine := smallEngine
  ttl := minuteStep.ttl
  policy := none
  egress := bareCeiling
  verifier := false
  runtimeVersion := []
  describe _ := []

def fileTarget : Target where
  resolved :=
    { digest := "sha256:0".toList
      description := "module file m.wasm".toList
      source := .path "/d/m.wasm".toList
      manifest := .none }
  auth := none

def fileAsked : Asked (Condition Value.str) Json .withMeta where
  req := .empty _
  input := fileInput
  admitted := { timeout := none, memoryLimit := none, concurrency := 0, composition := none }
  source := fileInput.module
  signatureRequired := false
  pullCredential := []
  auth := none

/-- A module without a manifest gets nothing but its request. -/
def fileJob : Job Nat where
  module := 7
  request := []
  opts :=
    { timeout := none
      deadline := none
      memoryLimit := none
      privateTmp := false
      env := ∅
      http := none
      description := "module file m.wasm".toList
      digest := "sha256:0".toList }
  concurrency := 0
  wait := smallEngine.timeout

def fileHistory : History Nat :=
  [⟨.resolve fileInput.module none, .ok (.ok fileTarget)⟩, ⟨.load fileTarget, .ok 7⟩,
    ⟨.cachedManifest fileTarget, some []⟩, ⟨.now, 0⟩]

theorem choose_file : choose fileFunction [] = .ok fileAsked := by
  have hsource : fromComposite fileFunction.describe fileInput.module
      fileAsked.admitted.composition none = .ok (some fileInput.module) := by decide +kernel
  exact choose_eq_ok.2
    { decoded := rfl
      input := rfl
      admitted :=
        { current := by decide
          policy := rfl
          concurrency := rfl
          timeout := rfl
          memoryLimit := rfl
          shape := by decide +kernel }
      source := fromComposite_eq_some.1 hsource
      required := rfl
      registry := fun h => nomatch h
      pulls := rfl }

end Sample
end Runner
end FunctionWasm

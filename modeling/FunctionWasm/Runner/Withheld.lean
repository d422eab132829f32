import FunctionWasm.Runner.Mediation

/-!
# Withheld — a credential that nothing asks for changes nothing

Two requests that differ only in what they hold under some names are told apart by nobody, as long
as the module is not pulled with one of these names and no manifest requires one: they ask the same,
their modules are given the same bytes, and they end with the same.

* `Twins` are two such requests, `Pulls` and `Wants` the two ways to use a name.
* `choose_twins`, `serve_req`, `prepare_twins` and `execute_req` say it of the parts of a request.
* `credentials_unseen` says it of every history.
-/

namespace FunctionWasm

open Protobuf ProtoWire

/-! ## The items of two requests -/

section Items

variable {P : Prost} {spared : Text → Bool}

theorem withheldEntry_iff {r : Record} :
    withheldEntry P spared r = true ↔ r.key.field = credentialsField ∧
      ∃ e, (P.codec .credentials).entry P.entryDepth r = some e ∧ spared e.1 = false := by
  rw [withheldEntry, Bool.and_eq_true, decide_eq_true_eq]
  refine and_congr_right fun _ => ?_
  cases (P.codec .credentials).entry P.entryDepth r with
  | none => simp
  | some e => simp

/-- The request but for the credentials that are not spared. -/
theorem foldlM_spared {rs : List Record} {q q' : RunFunctionRequest P}
    (h : rs.foldlM RunFunctionRequest.mergeField q = some q') {m : P.MapOf .credentials}
    (hm : ∀ name, spared name = true → m.lookup name = q.credentials.lookup name) :
    ∃ m', (rs.filter fun r => !withheldEntry P spared r).foldlM RunFunctionRequest.mergeField
        { q with credentials := m } = some { q' with credentials := m' } ∧
      ∀ name, spared name = true → m'.lookup name = q'.credentials.lookup name := by
  induction rs generalizing q m with
  | nil =>
      have heq : q = q' := by simpa using h
      subst heq
      exact ⟨m, rfl, hm⟩
  | cons r rs ih =>
      rw [List.foldlM_cons] at h
      rcases Option.bind_eq_some_iff.1 h with ⟨q1, hq1, htail⟩
      by_cases hfield : r.key.field = credentialsField
      · rcases RunFunctionRequest.mergeField_entry hfield hq1 with ⟨e, he, rfl⟩
        have hentry : withheldEntry P spared r = !spared e.1 := by simp [withheldEntry, hfield, he]
        cases hspared : spared e.1 with
        | false =>
            rw [List.filter_cons_of_neg (by simp [hentry, hspared])]
            refine ih htail fun name hname => ?_
            -- what is left out stands under another name
            have hne : name ≠ e.1 := fun heq => by simp [heq, hspared] at hname
            exact (hm name hname).trans (AList.lookup_insert_ne hne).symm
        | true =>
            rw [List.filter_cons_of_pos (by simp [hentry, hspared]), List.foldlM_cons,
              RunFunctionRequest.mergeField_credentials hfield, he]
            refine ih (m := m.insert e.1 e.2) htail fun name hname => ?_
            by_cases hne : name = e.1
            · rw [hne, AList.lookup_insert, AList.lookup_insert]
            · rw [AList.lookup_insert_ne hne, AList.lookup_insert_ne hne]
              exact hm name hname
      · have hother : withheldEntry P spared r = false := by simp [withheldEntry, hfield]
        rcases RunFunctionRequest.mergeField_other hfield hq1 with ⟨hcred, hmerge⟩
        rw [List.filter_cons_of_pos (by simp [hother]), List.foldlM_cons, hmerge m]
        refine ih (m := m) htail fun name hname => ?_
        rw [hcred]
        exact hm name hname

/-- The no-op carries no credential. -/
theorem carried_spared (spared : Text → Bool) (rs : List Record) :
    (beforeGroup (rs.filter fun r => !withheldEntry P spared r)).filterMap carriedItem =
      (beforeGroup rs).filterMap carriedItem := by
  induction rs with
  | nil => rfl
  | cons r rs ih =>
      cases hentry : withheldEntry P spared r with
      | true =>
          rcases withheldEntry_iff.1 hentry with ⟨hfield, e, he, -⟩
          have hwire : r.key.wire = .len := (Codec.entry_some he).1
          have hbefore : beforeGroup (r :: rs) = r :: beforeGroup rs := by simp [beforeGroup, hwire]
          have hnone : carriedItem r = none := by
            simp [carriedItem, retagged, hfield, credentialsField, requestDesiredField,
              requestContextField]
          rw [List.filter_cons_of_neg (by simp [hentry]), hbefore,
            List.filterMap_cons_none hnone]
          exact ih
      | false =>
          rw [List.filter_cons_of_pos (by simp [hentry])]
          by_cases hgroup : r.key.wire = .sgroup
          · simp [beforeGroup, hgroup]
          · have hbefore : ∀ rs, beforeGroup (r :: rs) = r :: beforeGroup rs := by
              intro rs
              simp [beforeGroup, hgroup]
            rw [hbefore, hbefore, List.filterMap_cons, List.filterMap_cons, ih]

theorem any_withheldEntry {forward : Text → Bool}
    (hforward : ∀ name, forward name = true → spared name = true) (rs : List Record) :
    rs.any (withheldEntry P forward) = (rs.any (withheldEntry P spared) ||
      (rs.filter fun r => !withheldEntry P spared r).any (withheldEntry P forward)) := by
  rw [Bool.eq_iff_iff, Bool.or_eq_true, List.any_eq_true, List.any_eq_true, List.any_eq_true]
  have hless : ∀ r, withheldEntry P spared r = true → withheldEntry P forward r = true := by
    intro r hr
    rcases withheldEntry_iff.1 hr with ⟨hfield, e, he, hspared⟩
    refine withheldEntry_iff.2 ⟨hfield, e, he, Bool.eq_false_iff.2 fun hsent => ?_⟩
    rw [hforward e.1 hsent] at hspared
    cases hspared
  constructor
  · rintro ⟨r, hr, hentry⟩
    cases hspared : withheldEntry P spared r with
    | true => exact Or.inl ⟨r, hr, hspared⟩
    | false => exact Or.inr ⟨r, List.mem_filter.2 ⟨hr, by simp [hspared]⟩, hentry⟩
  · rintro (⟨r, hr, hentry⟩ | ⟨r, hr, hentry⟩)
    · exact ⟨r, hr, hless r hentry⟩
    · exact ⟨r, List.mem_of_mem_filter hr, hentry⟩

/-- Two requests whose items are the same, but for credentials that are not spared. -/
structure Twins (spared : Text → Bool) (raw raw' : Buffer) (req req' : RunFunctionRequest P) :
    Prop where
  decoded : RunFunctionRequest.decode P raw.bytes = some req
  decoded' : RunFunctionRequest.decode P raw'.bytes = some req'
  items : DifferOnlyInWithheld P spared raw.bytes raw'.bytes

namespace Twins

variable {raw raw' : Buffer} {req req' : RunFunctionRequest P}

theorem req_eq (h : Twins spared raw raw' req req') :
    ∃ credentials, req' = { req with credentials := credentials } ∧
      ∀ name, spared name = true → credentials.lookup name = req.credentials.lookup name := by
  rcases h.items with ⟨rs, rs', hrs, hrs', hfilter, -⟩
  rcases RunFunctionRequest.decode_eq_some.1 h.decoded with ⟨rs0, hrs0, hfold⟩
  rcases RunFunctionRequest.decode_eq_some.1 h.decoded' with ⟨rs0', hrs0', hfold'⟩
  cases hrs.symm.trans hrs0
  cases hrs'.symm.trans hrs0'
  rcases foldlM_spared hfold (m := ∅) (fun _ _ => rfl) with ⟨m, hm, hlookup⟩
  rcases foldlM_spared hfold' (m := ∅) (fun _ _ => rfl) with ⟨m', hm', hlookup'⟩
  -- both come to one request when what is not spared is left out
  have hsame : ({ req with credentials := m } : RunFunctionRequest P) =
      { req' with credentials := m' } := by
    apply Option.some.inj
    calc
      some { req with credentials := m } = _ := hm.symm
      _ = some { req' with credentials := m' } := hfilter ▸ hm'
  have hcredentials : m = m' := congrArg RunFunctionRequest.credentials hsame
  refine ⟨req'.credentials, ?_, fun name hname => ?_⟩
  · rcases req with ⟨⟩
    rcases req' with ⟨⟩
    cases hsame
    rfl
  · rw [← hlookup' name hname, ← hlookup name hname, hcredentials]

theorem noopResponse_eq (h : Twins spared raw raw' req req') (b : Build) (rspMeta : Bytes) :
    noopResponse b raw'.bytes rspMeta = noopResponse b raw.bytes rspMeta := by
  rcases h.items with ⟨rs, rs', hrs, hrs', hfilter, -⟩
  rw [noopResponse_of_records b raw rspMeta hrs, noopResponse_of_records b raw' rspMeta hrs',
    ← carried_spared (P := P) spared rs, ← carried_spared (P := P) spared rs', hfilter]

/-- The module is given the same bytes, when what it is given is spared. -/
theorem guestBytes_eq (h : Twins spared raw raw' req req') (b : Build) {pull : Text}
    {granted : Finset Text} (hgranted : ∀ name ∈ granted, spared name = true) :
    guestBytes b pull granted req' raw'.bytes = guestBytes b pull granted req raw.bytes := by
  rcases h.items with ⟨rs, rs', hrs, hrs', hfilter, hany⟩
  rcases RunFunctionRequest.decode_eq_some.1 h.decoded with ⟨rs0, hrs0, hfold⟩
  rcases RunFunctionRequest.decode_eq_some.1 h.decoded' with ⟨rs0', hrs0', hfold'⟩
  cases hrs.symm.trans hrs0
  cases hrs'.symm.trans hrs0'
  have hforward : ∀ name, forwards pull granted name = true → spared name = true :=
    fun name hname => hgranted name (forwards_iff.1 hname).2
  have hedited : rs'.any (withheldEntry P (forwards pull granted)) =
      rs.any (withheldEntry P (forwards pull granted)) := by
    rw [any_withheldEntry hforward rs, any_withheldEntry hforward rs', hfilter, hany]
  rw [guestBytes_of_decode b pull granted raw hrs hfold,
    guestBytes_of_decode b pull granted raw' hrs' hfold', hedited]
  cases hsame : rs.any (withheldEntry P spared) with
  | false =>
      -- with nothing left out the requests are one
      have hnone : ∀ rs : List Record, rs.any (withheldEntry P spared) = false →
          (rs.filter fun r => !withheldEntry P spared r) = rs := by
        intro rs hrs
        rw [List.filter_eq_self]
        intro r hr
        rw [List.any_eq_false.1 hrs r hr |> Bool.eq_false_iff.2]
        rfl
      have hone : rs = rs' := by
        rw [← hnone rs hsame, hfilter, hnone rs' (hany ▸ hsame)]
      rw [(records_eq_some_iff.1 hrs).1, (records_eq_some_iff.1 hrs').1, hone]
  | true =>
      have hless : groupless rs ↔ groupless rs' := by
        rw [groupless_filter P spared, hfilter, ← groupless_filter]
      have hkept : rs.filter (kept P.entryDepth (forwards pull granted)) =
          rs'.filter (kept P.entryDepth (forwards pull granted)) := by
        have hspared : ∀ rs : List Record,
            (rs.filter fun r => !withheldEntry P spared r).filter
              (kept P.entryDepth (forwards pull granted)) =
            rs.filter (kept P.entryDepth (forwards pull granted)) := by
          intro rs
          rw [List.filter_filter]
          refine List.filter_congr fun r _ => ?_
          cases hentry : withheldEntry P spared r with
          | false => simp
          | true =>
              rcases withheldEntry_iff.1 hentry with ⟨hfield, e, he, hnot⟩
              have hwithheld : withheldEntry P (forwards pull granted) r = true :=
                withheldEntry_iff.2 ⟨hfield, e, he, Bool.eq_false_iff.2 fun hsent => by
                  simp [hforward e.1 hsent] at hnot⟩
              simp [not_kept_of_withheld hwithheld]
        rw [← hspared rs, hfilter, hspared rs']
      have hedits : rs.any (withheldEntry P (forwards pull granted)) = true := by
        rw [any_withheldEntry hforward rs, hsame, Bool.true_or]
      simp only [hedits, if_true, hless, hkept]

end Twins
end Items

/-! ## The credentials of a step -/

namespace SandboxEnv

open Authz Egress

variable [HttpLibrary] {src src' : Sources}

/-- A run's environment depends on the credentials that it is made of only. -/
theorem stepEnv_congr {bindings : List EnvBinding} {required : List Text}
    (hwithheld : src'.withheld = src.withheld)
    (hbound : ∀ b ∈ bindings, src'.credentials.lookup b.fromCredential.name =
      src.credentials.lookup b.fromCredential.name)
    (hrequired : ∀ name ∈ required, src'.credentials.lookup name = src.credentials.lookup name) :
    stepEnv bindings required src' = stepEnv bindings required src := by
  have hread : ∀ (i : Nat) (env : Environ),
      materializeFrom src' i env bindings = materializeFrom src i env bindings := by
    induction bindings with
    | nil => exact fun _ _ => rfl
    | cons b rest ih =>
        intro i env
        rw [List.forall_mem_cons] at hbound
        have hb : ∀ field, resolveCredential field b.fromCredential.name b.fromCredential.key src' =
            resolveCredential field b.fromCredential.name b.fromCredential.key src := by
          intro field
          rw [resolveCredential, resolveCredential, hwithheld, hbound.1]
        rw [materializeFrom, materializeFrom, hb]
        refine bind_congr fun v => ?_
        rw [ih hbound.2]
  have hchecked : checkCredentials required src' = checkCredentials required src := by
    unfold checkCredentials
    rw [hwithheld]
    refine bind_congr fun _ => checkAll_congr ?_
    rintro ⟨name, i⟩ hmem
    rw [hrequired name (List.fst_mem_of_mem_zipIdx hmem)]
  have hmade : materialize bindings src' = materialize bindings src := hread 0 ∅
  rw [stepEnv_eq, stepEnv_eq, hmade, hchecked]

end SandboxEnv

/-! ## The parts of a request -/

namespace Runner

open Authz Cedar UnicodeTables Program
open Egress (HttpLibrary)
open SandboxEnv (stepEnv stepEnv_congr)

theorem alike_finish {μ α : Type} {good : α → Prop} {telling : Program.Event (Ask μ) Ask.Ret → Prop}
    {p p' : Part μ α} {rest rest' : α → Program (Ask μ) Ask.Ret Answer}
    (hp : Alike (fun r r' => r = r' ∧ ∀ a, r = .ok a → good a) telling p p')
    (hrest : ∀ a, good a → Alike Eq telling (rest a) (rest' a)) :
    Alike Eq telling (finish p rest) (finish p' rest') := by
  refine hp.bind fun r r' hr => ?_
  rcases hr with ⟨rfl, hgood⟩
  cases r with
  | error answer => exact .done rfl
  | ok a => exact hrest a (hgood a rfl)

section Requests

variable {ε J B μ : Type} {P : Prost}
variable [Expressions ε Value] [PolicyParser Value.str ε] [UnicodeTables] [HttpLibrary]
variable [DocumentLibrary] [DockerConfigLibrary] [Compose.StructBody B]

/-- The module that a request chooses is pulled with this credential. -/
def Pulls (f : WasmFunction ε J B P) (req : RunFunctionRequest P) (name : Text) : Prop :=
  ∃ (input : Input J) (admitted : Admitted ε) (source : ModuleSource) (oci : OciSource),
    f.sdk.getInput req.input = .ok input ∧
    Admits f.build f.engine input admitted ∧
    LetThrough input.module admitted.composition
      (if input.module.fromField = [] then none else compositeOf f.sdk req) source ∧
    source.type = typeOci ∧ source.oci = some oci ∧ oci.credentials = name ∧ name ≠ []

/-- A manifest requires a credential that is not spared. -/
def Wants (spared : Text → Bool) (raw : Bytes) : Prop :=
  ∃ m, raw ≠ [] ∧ ManifestDocument.parse raw = .ok m ∧
    ∃ name, (requiresOf (some m)).Requests (.credential name) ∧ spared name = false

/-- The answers that tell two requests apart. -/
def Telling (spared : Text → Bool) : Program.Event (Ask μ) Ask.Ret → Prop
  | ⟨.cachedManifest _, some raw⟩ => Wants spared raw
  | ⟨.manifest _, .ok (.ok raw)⟩ => Wants spared raw
  | _ => False

section Parts

variable {f : WasmFunction ε J B P} {spared : Text → Bool} {raw raw' : Buffer}
variable {req req' : RunFunctionRequest P}

omit [PolicyParser Value.str ε] [HttpLibrary] [DocumentLibrary] [DockerConfigLibrary]
  [Compose.StructBody B] in
theorem chooseSource_twins (h : Twins spared raw raw' req req') (input : Input J)
    (admitted : Admitted ε) :
    chooseSource f raw'.bytes req' input admitted = chooseSource f raw.bytes req input admitted := by
  rcases h.req_eq with ⟨credentials, rfl, -⟩
  have hskip : ∀ tag, skip f raw'.bytes tag = skip f raw.bytes tag := by
    intro tag
    unfold skip
    rw [h.noopResponse_eq]
  unfold chooseSource
  rw [hskip]
  rfl

omit [Expressions ε Value] [PolicyParser Value.str ε] [HttpLibrary] [DocumentLibrary]
  [Compose.StructBody B] in
theorem pullCredential_twins (h : Twins spared raw raw' req req') {source : ModuleSource}
    (hpull : ∀ oci, source.oci = some oci → source.type = typeOci ∧ oci.credentials ≠ [] →
      spared oci.credentials = true) :
    pullCredential f req' source = pullCredential f req source := by
  rcases h.req_eq with ⟨credentials, rfl, hlookup⟩
  unfold pullCredential
  cases hoci : source.oci with
  | none => rfl
  | some oci =>
      dsimp only
      by_cases hpulls : source.type = typeOci ∧ oci.credentials ≠ []
      · have hdata : credentialData f { req with credentials := credentials } oci.credentials =
            credentialData f req oci.credentials := by
          rw [credentialData, credentialData, hlookup _ (hpull oci hoci hpulls)]
        rw [if_pos hpulls, if_pos hpulls, hdata]
      · rw [if_neg hpulls, if_neg hpulls]

omit [HttpLibrary] [DocumentLibrary] [Compose.StructBody B] in
/-- What is settled at the start is the same, but for the request itself. -/
theorem choose_twins (h : Twins spared raw raw' req req')
    (hpull : ∀ name, Pulls f req name → spared name = true) :
    choose f raw'.bytes = (choose f raw.bytes).map fun asked => { asked with req := req' } := by
  have hinput : readInput f req' = readInput f req := by
    rcases h.req_eq with ⟨credentials, rfl, -⟩
    rfl
  unfold choose decodeRequest
  rw [h.decoded, h.decoded']
  simp only [orError, ok_bind, hinput, chooseSource_twins h]
  cases hread : readInput f req with
  | error e => rfl
  | ok input =>
      simp only [ok_bind]
      cases hrequest : admitInput f input with
      | error e => rfl
      | ok admitted =>
          simp only [ok_bind]
          cases hsource : chooseSource f raw.bytes req input admitted with
          | error e => rfl
          | ok source =>
              have hpulls : pullCredential f req' source = pullCredential f req source := by
                refine pullCredential_twins h fun oci hoci hnamed => hpull _ ?_
                exact ⟨input, admitted, source, oci, mapError_eq_ok.1 hread,
                  admitInput_eq_ok.1 hrequest, chooseSource_eq_ok.1 hsource, hnamed.1, hoci, rfl,
                  hnamed.2⟩
              simp only [ok_bind, hpulls]
              cases requireSignature f source with
              | error e => rfl
              | ok required =>
                  simp only [ok_bind]
                  cases pullCredential f req source with
                  | error e => rfl
                  | ok pulled => rfl

end Parts

section Request

variable (asked : Asked ε J P) (req' : RunFunctionRequest P)

omit [PolicyParser Value.str ε] [HttpLibrary] [DocumentLibrary] [DockerConfigLibrary]
  [Compose.StructBody B] [Expressions ε Value] [UnicodeTables] in
theorem resolveTarget_req :
    resolveTarget (μ := μ) { asked with req := req' } = resolveTarget asked := by
  refine congrArg (Program.ask _) (funext fun r => ?_)
  rcases r with e | e | target
  · rfl
  · rfl
  · rfl

omit [Expressions ε Value] [PolicyParser Value.str ε] [UnicodeTables] [HttpLibrary]
  [DocumentLibrary] [Compose.StructBody B] in
theorem verifyWith_req (target : Target) (reference : OciReference) (config : Option Bytes) :
    verifyWith (μ := μ) { asked with req := req' } target reference config =
      verifyWith asked target reference config := by
  refine congrArg (Program.ask _) (funext fun r => ?_)
  rcases r with e | e | ⟨⟩
  · rfl
  · rfl
  · rfl

omit [Expressions ε Value] [PolicyParser Value.str ε] [HttpLibrary] [DocumentLibrary]
  [Compose.StructBody B] in
/-- The module is got without a look at the request. -/
theorem serve_req (f : WasmFunction ε J B P) :
    serve (μ := μ) f { asked with req := req' } = serve f asked := by
  have hverify : ∀ target, verifySignature (μ := μ) f { asked with req := req' } target =
      verifySignature f asked target := by
    intro target
    unfold verifySignature
    simp only [verifyWith_req]
  simp only [serve, resolveTarget_req, hverify]

omit [PolicyParser Value.str ε] [HttpLibrary] [DocumentLibrary] [DockerConfigLibrary] in
theorem execute_req (f : WasmFunction ε J B P) (credentials : P.MapOf .credentials)
    (deadline : Option Nat) (target : Target) (m : μ) (prepared : Prepared) :
    execute f { asked with req := { asked.req with credentials := credentials } } deadline target m
        prepared =
      execute f asked deadline target m prepared := by
  refine congrArg (Program.ask _) (funext fun now => congrArg (Program.ask _) (funext fun r => ?_))
  rcases r with e | e | out
  · rfl
  · rfl
  · rfl

end Request

section Handler

variable {f : WasmFunction ε SchemaLibrary.Json B P} {spared : Text → Bool} {raw raw' : Buffer}
variable {req req' : RunFunctionRequest P}

omit [PolicyParser Value.str ε] [UnicodeTables] [DockerConfigLibrary] [Compose.StructBody B] in
/-- What a run may do and what it is given is the same, when its manifest requires nothing that is
not spared. -/
theorem prepare_twins (h : Twins spared raw raw' req req') {asked : Asked ε SchemaLibrary.Json P}
    (hasked : asked.req = req) (target : Target) {manifest : Option ManifestDocument}
    (hvalid : ∀ m, manifest = some m → m.toManifest.validate = .ok ())
    (hwants : ∀ name, (requiresOf manifest).Requests (.credential name) → spared name = true) :
    prepare f { asked with req := req' } raw'.bytes target manifest =
      prepare f asked raw.bytes target manifest := by
  subst hasked
  have hguest : ∀ {pull : Text} {granted : Finset Text}, (∀ name ∈ granted, spared name = true) →
      guestBytes f.build pull granted req' raw'.bytes =
        guestBytes f.build pull granted asked.req raw.bytes := h.guestBytes_eq f.build
  rcases h.req_eq with ⟨credentials, rfl, hlookup⟩
  have hsame : admitManifest f
      { asked with req := { asked.req with credentials := credentials } } target manifest =
      admitManifest f asked target manifest := rfl
  unfold prepare
  rw [hsame]
  cases hcaps : admitManifest f asked target manifest with
  | error e => rfl
  | ok caps =>
      rcases (admitManifest_eq_ok hvalid).1 hcaps with ⟨-, rfl⟩
      simp only [ok_bind]
      refine bind_congr fun _ => ?_
      have henv : stepEnv ((requiresOf manifest).exactly f.egress).env
          ((requiresOf manifest).exactly f.egress).credentials
          (sourcesOf f { asked with req := { asked.req with credentials := credentials } }) =
          stepEnv ((requiresOf manifest).exactly f.egress).env
            ((requiresOf manifest).exactly f.egress).credentials (sourcesOf f asked) := by
        have hcredential : ∀ name, (requiresOf manifest).Requests (.credential name) →
            (mapValues f.sdk.credentials credentials).lookup name =
              (mapValues f.sdk.credentials asked.req.credentials).lookup name := by
          intro name hname
          rw [lookup_mapValues, lookup_mapValues, hlookup name (hwants name hname)]
        exact stepEnv_congr rfl (fun b hb => hcredential _ (Or.inl ⟨b, hb, rfl⟩))
          fun name hname => hcredential name (Or.inr hname)
      rw [henv]
      refine bind_congr fun env => ?_
      have hwithheld : withholdFrom f
          { asked with req := { asked.req with credentials := credentials } } raw'.bytes
          ((requiresOf manifest).exactly f.egress) =
          withholdFrom f asked raw.bytes ((requiresOf manifest).exactly f.egress) := by
        unfold withholdFrom
        rw [hguest fun name hname => hwants name ?_]
        simp only [forwardedCredentials, List.mem_toFinset, List.mem_append, List.mem_map] at hname
        exact hname
      rw [hwithheld]

omit [UnicodeTables] [DockerConfigLibrary] in
/-- A manifest that is read is valid, and the answer that it was read from says what it requires. -/
theorem readManifest_alike (target : Target) :
    Alike (fun r r' => r = r' ∧ ∀ manifest, r = .ok manifest →
        (∀ m, manifest = some m → m.toManifest.validate = .ok ()) ∧
        ∀ name, (requiresOf manifest).Requests (.credential name) → spared name = true)
      (Telling (μ := μ) spared) (readManifest target) (readManifest target) := by
  have hparsed : ∀ {bytes manifest}, ¬ Wants spared bytes →
      parseManifest target bytes = .ok manifest →
        (∀ m, manifest = some m → m.toManifest.validate = .ok ()) ∧
        ∀ name, (requiresOf manifest).Requests (.credential name) → spared name = true := by
    intro bytes manifest hquiet hparse
    unfold parseManifest at hparse
    by_cases hempty : bytes = []
    · rw [if_pos hempty] at hparse
      cases hparse
      refine ⟨fun _ heq => (nomatch heq), fun name hname => ?_⟩
      rcases hname with ⟨b, hb, -⟩ | hname
      · cases hb
      · cases hname
    · rw [if_neg hempty] at hparse
      cases hread : ManifestDocument.parse bytes with
      | error e =>
          rw [hread] at hparse
          cases hparse
      | ok m =>
          rw [hread] at hparse
          cases hparse
          refine ⟨?_, fun name hname => ?_⟩
          · rintro _ ⟨⟩
            exact (ManifestDocument.parse_eq_ok_iff.1 hread).2.1
          · by_contra hspared
            exact hquiet ⟨m, hempty, hread, name, hname, Bool.eq_false_iff.2 hspared⟩
  refine .ask fun cached hcached => ?_
  cases cached with
  | some bytes => exact .done ⟨rfl, fun _ => hparsed hcached⟩
  | none =>
      refine .ask fun r hr => ?_
      rcases r with e | e | bytes
      · exact .done ⟨rfl, fun _ heq => nomatch heq⟩
      · exact .done ⟨rfl, fun _ heq => nomatch heq⟩
      · exact .done ⟨rfl, fun _ => hparsed hr⟩

theorem handleRaw_alike (h : Twins spared raw raw' req req')
    (hpull : ∀ name, Pulls f req name → spared name = true) (deadline : Option Nat) :
    Alike Eq (Telling (μ := μ) spared) (handleRaw f raw.bytes deadline)
      (handleRaw f raw'.bytes deadline) := by
  unfold handleRaw
  rw [choose_twins h hpull]
  -- the two are one from here on, but for the request that they hold
  cases hchoose : choose f raw.bytes with
  | error answer => exact .done rfl
  | ok asked =>
      rw [finish_ok, Except.map, finish_ok]
      have hasked : asked.req = req :=
        Option.some.inj ((choose_eq_ok.1 hchoose).decoded.symm.trans h.decoded)
      have hserve : Alike (fun r r' => r = r' ∧ ∀ a, r = .ok a → True) (Telling (μ := μ) spared)
          (serve f asked) (serve f { asked with req := req' }) := by
        rw [serve_req asked req' f]
        exact Alike.of_eq (fun _ => ⟨rfl, fun _ _ => trivial⟩) _
      refine alike_finish hserve ?_
      rintro ⟨target, m⟩ -
      refine alike_finish (readManifest_alike target) ?_
      rintro manifest ⟨hvalid, hwants⟩
      have hprepare := prepare_twins (f := f) h hasked target hvalid hwants
      rcases h.req_eq with ⟨credentials, rfl, -⟩
      subst hasked
      rw [hprepare]
      simp only [execute_req]
      exact Alike.of_eq (fun _ => rfl) _

end Handler
end Requests

/-! ## Two values of one credential -/

section Sample

attribute [local instance] noDockerConfig oneUrl plainDocuments asciiTables

/-- A credential `seed` without a value. -/
def bareSeed : Buffer where
  bytes := [0x3a, 0x06, 0x0a, 0x04, 0x73, 0x65, 0x65, 0x64]
  fits := by decide

/-- A credential `seed` with a value. -/
def fullSeed : Buffer where
  bytes := [0x3a, 0x09, 0x0a, 0x04, 0x73, 0x65, 0x65, 0x64, 0x12, 0x01, 0x07]
  fits := by decide

def butSeed (name : Text) : Bool := name ≠ "seed".toList

end Sample
end Runner
end FunctionWasm

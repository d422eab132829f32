import FunctionWasm.Foundation.EntryMap
import FunctionWasm.Foundation.Utf8
import FunctionWasm.Validate.Manifest

/-!
# SandboxEnv — the variables a module reads from step credentials

A module's bindings are resolved against the credentials of its request.  Values are bytes, variables
are text, and the credential that the module was pulled with is no source.

* `materialize`, `checkCredentials` and `refusePullCredential` are the three places that hold a
  manifest against what is withheld; `stepEnv` is what a run makes of the first two.
* `Resolves` is a binding that is read, `Faithful` an environment that holds what the request does.
* `env_faithful_iff` says when it does, and that nothing but what is refused of every run is refused
  without one.
-/

namespace FunctionWasm

namespace SandboxEnv

open Authz Egress
open HttpLibrary (debug)

/-! ## The request -/

/-- A step credential: what its data holds, by key, when it has any. -/
structure Credentials where
  source : Option (EntryMap Text Bytes)

/-- Where bindings are resolved from. -/
structure Sources where
  credentials : EntryMap Text Credentials
  /-- The pull credential; empty when there is none. -/
  withheld : Text

abbrev Environ := EntryMap Text Text

section Environment

variable [HttpLibrary]

/-! ## What the runtime does -/

def pullSourceRefusal (field credName : Text) : Text :=
  field ++ ": credential ".toList ++ debug credName ++
    " is the pull credential and cannot be used as a source".toList

def resolveCredential (field credName key : Text) (src : Sources) : Except Text Text :=
  if credName = src.withheld then .error (pullSourceRefusal field credName)
  else
    match src.credentials.lookup credName with
    | none =>
        .error (field ++ ": the request carries no credential ".toList ++ debug credName ++
          "; declare it on the pipeline step".toList)
    | some cred =>
        match cred.source with
        | none =>
            .error (field ++ ": credential ".toList ++ debug credName ++ " has no data".toList)
        | some data =>
            match data.lookup key with
            | none =>
                .error (field ++ ": credential ".toList ++ debug credName ++ " has no key ".toList ++
                  debug key)
            | some v => .ok (utf8Lossy v)

omit [HttpLibrary] in
/-- How a binding is named in a refusal. -/
def bindingField (i : Nat) (b : EnvBinding) : Text :=
  entryName "requires.env".toList i ++ " (".toList ++ b.name ++ ")".toList

/-- The loop of `materialize`, from binding `i` on. -/
def materializeFrom (src : Sources) : Nat → Environ → List EnvBinding → Except Text Environ
  | _, env, [] => .ok env
  | i, env, b :: rest => do
      let field := bindingField i b
      let v ← resolveCredential field b.fromCredential.name b.fromCredential.key src
      if '\x00' ∈ v then
        .error (field ++ ": the value of ".toList ++ b.name ++
          " contains a NUL byte, which WASI cannot pass".toList)
      else materializeFrom src (i + 1) (env.insert b.name v) rest

/-- The environment that a run's bindings are resolved to. -/
def materialize (bindings : List EnvBinding) (src : Sources) : Except Text Environ :=
  materializeFrom src 0 ∅ bindings

/-- Refuses what names the pull credential. -/
def refusePullCredential (bindings : List EnvBinding) (required : List Text) (withheld : Text) :
    Except Text Unit :=
  if withheld = [] then .ok ()
  else do
    checkAll
      (fun p => demand (p.1.fromCredential.name ≠ withheld)
        (pullSourceRefusal (bindingField p.2 p.1) withheld))
      bindings.zipIdx
    checkAll
      (fun p => demand (p.1 ≠ withheld)
        (entryName "requires.credentials".toList p.2 ++ ": credential ".toList ++ debug p.1 ++
          " is the pull credential and is never forwarded to the module".toList))
      required.zipIdx

/-- The request carries every credential that is required whole, and none is the pull credential. -/
def checkCredentials (required : List Text) (src : Sources) : Except Text Unit := do
  refusePullCredential [] required src.withheld
  checkAll
    (fun p => demand (src.credentials.lookup p.1).isSome
      (entryName "requires.credentials".toList p.2 ++
        ": the request carries no credential ".toList ++ debug p.1 ++
        "; declare it on the pipeline step".toList))
    required.zipIdx

/-- What a run makes of them, `WasmFunction::handle_raw`. -/
def stepEnv (bindings : List EnvBinding) (required : List Text) (src : Sources) :
    Except Text Environ := do
  let env ← if bindings.isEmpty then .ok ∅ else materialize bindings src
  checkCredentials required src
  return env

/-! ## What is resolved -/

section Resolved

omit [HttpLibrary]

/-- The bytes that a binding names. -/
def Sources.value (src : Sources) (b : EnvBinding) : Option Bytes :=
  ((src.credentials.lookup b.fromCredential.name).bind Credentials.source).bind fun data =>
    data.lookup b.fromCredential.key

/-- A binding that is read: not of what is withheld, of a value that is there and without a zero. -/
def Resolves (src : Sources) (b : EnvBinding) : Prop :=
  b.fromCredential.name ≠ src.withheld ∧ ∃ v, src.value b = some v ∧ (0 : UInt8) ∉ v

/-- What a binding is resolved to. -/
def Sources.text (src : Sources) (b : EnvBinding) : Text :=
  utf8Lossy ((src.value b).getD [])

end Resolved

theorem resolveCredential_eq_ok {field t : Text} {src : Sources} {b : EnvBinding} :
    resolveCredential field b.fromCredential.name b.fromCredential.key src = .ok t ↔
      b.fromCredential.name ≠ src.withheld ∧ ∃ v, src.value b = some v ∧ utf8Lossy v = t := by
  unfold resolveCredential Sources.value
  by_cases hpull : b.fromCredential.name = src.withheld
  · simp [hpull]
  rw [if_neg hpull]
  cases src.credentials.lookup b.fromCredential.name with
  | none => simp
  | some cred =>
      cases hsource : cred.source with
      | none => simp [hsource]
      | some data =>
          cases hvalue : data.lookup b.fromCredential.key with
          | none => simp [hsource, hvalue]
          | some v => simp [hsource, hvalue, hpull]

/-- Every binding is read, and each is an entry. -/
theorem materializeFrom_eq_ok {src : Sources} {i : Nat} {env env' : Environ}
    {bindings : List EnvBinding} :
    materializeFrom src i env bindings = .ok env' ↔
      (∀ b ∈ bindings, Resolves src b) ∧
        insertAll EnvBinding.name src.text env bindings = env' := by
  induction bindings generalizing i env with
  | nil => simp [materializeFrom, insertAll]
  | cons b rest ih =>
      rw [materializeFrom, bind_eq_ok, List.forall_mem_cons]
      simp only [resolveCredential_eq_ok]
      constructor
      · rintro ⟨_, ⟨hpull, v, hvalue, rfl⟩, hrest⟩
        split at hrest
        · cases hrest
        · next hzero =>
            obtain ⟨hall, henv⟩ := ih.1 hrest
            have htext : src.text b = utf8Lossy v := by simp [Sources.text, hvalue]
            refine ⟨⟨⟨hpull, v, hvalue, mt zero_mem_utf8Lossy.2 hzero⟩, hall⟩, ?_⟩
            rw [← henv, ← htext]
            rfl
      · rintro ⟨⟨⟨hpull, v, hvalue, hzero⟩, hall⟩, henv⟩
        have htext : src.text b = utf8Lossy v := by simp [Sources.text, hvalue]
        refine ⟨utf8Lossy v, ⟨hpull, v, hvalue, rfl⟩, ?_⟩
        rw [if_neg (mt zero_mem_utf8Lossy.1 hzero), ih, ← htext]
        exact ⟨hall, henv⟩

/-! ## Checked bindings -/

theorem validateBindingsFrom_names {field : Text} {i : Nat} {seen : List (Text × Text)}
    {bindings : List EnvBinding} (h : validateBindingsFrom field i seen bindings = .ok ()) :
    (bindings.map EnvBinding.name).Nodup ∧ ∀ b ∈ bindings, b.name ∉ seen.map Prod.fst := by
  induction bindings generalizing i seen with
  | nil => simp
  | cons b rest ih =>
      unfold validateBindingsFrom at h
      dsimp only at h
      split at h
      · cases h
      split at h
      · cases h
      split at h
      · cases h
      split at h
      · cases h
      next hseen =>
      obtain ⟨hnodup, hrest⟩ := ih h
      have hnew : b.name ∉ seen.map Prod.fst := by
        intro hmem
        obtain ⟨p, hp, hname⟩ := List.mem_map.1 hmem
        simpa [hname] using List.lookup_eq_none_iff.1 hseen p hp
      have hkept : ∀ c ∈ rest, c.name ≠ b.name ∧ c.name ∉ seen.map Prod.fst := by
        intro c hc
        simpa only [List.map_cons, List.mem_cons, not_or] using hrest c hc
      rw [List.map_cons, List.nodup_cons, List.forall_mem_cons]
      refine ⟨⟨fun hmem => ?_, hnodup⟩, hnew, fun c hc => (hkept c hc).2⟩
      obtain ⟨c, hc, hname⟩ := List.mem_map.1 hmem
      exact (hkept c hc).1 hname

/-- Bindings that a manifest is accepted with. -/
structure CheckedBindings where
  list : List EnvBinding
  checked : validateBindings "requires.env".toList list = .ok ()

namespace CheckedBindings

variable (bindings : CheckedBindings)

theorem names : (bindings.list.map EnvBinding.name).Nodup :=
  (validateBindingsFrom_names bindings.checked).1

theorem named : ∀ b ∈ bindings.list, b.fromCredential.name ≠ [] :=
  validateBindingsFrom_ok bindings.checked

end CheckedBindings

/-! ## A faithful environment -/

/-- An entry for each binding, of the very bytes that it names. -/
structure Faithful (src : Sources) (bindings : List EnvBinding) (env : Environ) : Prop where
  entries : env.keys.Perm (bindings.map EnvBinding.name)
  value : ∀ b ∈ bindings, ∃ t, env.lookup b.name = some t ∧ src.value b = some (textBytes t)
  no_zero : ∀ b ∈ bindings, ∀ v ∈ src.value b, (0 : UInt8) ∉ v
  not_withheld : ∀ b ∈ bindings, b.fromCredential.name ≠ src.withheld

/-- Every value that is read is text. -/
def AllText (src : Sources) (bindings : List EnvBinding) : Prop :=
  ∀ b ∈ bindings, ∀ v ∈ src.value b, IsUtf8 v

theorem materialize_faithful_iff {bindings : CheckedBindings} {src : Sources} {env : Environ}
    (h : materialize bindings.list src = .ok env) :
    Faithful src bindings.list env ↔ AllText src bindings.list := by
  obtain ⟨hall, henv⟩ := materializeFrom_eq_ok.1 h
  have hlookup : ∀ b ∈ bindings.list, env.lookup b.name = some (src.text b) := by
    intro b hb
    rw [← henv]
    exact lookup_insertAll bindings.names hb
  have htext : ∀ {b v}, src.value b = some v → src.text b = utf8Lossy v := by
    intro b v hv
    simp [Sources.text, hv]
  constructor
  · intro hfaithful b hb v hv
    obtain ⟨t, ht, hbytes⟩ := hfaithful.value b hb
    rw [hlookup b hb, Option.some_inj, htext hv] at ht
    rw [hv, Option.some_inj, ← ht] at hbytes
    exact textBytes_utf8Lossy_iff.1 hbytes.symm
  · intro hutf8
    refine ⟨?_, ?_, ?_, fun b hb => (hall b hb).1⟩
    · rw [← henv, keys_insertAll bindings.names (by simp)]
      simp [List.reverse_perm]
    · intro b hb
      obtain ⟨-, v, hv, -⟩ := hall b hb
      refine ⟨_, hlookup b hb, ?_⟩
      rw [htext hv, textBytes_utf8Lossy_iff.2 (hutf8 b hb v hv), hv]
    · intro b hb v hv
      obtain ⟨-, w, hw, hzero⟩ := hall b hb
      rw [hv, Option.some_inj] at hw
      exact hw ▸ hzero

/-! ## What is withheld -/

/-- A run's bindings and credentials are not refused. -/
def Accepted (bindings : List EnvBinding) (required : List Text) (src : Sources) : Prop :=
  (∃ env, materialize bindings src = .ok env) ∧ checkCredentials required src = .ok ()

/-- A request whose run is refused with the pull credential withheld, and for nothing else. -/
def RefusedForPull (bindings : List EnvBinding) (required : List Text) (withheld : Text)
    (credentials : EntryMap Text Credentials) : Prop :=
  ¬ Accepted bindings required ⟨credentials, withheld⟩ ∧
    Accepted bindings required ⟨credentials, []⟩

theorem stepEnv_eq (bindings : List EnvBinding) (required : List Text) (src : Sources) :
    stepEnv bindings required src =
      (materialize bindings src >>= fun env =>
        checkCredentials required src >>= fun _ => .ok env) := by
  cases bindings <;> rfl

theorem accepted_iff {bindings : List EnvBinding} {required : List Text} {src : Sources} :
    Accepted bindings required src ↔ ∃ env, stepEnv bindings required src = .ok env := by
  rw [stepEnv_eq]
  simp only [bind_eq_ok, Accepted]
  constructor
  · rintro ⟨⟨env, henv⟩, hcheck⟩
    exact ⟨env, env, henv, (), hcheck, rfl⟩
  · rintro ⟨env, _, henv, ⟨⟩, hcheck, -⟩
    exact ⟨⟨_, henv⟩, hcheck⟩

/-- What is withheld refuses the first binding that names it. -/
theorem materializeFrom_withheld {credentials : EntryMap Text Credentials} {withheld : Text}
    {i : Nat} {env env' : Environ} {bindings : List EnvBinding}
    (h : materializeFrom ⟨credentials, []⟩ i env bindings = .ok env') :
    materializeFrom ⟨credentials, withheld⟩ i env bindings =
      (checkAll
        (fun p => demand (p.1.fromCredential.name ≠ withheld)
          (pullSourceRefusal (bindingField p.2 p.1) withheld))
        (bindings.zipIdx i) >>= fun _ => .ok env') := by
  induction bindings generalizing i env with
  | nil => exact h
  | cons b rest ih =>
      rw [materializeFrom, bind_eq_ok] at h
      obtain ⟨t, ht, hrest⟩ := h
      rw [materializeFrom, List.zipIdx_cons, checkAll]
      by_cases hpull : b.fromCredential.name = withheld
      · simp [resolveCredential, hpull, demand, bind, Except.bind]
      · have hsame : resolveCredential (bindingField i b) b.fromCredential.name
            b.fromCredential.key ⟨credentials, withheld⟩ = .ok t := by
          rw [resolveCredential_eq_ok] at ht ⊢
          exact ⟨hpull, ht.2⟩
        split at hrest
        · cases hrest
        · next hzero =>
            have hother : demand (b.fromCredential.name ≠ withheld)
                (pullSourceRefusal (bindingField i b) withheld) = .ok () :=
              demand_eq_ok.2 (decide_eq_true hpull)
            rw [hsame, hother]
            simp only [ok_bind, if_neg hzero]
            exact ih hrest

/-- A run that nothing else refuses is refused as it is without a request, in the same words. -/
theorem stepEnv_withheld {bindings : List EnvBinding} {required : List Text} {withheld : Text}
    {credentials : EntryMap Text Credentials}
    (h : Accepted bindings required ⟨credentials, []⟩) :
    stepEnv bindings required ⟨credentials, withheld⟩ =
      (refusePullCredential bindings required withheld >>= fun _ =>
        stepEnv bindings required ⟨credentials, []⟩) := by
  obtain ⟨⟨env, henv⟩, hcheck⟩ := h
  by_cases hnone : withheld = []
  · simp [refusePullCredential, hnone]
  have hcarried : ∀ src : Sources, src.credentials = credentials →
      checkCredentials required src = refusePullCredential [] required src.withheld := by
    intro src hsrc
    have hok := (check_bind_eq_ok.1 hcheck).2
    unfold checkCredentials
    rw [hsrc, hok]
    cases refusePullCredential [] required src.withheld <;> rfl
  have hstep : stepEnv bindings required ⟨credentials, []⟩ = .ok env := by
    rw [stepEnv_eq, henv, ok_bind, hcheck]
    rfl
  have henv' : materialize bindings ⟨credentials, withheld⟩ = _ := materializeFrom_withheld henv
  rw [stepEnv_eq, henv', hcarried _ rfl, hstep]
  unfold refusePullCredential
  rw [if_neg hnone, if_neg hnone]
  simp only [List.zipIdx_nil, checkAll, ok_bind]
  cases checkAll _ bindings.zipIdx with
  | error e => rfl
  | ok _ => rfl

/-- There is a request that nothing but what is withheld can refuse. -/
theorem exists_accepted (bindings : CheckedBindings) (required : List Text) :
    ∃ credentials, Accepted bindings.list required ⟨credentials, []⟩ := by
  let data : EntryMap Text Bytes :=
    insertAll (fun b : EnvBinding => b.fromCredential.key) (fun _ => []) ∅ bindings.list
  let credentials : EntryMap Text Credentials :=
    insertAll id (fun _ => ⟨some data⟩) ∅
      (bindings.list.map (fun b => b.fromCredential.name) ++ required)
  have hvalue : ∀ b ∈ bindings.list, Sources.value ⟨credentials, []⟩ b = some [] := by
    intro b hb
    have hcred : credentials.lookup b.fromCredential.name = some ⟨some data⟩ :=
      lookup_insertAll_const (.inl (by simp; exact .inl ⟨b, hb, rfl⟩))
    have hdata : data.lookup b.fromCredential.key = some [] :=
      lookup_insertAll_const (.inl (List.mem_map_of_mem hb))
    simp [Sources.value, hcred, hdata]
  refine ⟨credentials, ⟨_, materializeFrom_eq_ok.2 ⟨fun b hb => ?_, rfl⟩⟩, ?_⟩
  · exact ⟨bindings.named b hb, [], hvalue b hb, by simp⟩
  · refine check_bind_eq_ok.2 ⟨if_pos rfl, checkAll_eq_ok.2 fun p hp => ?_⟩
    have hcred : credentials.lookup p.1 = some ⟨some data⟩ := by
      refine lookup_insertAll_const (.inl ?_)
      simp [List.fst_mem_of_mem_zipIdx hp]
    simp [hcred]

theorem refusePullCredential_iff (bindings : CheckedBindings) (required : List Text)
    (withheld : Text) :
    refusePullCredential bindings.list required withheld ≠ .ok () ↔
      ∃ credentials, RefusedForPull bindings.list required withheld credentials := by
  constructor
  · intro hrefused
    obtain ⟨credentials, haccepted⟩ := exists_accepted bindings required
    refine ⟨credentials, fun hw => ?_, haccepted⟩
    obtain ⟨env, henv⟩ := accepted_iff.1 hw
    rw [stepEnv_withheld haccepted] at henv
    exact hrefused (check_bind_eq_ok.1 henv).1
  · rintro ⟨credentials, hw, haccepted⟩ hok
    apply hw
    rw [accepted_iff, stepEnv_withheld haccepted, hok]
    exact accepted_iff.1 haccepted

/-- A value that is not text is the one thing that is not kept; and what is refused without a request
is what a run refuses, for the pull credential and in the same words. -/
theorem env_faithful_iff (bindings : CheckedBindings) (required : List Text) (src : Sources) :
    ((∀ env, materialize bindings.list src = .ok env → Faithful src bindings.list env) ↔
        ((∀ b ∈ bindings.list, Resolves src b) → AllText src bindings.list)) ∧
      (refusePullCredential bindings.list required src.withheld ≠ .ok () ↔
        ∃ credentials, RefusedForPull bindings.list required src.withheld credentials) ∧
      ∀ credentials, Accepted bindings.list required ⟨credentials, []⟩ →
        stepEnv bindings.list required ⟨credentials, src.withheld⟩ =
          (refusePullCredential bindings.list required src.withheld >>= fun _ =>
            stepEnv bindings.list required ⟨credentials, []⟩) := by
  refine ⟨⟨fun h hall => ?_, fun h env henv => ?_⟩, refusePullCredential_iff bindings required _,
    fun _ => stepEnv_withheld⟩
  · have henv : materialize bindings.list src =
        .ok (insertAll EnvBinding.name src.text ∅ bindings.list) :=
      materializeFrom_eq_ok.2 ⟨hall, rfl⟩
    exact (materialize_faithful_iff henv).1 (h _ henv)
  · exact (materialize_faithful_iff henv).2 (h (materializeFrom_eq_ok.1 henv).1)

end Environment

/-! ## A value that is no text -/

section Sample

attribute [local instance] oneUrl

/-- One variable, read from the password of a credential. -/
def passwordBinding : CheckedBindings where
  list :=
    [{ name := "PASSWORD".toList
       fromCredential := { name := "db".toList, key := "password".toList } }]
  checked := by decide

/-- The password is one byte, which is no text. -/
def latinPassword : Sources where
  credentials :=
    AList.singleton "db".toList ⟨some (AList.singleton "password".toList [0xE9])⟩
  withheld := []

theorem byte_replaced :
    materialize passwordBinding.list latinPassword =
        .ok (AList.singleton "PASSWORD".toList [replacement]) ∧
      ¬ Faithful latinPassword passwordBinding.list
        (AList.singleton "PASSWORD".toList [replacement]) := by
  have henv : materialize passwordBinding.list latinPassword =
      .ok (AList.singleton "PASSWORD".toList [replacement]) := rfl
  refine ⟨henv, fun hfaithful => ?_⟩
  have htext := (materialize_faithful_iff henv).1 hfaithful _ (List.mem_singleton.2 rfl) [0xE9] rfl
  exact absurd htext (by decide)

end Sample

end SandboxEnv
end FunctionWasm

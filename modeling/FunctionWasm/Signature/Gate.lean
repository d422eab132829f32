import FunctionWasm.Policy.Repository
import FunctionWasm.Signature.PerRepository
import FunctionWasm.Source.From
import FunctionWasm.Source.Resolver

/-!
# Gate — a module that must be signed is verified before it is served

Whether a module must carry a signature is settled from its source, before the source is resolved;
what must carry one and is not in a registry is refused, the rest is verified before it is loaded.

* `serveModule` is the part of a request from its concrete source to the load of the module.
* `FailsClosed` is what a policy that requires every signature is meant to come to.
* `failsClosed_iff` says for which sources it does.
-/

namespace FunctionWasm
namespace Gate

open Authz Cedar Cosign

section Serve

variable {ε κ : Type} [Expressions ε Value] [UnicodeTables] [SigstoreLibrary]

/-- What a request is served with; `κ` is the data of a credential. -/
structure Runner (ε κ : Type) [SigstoreLibrary] where
  policy : Option (OperatorPolicy ε)
  verifier : Option Verifier
  resolvePath : Text → Text → Except Text Resolved
  authFor : Text → κ → Except Text Unit

/-- The credential of the request that pulls the module, where the source names one. -/
def pullAuth (r : Runner ε κ) (credentials : Text → Option κ) (src : ModuleSource) :
    Except Text Unit :=
  match src.oci with
  | none => .ok ()
  | some oci =>
      if src.type = typeOci ∧ oci.credentials ≠ [] then
        match credentials oci.credentials with
        | none =>
            .error ("cannot get credentials ".toList ++ UnicodeTables.debug oci.credentials ++
              " for module.oci: the request carries no such credential".toList)
        | some data =>
            let registry :=
              match parseOciReference oci.ref with
              | .ok reference => reference.registry
              | .error _ => []
            match r.authFor registry data with
            | .ok () => .ok ()
            | .error e =>
                .error ("cannot use credentials ".toList ++ UnicodeTables.debug oci.credentials ++
                  " for module.oci: ".toList ++ e)
      else .ok ()

/-- The verification of a resolved module. -/
def verifyModule (r : Runner ε κ) (src : ModuleSource) (resolved : Resolved) (s : Session) :
    Except Text Unit × Option Verifier × Session :=
  match r.verifier with
  | none =>
      (.error ("cannot verify module ".toList ++ resolved.description ++
        (": the operator policy requires a cosign signature, but the runtime has neither " ++
          "--cosign-key nor --cosign-trusted-root to verify it").toList), none, s)
  | some v =>
      match src.oci.map fun oci => parseOciReference oci.ref with
      | some (.ok reference) =>
          match v.verify (RegistryClient.new reference) reference s with
          | (.ok (), v, s) => (.ok (), some v, s)
          | (.error e, v, s) =>
              (.error ("cannot verify module ".toList ++ resolved.description ++ ": ".toList ++ e),
                some v, s)
      -- the source expects a validated reference
      | _ => (.error "validated".toList, some v, s)

/-- A request's way to its module: refused, or the module that is loaded and run. -/
def serveModule (r : Runner ε κ) (credentials : Text → Option κ) (src : ModuleSource)
    (s : Session) : Except Text Resolved × Option Verifier × Session :=
  let required := signatureRequired r.policy r.verifier.isSome src
  if required ∧ src.type ≠ typeOci then
    (.error ("cannot resolve module: ".toList ++ nonOciSignatureRefusal r.policy src), r.verifier, s)
  else
    match pullAuth r credentials src with
    | .error e => (.error e, r.verifier, s)
    | .ok () =>
        match resolve r.resolvePath src with
        | .error e => (.error ("cannot resolve module: ".toList ++ e), r.verifier, s)
        | .ok resolved =>
            if required then
              match verifyModule r src resolved s with
              | (.ok (), v, s) => (.ok resolved, v, s)
              | (.error e, v, s) => (.error e, v, s)
            else (.ok resolved, r.verifier, s)

/-- The module is in a registry and a verifier found it signed. -/
def Verified (r : Runner ε κ) (src : ModuleSource) (s : Session)
    (after : Option Verifier × Session) : Prop :=
  src.type = typeOci ∧ ∃ v v' oci reference,
    r.verifier = some v ∧ after.1 = some v' ∧ src.oci = some oci ∧
    parseOciReference oci.ref = .ok reference ∧
    v.verify (RegistryClient.new reference) reference s = (.ok (), v', after.2)

omit [Expressions ε Value] in
theorem verifyModule_ok {r : Runner ε κ} {src : ModuleSource} {resolved : Resolved} {s : Session}
    {after : Option Verifier × Session} (htype : src.type = typeOci)
    (h : verifyModule r src resolved s = (.ok (), after)) : Verified r src s after := by
  unfold verifyModule at h
  split at h
  · cases h
  · next v hv =>
      split at h
      · next reference hreference =>
          rcases Option.map_eq_some_iff.1 hreference with ⟨oci, hoci, hparse⟩
          split at h
          · next v' s' hverify =>
              cases h
              exact ⟨htype, v, v', oci, reference, hv, rfl, hoci, hparse, hverify⟩
          · cases h
      · cases h

/-- What must be signed is served only after it was found so. -/
theorem serveModule_ok {r : Runner ε κ} {credentials : Text → Option κ} {src : ModuleSource}
    {s : Session} {resolved : Resolved} {after : Option Verifier × Session}
    (hrequired : signatureRequired r.policy r.verifier.isSome src = true)
    (h : serveModule r credentials src s = (.ok resolved, after)) : Verified r src s after := by
  simp only [serveModule, hrequired, true_and, if_true] at h
  split at h
  · cases h
  · next htype =>
      split at h
      · cases h
      · split at h
        · cases h
        · split at h
          · next hverify =>
              cases h
              exact verifyModule_ok (not_not.1 htype) hverify
          · cases h

/-- What need not be signed is served as it resolves. -/
theorem serveModule_unsigned {r : Runner ε κ} {credentials : Text → Option κ} {src : ModuleSource}
    {s : Session} {resolved : Resolved}
    (hrequired : signatureRequired r.policy r.verifier.isSome src = false)
    (hauth : pullAuth r credentials src = .ok ())
    (hresolved : resolve r.resolvePath src = .ok resolved) :
    serveModule r credentials src s = (.ok resolved, r.verifier, s) := by
  simp [serveModule, hrequired, hauth, hresolved]

/-! ## A policy that requires every signature -/

/-- A signature is required, and no module is served without one. -/
def FailsClosed (policy : OperatorPolicy ε) (src : ModuleSource) : Prop :=
  (∀ configured, signatureRequired (some policy) configured src = true) ∧
    ∀ (κ : Type) (r : Runner ε κ) (credentials : Text → Option κ) (s : Session)
      (resolved : Resolved) (after : Option Verifier × Session),
      r.policy = some policy → serveModule r credentials src s = (.ok resolved, after) →
      Verified r src s after

omit [SigstoreLibrary] in
theorem signatureRequired_iff {policy : OperatorPolicy ε} {configured : Bool} {src : ModuleSource}
    (hpolicy : policy.policy.PermitsEvery (actionUid actionRequireSignature)) :
    signatureRequired (some policy) configured src = true ↔
      ∃ location, requirementLocation src = some location ∧
        location ∉ boundaryPrefixes location := by
  simp only [signatureRequired, Option.any_eq_true_iff_get]
  cases requirementLocation src with
  | none => simp
  | some location => simp [OperatorPolicy.requiresSignature_iff hpolicy]

/-- The whole of it follows from its first half. -/
theorem failsClosed_iff_required {policy : OperatorPolicy ε} {src : ModuleSource}
    (hpolicy : policy.policy.PermitsEvery (actionUid actionRequireSignature)) :
    FailsClosed policy src ↔
      ∃ location, requirementLocation src = some location ∧
        location ∉ boundaryPrefixes location := by
  constructor
  · intro h
    exact (signatureRequired_iff hpolicy).1 (h.1 true)
  · intro h
    refine ⟨fun configured => (signatureRequired_iff hpolicy).2 h, ?_⟩
    intro κ r credentials s resolved after hr hserve
    refine serveModule_ok ?_ hserve
    rw [hr]
    exact (signatureRequired_iff hpolicy).2 h

end Serve

/-! ## The sources whose location is decided about -/

section Locations

variable [UnicodeTables]

/-- The location of a URL is its own ancestor when its path ends in a slash, unless it holds a
NUL. -/
theorem httpLocation_self {scheme rest : Text}
    (hscheme : scheme = "http".toList ∨ scheme = "https".toList) (hhost : authorityOf rest ≠ []) :
    (scheme ++ "://".toList ++ Unicode.toLowercase (authorityOf rest) ++ pathOf rest) ∈
        boundaryPrefixes
          (scheme ++ "://".toList ++ Unicode.toLowercase (authorityOf rest) ++ pathOf rest) ↔
      (pathOf rest).getLast? = some '/' ∧ nul ∉ authorityOf rest ∧ nul ∉ pathOf rest := by
  have hslash : '/' ∉ Unicode.toLowercase (authorityOf rest) := by
    rw [Unicode.mem_toLowercase (by decide)]
    intro hmem
    simpa using List.all_eq_true.1 List.all_takeWhile '/' hmem
  have hlower : Unicode.toLowercase (authorityOf rest) ≠ [] := by
    rw [ne_eq, Unicode.toLowercase_eq_nil]
    exact hhost
  have hnul : nul ∈ Unicode.toLowercase (authorityOf rest) ↔ nul ∈ authorityOf rest :=
    Unicode.mem_toLowercase (by decide)
  -- only the host and the path can hold a NUL
  have hfront : nul ∉ scheme ++ "://".toList := by
    rcases hscheme with rfl | rfl <;> decide
  rw [self_mem_boundaryPrefixes]
  constructor
  · rintro ⟨p, heq, hne, hnulp⟩
    have hlast := congrArg List.getLast? heq
    rw [List.getLast?_append, List.getLast?_concat] at hlast
    cases hpath : pathOf rest with
    | nil =>
        -- without a path the last character is one of the host
        rw [hpath, List.getLast?_nil, Option.none_or, List.getLast?_append_of_ne_nil _ hlower] at hlast
        exact absurd (List.mem_of_getLast? hlast) hslash
    | cons c cs =>
        have hmem : ∀ x, x ∈ scheme ++ "://".toList ++ Unicode.toLowercase (authorityOf rest) ++
            pathOf rest → x = '/' ∨ x ∈ p := by
          intro x hx
          rw [heq] at hx
          simpa [or_comm] using hx
        have hnot : ∀ l : Text, l ⊆ scheme ++ "://".toList ++
            Unicode.toLowercase (authorityOf rest) ++ pathOf rest → nul ∉ l := by
          intro l hl hmem'
          rcases hmem nul (hl hmem') with h | h
          · exact absurd h (by decide)
          · exact hnulp h
        refine ⟨?_, ?_, ?_⟩
        · rw [hpath] at hlast
          simpa using hlast
        · rw [← hnul]
          exact hnot _ (by intro x hx; simp [hx])
        · rw [← hpath]
          exact hnot _ (by intro x hx; simp [hx])
  · rintro ⟨hlast, hhostnul, hpathnul⟩
    rcases List.getLast?_eq_some_iff.1 hlast with ⟨front, hpath⟩
    -- the prefix that ends before the path's last slash
    refine ⟨scheme ++ "://".toList ++ Unicode.toLowercase (authorityOf rest) ++ front, ?_, ?_, ?_⟩
    · simp [hpath]
    · simp
    · rw [hpath] at hpathnul
      simp only [List.mem_append, not_or] at hfront hpathnul ⊢
      exact ⟨⟨hfront, mt hnul.1 hhostnul⟩, hpathnul.1⟩

/-- A URL that has a location of which a decision can be made: with a host, without user
information, with a normalized path, which does not end in a slash. -/
def NamesModule (url : Text) : Prop :=
  ∃ scheme rest, (scheme = "http".toList ∨ scheme = "https".toList) ∧
    url = scheme ++ "://".toList ++ rest ∧
    authorityOf rest ≠ [] ∧ '@' ∉ authorityOf rest ∧ normalizedPath (pathOf rest) = true ∧
    ((pathOf rest).getLast? = some '/' → nul ∈ authorityOf rest ∨ nul ∈ pathOf rest)

theorem namesModule_iff {field url : Text} :
    NamesModule url ↔ ∃ location, httpLocation field url = .ok location ∧
      location ∉ boundaryPrefixes location := by
  constructor
  · rintro ⟨scheme, rest, hscheme, hurl, hhost, huser, hpath, hslash⟩
    refine ⟨_, httpLocation_eq_ok.2 ⟨scheme, rest, hscheme, hurl, hhost, huser, hpath, rfl⟩, ?_⟩
    rw [httpLocation_self hscheme hhost]
    tauto
  · rintro ⟨location, hlocation, hself⟩
    rcases httpLocation_eq_ok.1 hlocation with ⟨scheme, rest, hscheme, hurl, hhost, huser, hpath, rfl⟩
    rw [httpLocation_self hscheme hhost] at hself
    exact ⟨scheme, rest, hscheme, hurl, hhost, huser, hpath, by tauto⟩

theorem ociLocation_self {r location : Text} (h : ociLocation r = .ok location) :
    location ∉ boundaryPrefixes location := by
  intro hself
  rcases self_mem_boundaryPrefixes.1 hself with ⟨p, heq, -, -⟩
  exact ociLocation_last h (by simp [heq])

/-- Which concrete sources have a location that can be decided about. -/
theorem requirementLocation_iff {resolvePath : Text → Text → Except Text Resolved}
    {src : ModuleSource} {resolved : Resolved} (hvalid : validateSource src = .ok ())
    (hconcrete : src.fromField = []) (htype : src.type = typeOci ∨ src.type = typeHttp)
    (hresolved : resolve resolvePath src = .ok resolved) :
    (∃ location, requirementLocation src = some location ∧
        location ∉ boundaryPrefixes location) ↔
      ∀ http, src.http = some http → NamesModule http.url := by
  have hne : typeHttp ≠ typeOci := by decide
  rcases validateSource_ok hvalid with ⟨t, -, -, hothers, -⟩
  rcases htype with hoci | hhttp
  · rcases resolve_oci hoci hresolved with ⟨oci, reference, heq, hparse, -⟩
    have hlocation := parseOciReference_ok hparse
    have hnone : src.http = none := by
      have hset := hothers ⟨typeHttp, "http".toList, src.http.isSome⟩ (by simp [sourceTypes])
        (by rw [hoci]; exact hne)
      simpa using hset
    constructor
    · intro _ http hhttp
      rw [hnone] at hhttp
      cases hhttp
    · intro _
      refine ⟨reference.location, ?_, ociLocation_self hlocation⟩
      unfold requirementLocation
      rw [if_pos hoci, heq, Option.bind_some, hlocation]
      rfl
  · rcases (validateSource_concrete hvalid hconcrete).2 hhttp with ⟨http, heq, -⟩
    have hrequirement : requirementLocation src =
        (httpLocation "module.http.url".toList http.url).toOption := by
      unfold requirementLocation
      rw [hhttp, if_neg hne, if_pos rfl, heq, Option.bind_some]
    have hnames : (∀ http, src.http = some http → NamesModule http.url) ↔
        NamesModule http.url := by
      simp [heq]
    rw [hrequirement, hnames, namesModule_iff]
    cases httpLocation "module.http.url".toList http.url with
    | error e => simp [Except.toOption]
    | ok location => simp [Except.toOption]

end Locations

section Main

variable {ε : Type} [Expressions ε Value] [UnicodeTables] [SigstoreLibrary]

/-- Under a policy that requires every signature, a source in a registry or on the web fails closed
exactly when its URL, if it is one, names a module. -/
theorem failsClosed_iff {policy : OperatorPolicy ε}
    (hpolicy : policy.policy.PermitsEvery (actionUid actionRequireSignature))
    {resolvePath : Text → Text → Except Text Resolved} {src : ModuleSource} {resolved : Resolved}
    (hvalid : validateSource src = .ok ()) (hconcrete : src.fromField = [])
    (htype : src.type = typeOci ∨ src.type = typeHttp)
    (hresolved : resolve resolvePath src = .ok resolved) :
    FailsClosed policy src ↔ ∀ http, src.http = some http → NamesModule http.url := by
  rw [failsClosed_iff_required hpolicy,
    requirementLocation_iff hvalid hconcrete htype hresolved]

end Main

section Examples

attribute [local instance] asciiTables Cosign.fixtureLibrary

/-- `permit (principal, action == Action::"requireSignature", resource);` alone. -/
def signEverything : OperatorPolicy Empty where
  policy := [permitAction "policy0".toList (actionUid actionRequireSignature)]

def zeroDigest : Text := "sha256:".toList ++ List.replicate 64 '0'

def webSource (url : Text) : ModuleSource where
  type := typeHttp
  oci := none
  http := some { url := url, digest := zeroDigest, manifestUrl := [], manifestDigest := [] }
  path := []
  manifestPath := []
  fromField := []
  allowEmpty := false

def webModule (url : Text) : Resolved where
  digest := zeroDigest
  description := "http ".toList ++ url
  source := .http url
  manifest := .none

def noModuleDir (_ _ : Text) : Except Text Resolved :=
  .error "module.path is refused: the function was started without --module-dir".toList

theorem web_module_failsClosed :
    FailsClosed signEverything (webSource "https://a.b/m".toList) ↔
      ∀ http, (webSource "https://a.b/m".toList).http = some http → NamesModule http.url :=
  @failsClosed_iff Empty _ _ _ signEverything (PolicySet.permitAction_permitsEvery _ _) noModuleDir
    (webSource "https://a.b/m".toList) (webModule "https://a.b/m".toList) (by rfl) rfl (.inr rfl)
    (by rfl)

/-- A URL with user information is served without a signature. -/
theorem user_information_served :
    validateSource (webSource "https://u@a.b/m".toList) = .ok () ∧
      signatureRequired (some signEverything) true (webSource "https://u@a.b/m".toList) = false ∧
      (∀ (r : Runner Empty Empty) s, r.policy = some signEverything →
        serveModule r (fun _ => none) (webSource "https://u@a.b/m".toList) s =
          (.ok (webModule "https://u@a.b/m".toList), r.verifier, s)) ∧
      ¬ FailsClosed signEverything (webSource "https://u@a.b/m".toList) := by
  have hvalid : validateSource (webSource "https://u@a.b/m".toList) = .ok () := by rfl
  have hrequired : ∀ configured, signatureRequired (some signEverything) configured
      (webSource "https://u@a.b/m".toList) = false := by
    intro configured
    rfl
  refine ⟨hvalid, hrequired true, ?_, ?_⟩
  · intro r s hr
    refine serveModule_unsigned ?_ rfl rfl
    rw [hr]
    exact hrequired _
  · intro h
    have := h.1 true
    rw [hrequired true] at this
    cases this

end Examples
end Gate
end FunctionWasm

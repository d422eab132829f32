import FunctionWasm.Foundation.Json
import FunctionWasm.Policy.Authz
import FunctionWasm.Source.Admission

/-!
# From — a source that the composite resource chooses

With `from`, the composite resource chooses the instance of a module and the composition author's
policy fences what it may choose: its repository and the credential that pulls it.

* `fromComposite` reads, checks and fences the source; `admitSource` is the fence.
* `Admitted` is everything that a source which got through was held against.
* `fromComposite_denies` says that nothing gets through without it.
* `signatureRequired` settles whether a module must carry a signature.

The texts of reading errors are a parameter.
-/

namespace FunctionWasm

open Authz Cedar UnicodeTables

/-! ## Reading the field -/

def kindOf (type : Text) : Text :=
  if type = typeOci then "\x7bref, credentials\x7d object".toList
  else if type = typeHttp then "\x7burl, digest\x7d object".toList
  else "string".toList

/-- The composite resource's kind and namespace. -/
def principalFromComposite (composite : Json) : Principal where
  xrKind := ((composite.get "kind".toList).bind Json.asStr).getD []
  namespaceName :=
    (((composite.get "metadata".toList).bind fun m => m.get "namespace".toList).bind
      Json.asStr).getD []
  composition := []

/-- A dotted field path. -/
def fieldValue (composite : Json) (path : Text) : Except Text Json :=
  match composite.getPath (path.splitOn '.') with
  | .ok v => .ok v
  | .error segment => .error (segment ++ ": no such field".toList)

def ociFields : List Text := ["ref".toList, "credentials".toList]

def httpFields : List Text :=
  ["url".toList, "digest".toList, "manifestURL".toList, "manifestDigest".toList]

/-- Casts a value into the source that the type names. -/
def decodeFromValue (src : ModuleSource) (v : Json) : Except DecodeError ModuleSource :=
  if src.type = typeOci then
    match v.strictStrings ociFields with
    | .error e => .error e
    | .ok fields =>
        .ok { src with
          oci := some { ref := fields.getD 0 [], credentials := fields.getD 1 [] } }
  else if src.type = typeHttp then
    match v.strictStrings httpFields with
    | .error e => .error e
    | .ok fields =>
        .ok { src with
          http := some
            { url := fields.getD 0 []
              digest := fields.getD 1 []
              manifestUrl := fields.getD 2 []
              manifestDigest := fields.getD 3 [] } }
  else
    match v.readString with
    | .error e => .error e
    | .ok t => .ok { src with path := t }

/-! ## The fence -/

section Fence

variable {ε : Type} [Expressions ε Value] [UnicodeTables]

def ofComposite (field e : Text) : Text :=
  "module.from: ".toList ++ field ++ " of the composite resource: ".toList ++ e

def noPolicyError (field type : Text) : Text :=
  "module.from: ".toList ++ field ++ " of the composite resource names a ".toList ++ type ++
    (" source, but the Input has no compositionPolicy: a module the composite resource chooses " ++
      "must be permitted by the compositionPolicy's pullModule rules, or its author could point " ++
      "the runtime at any host").toList

/-- A source of a type that has a host needs a policy. -/
def requireCompositionPolicy (field type : Text) (comp : Option (CompositionPolicy ε)) :
    Except Text Unit :=
  if type = typePath then .ok ()
  else if comp.isNone then .error (noPolicyError field type)
  else .ok ()

def validateFrom (src : ModuleSource) (comp : Option (CompositionPolicy ε)) : Except Text Unit :=
  if src.fromField = [] then .ok ()
  else requireCompositionPolicy src.fromField src.type comp

def notPermitted (field name location : Text) : Text :=
  "module.from: ".toList ++ field ++ " of the composite resource names ".toList ++ name ++
    " ".toList ++ debug location ++ ", which the compositionPolicy does not permit (pullModule)".toList

/-- A location is known and permitted. -/
def admitLocation (field name : Text) (comp : CompositionPolicy ε) (principal : Principal)
    (location : Text) : Except Text Unit :=
  if comp.permitsPullModule principal location then .ok ()
  else .error (notPermitted field name location)

/-- The manifest of an HTTP source, where it names one. -/
def admitManifest (field : Text) (src : ModuleSource) (comp : CompositionPolicy ε)
    (principal : Principal) : Except Text Unit :=
  match src.http with
  | some http =>
      if src.type = typeHttp ∧ http.manifestUrl ≠ [] then
        match httpLocation "module.http.manifestURL".toList http.manifestUrl with
        | .error e => .error (ofComposite field e)
        | .ok location => admitLocation field "manifestURL".toList comp principal location
      else .ok ()
  | none => .ok ()

/-- The credential that pulls an OCI source, where it names one. -/
def admitCredentials (field : Text) (src : ModuleSource) (comp : CompositionPolicy ε)
    (principal : Principal) (location : Text) : Except Text Unit :=
  match src.oci with
  | some oci =>
      if src.type ≠ typeOci ∨ oci.credentials = [] then .ok ()
      else if comp.permitsSpendCredential principal oci.credentials location then .ok ()
      else
        .error ("module.from: ".toList ++ field ++
          " of the composite resource names credentials ".toList ++ debug oci.credentials ++
          ", which the compositionPolicy does not permit (spendCredential) for ".toList ++
          debug location ++ (": a module chosen by the composite resource cannot spend a step " ++
            "credential (the registry host would be its author's) unless the compositionPolicy " ++
            "permits it for that repository; otherwise pull it with the runtime's Docker config " ++
            "or anonymously").toList)
  | none => .ok ()

/-- The location of a source with a host, and the field that names it.  The source expects the
object that a validated source has. -/
def sourceLocation (src : ModuleSource) : Option (Text × Except Text Text) :=
  if src.type = typeOci then
    match src.oci with
    | some oci => some ("ref".toList, ociLocation oci.ref)
    | none => some ("ref".toList, .error "validated: an OCI source has its object".toList)
  else if src.type = typeHttp then
    match src.http with
    | some http => some ("url".toList, httpLocation "module.http.url".toList http.url)
    | none => some ("url".toList, .error "validated: an HTTP source has its object".toList)
  else none

/-- The fence over a concrete source that the composite resource chose. -/
def admitSource (field : Text) (src : ModuleSource) (comp : Option (CompositionPolicy ε))
    (principal : Principal) : Except Text Unit :=
  match sourceLocation src with
  | none => .ok ()
  | some (_, .error e) => .error (ofComposite field e)
  | some (name, .ok location) =>
      match comp with
      | none => requireCompositionPolicy field src.type comp
      | some comp => do
          admitLocation field name comp principal location
          admitManifest field src comp principal
          admitCredentials field src comp principal location

/-- Reads, checks and fences the source that `src` leaves to the composite resource; `none` is the
empty choice. -/
def fromComposite (describe : DecodeError → Text) (src : ModuleSource)
    (comp : Option (CompositionPolicy ε)) (composite : Option Json) :
    Except Text (Option ModuleSource) := do
  validateSource src
  if src.fromField = [] then return some src
  let field := src.fromField
  -- the concrete source is static from here on
  let concrete := { src with fromField := [], allowEmpty := false }
  match composite with
  | none =>
      if src.allowEmpty then return none
      else
        throw ("module.from ".toList ++ field ++
          ": no observed composite resource to read it from".toList)
  | some composite =>
      match fieldValue composite field with
      | .error e =>
          if src.allowEmpty then return none
          else
            throw ("module.from: cannot read ".toList ++ field ++
              " from the composite resource: ".toList ++ e)
      | .ok value =>
          if src.allowEmpty ∧ value.isNull then return none
          else
            match decodeFromValue concrete value with
            | .error e =>
                throw ("module.from: ".toList ++ field ++ " of the composite resource is not a ".toList ++
                  kindOf src.type ++ ": ".toList ++ describe e)
            | .ok chosen =>
                match validateSource chosen with
                | .error e => throw (ofComposite field e)
                | .ok () => do
                    admitSource field chosen comp (principalFromComposite composite)
                    return some chosen

/-! ## What got through -/

/-- What holds of a chosen source that was let through. -/
structure Admitted (src chosen : ModuleSource) (comp : Option (CompositionPolicy ε))
    (principal : Principal) : Prop where
  valid : validateSource chosen = .ok ()
  concrete : chosen.fromField = []
  type : chosen.type = src.type
  /-- Nothing but the object or the path of the type comes from the composite resource. -/
  rest : chosen = { src with
    oci := if src.type = typeOci then chosen.oci else src.oci
    http := if src.type = typeHttp then chosen.http else src.http
    path := if src.type = typeOci ∨ src.type = typeHttp then src.path else chosen.path
    fromField := []
    allowEmpty := false }
  oci : src.type = typeOci → ∃ policy oci location, comp = some policy ∧ chosen.oci = some oci ∧
    ociLocation oci.ref = .ok location ∧ policy.permitsPullModule principal location = true ∧
    (oci.credentials ≠ [] →
      policy.permitsSpendCredential principal oci.credentials location = true)
  http : src.type = typeHttp → ∃ policy http location, comp = some policy ∧
    chosen.http = some http ∧ httpLocation "module.http.url".toList http.url = .ok location ∧
    policy.permitsPullModule principal location = true ∧
    (http.manifestUrl ≠ [] → ∃ manifest,
      httpLocation "module.http.manifestURL".toList http.manifestUrl = .ok manifest ∧
      policy.permitsPullModule principal manifest = true)

omit [UnicodeTables] in
theorem decodeFromValue_rest {src chosen : ModuleSource} {v : Json}
    (h : decodeFromValue src v = .ok chosen) :
    chosen = { src with
      oci := if src.type = typeOci then chosen.oci else src.oci
      http := if src.type = typeHttp then chosen.http else src.http
      path := if src.type = typeOci ∨ src.type = typeHttp then src.path else chosen.path } := by
  have hne : typeOci ≠ typeHttp := by decide
  unfold decodeFromValue at h
  split at h
  · next htype =>
      split at h
      · cases h
      · cases h
        simp [htype, hne]
  · next htype =>
      split at h
      · next hhttp =>
          split at h
          · cases h
          · cases h
            simp [hhttp, hne.symm]
      · next hhttp =>
          split at h
          · cases h
          · cases h
            simp [htype, hhttp]

/-- The permission of a location. -/
theorem admitLocation_ok {field name location : Text} {comp : CompositionPolicy ε}
    {principal : Principal} (h : admitLocation field name comp principal location = .ok ()) :
    comp.permitsPullModule principal location = true := by
  unfold admitLocation at h
  split at h
  · next hpermit => exact hpermit
  · cases h

theorem admitManifest_ok {field : Text} {src : ModuleSource} {comp : CompositionPolicy ε}
    {principal : Principal} {http : HttpSource} (h : admitManifest field src comp principal = .ok ())
    (htype : src.type = typeHttp) (hhttp : src.http = some http) (hurl : http.manifestUrl ≠ []) :
    ∃ location, httpLocation "module.http.manifestURL".toList http.manifestUrl = .ok location ∧
      comp.permitsPullModule principal location = true := by
  unfold admitManifest at h
  rw [hhttp] at h
  simp only [htype, hurl, ne_eq, not_false_eq_true, and_self, if_true] at h
  split at h
  · cases h
  · next location hlocation => exact ⟨location, hlocation, admitLocation_ok h⟩

theorem admitCredentials_ok {field : Text} {src : ModuleSource} {comp : CompositionPolicy ε}
    {principal : Principal} {location : Text} {oci : OciSource}
    (h : admitCredentials field src comp principal location = .ok ())
    (htype : src.type = typeOci) (hoci : src.oci = some oci) (hcredentials : oci.credentials ≠ []) :
    comp.permitsSpendCredential principal oci.credentials location = true := by
  unfold admitCredentials at h
  rw [hoci] at h
  simp only [htype, hcredentials, ne_eq, not_true_eq_false, or_self, if_false] at h
  split at h
  · next hpermit => exact hpermit
  · cases h

theorem admit_ok {field : Text} {src : ModuleSource} {comp : Option (CompositionPolicy ε)}
    {principal : Principal} {name location : Text}
    (hlocation : sourceLocation src = some (name, .ok location)) (hsrc : src.type ≠ typePath)
    (h : admitSource field src comp principal = .ok ()) :
    ∃ policy, comp = some policy ∧ policy.permitsPullModule principal location = true ∧
      admitManifest field src policy principal = .ok () ∧
      admitCredentials field src policy principal location = .ok () := by
  unfold admitSource at h
  rw [hlocation] at h
  cases comp with
  | none => simp [requireCompositionPolicy, hsrc] at h
  | some policy =>
      rcases bind_eq_ok.1 h with ⟨⟨⟩, hpull, h⟩
      rcases bind_eq_ok.1 h with ⟨⟨⟩, hmanifest, hcredentials⟩
      exact ⟨policy, rfl, admitLocation_ok hpull, hmanifest, hcredentials⟩

/-- A source whose location is an error is refused. -/
theorem admit_location {field : Text} {src : ModuleSource} {comp : Option (CompositionPolicy ε)}
    {principal : Principal} {name : Text} {result : Except Text Text}
    (hlocation : sourceLocation src = some (name, result))
    (h : admitSource field src comp principal = .ok ()) : ∃ location, result = .ok location := by
  unfold admitSource at h
  rw [hlocation] at h
  cases result with
  | error e => cases h
  | ok location => exact ⟨location, rfl⟩

/-- A chosen source that passed the check and the fence was held against everything. -/
theorem admitted_of_admit {src chosen : ModuleSource} {comp : Option (CompositionPolicy ε)}
    {principal : Principal} {field : Text} {v : Json}
    (hdecode : decodeFromValue { src with fromField := [], allowEmpty := false } v = .ok chosen)
    (hvalid : validateSource chosen = .ok ()) (h : admitSource field chosen comp principal = .ok ()) :
    Admitted src chosen comp principal := by
  have hrest := decodeFromValue_rest hdecode
  have htype : chosen.type = src.type := by rw [hrest]
  have hfrom : chosen.fromField = [] := by rw [hrest]
  have hobject := validateSource_concrete hvalid hfrom
  have hne : typeHttp ≠ typeOci ∧ typeOci ≠ typePath ∧ typeHttp ≠ typePath := by decide
  refine ⟨hvalid, hfrom, htype, hrest, ?_, ?_⟩
  · intro hoci
    rw [← htype] at hoci
    rcases hobject.1 hoci with ⟨oci, heq⟩
    have hsource : sourceLocation chosen = some ("ref".toList, ociLocation oci.ref) := by
      simp [sourceLocation, hoci, heq]
    rcases admit_location hsource h with ⟨location, hlocation⟩
    rw [hlocation] at hsource
    rcases admit_ok hsource (hoci ▸ hne.2.1) h with ⟨policy, rfl, hpull, -, hcredentials⟩
    exact ⟨policy, oci, location, rfl, heq, hlocation, hpull,
      admitCredentials_ok hcredentials hoci heq⟩
  · intro hhttp
    rw [← htype] at hhttp
    rcases hobject.2 hhttp with ⟨http, heq, -⟩
    have hsource : sourceLocation chosen =
        some ("url".toList, httpLocation "module.http.url".toList http.url) := by
      simp [sourceLocation, hhttp, hne.1, heq]
    rcases admit_location hsource h with ⟨location, hlocation⟩
    rw [hlocation] at hsource
    rcases admit_ok hsource (hhttp ▸ hne.2.2) h with ⟨policy, rfl, hpull, hmanifest, -⟩
    exact ⟨policy, http, location, rfl, heq, hlocation, hpull,
      admitManifest_ok hmanifest hhttp heq⟩

/-- What is let through was chosen by the field, read from it, and held against everything; the
empty choice is allowed and made. -/
theorem fromComposite_denies {describe : DecodeError → Text} {src : ModuleSource}
    {comp : Option (CompositionPolicy ε)} {composite : Option Json} (hfrom : src.fromField ≠ []) :
    (∀ chosen, fromComposite describe src comp composite = .ok (some chosen) →
      ∃ doc value, composite = some doc ∧ fieldValue doc src.fromField = .ok value ∧
        decodeFromValue { src with fromField := [], allowEmpty := false } value = .ok chosen ∧
        Admitted src chosen comp (principalFromComposite doc)) ∧
    (fromComposite describe src comp composite = .ok none →
      src.allowEmpty = true ∧
        (composite = none ∨ ∃ doc, composite = some doc ∧
          ((∃ e, fieldValue doc src.fromField = .error e) ∨
            fieldValue doc src.fromField = .ok .null))) := by
  constructor
  · -- the choice: each check that it passes is a branch that goes on
    intro chosen h
    rcases bind_eq_ok.1 h with ⟨⟨⟩, -, h⟩
    simp only [hfrom, if_false] at h
    cases composite with
    | none =>
        dsimp only at h
        split at h <;> cases h
    | some doc =>
        dsimp only at h
        split at h
        · split at h <;> cases h
        · next value hvalue =>
            split at h
            · cases h
            · split at h
              · cases h
              · next chosen' hdecode =>
                  split at h
                  · cases h
                  · next hvalid =>
                      rcases bind_eq_ok.1 h with ⟨⟨⟩, hadmit, h⟩
                      cases h
                      exact ⟨doc, value, rfl, hvalue, hdecode,
                        admitted_of_admit hdecode hvalid hadmit⟩
  · -- the empty choice: no document, no field or a null, and `allowEmpty` in each
    intro h
    rcases bind_eq_ok.1 h with ⟨⟨⟩, -, h⟩
    simp only [hfrom, if_false] at h
    cases composite with
    | none =>
        dsimp only at h
        split at h
        · next hempty => exact ⟨hempty, .inl rfl⟩
        · cases h
    | some doc =>
        dsimp only at h
        split at h
        · next e hvalue =>
            split at h
            · next hempty => exact ⟨hempty, .inr ⟨doc, rfl, .inl ⟨e, hvalue⟩⟩⟩
            · cases h
        · next value hvalue =>
            split at h
            · next hempty =>
                refine ⟨hempty.1, .inr ⟨doc, rfl, .inr ?_⟩⟩
                rw [hvalue, Json.eq_null hempty.2]
            · split at h
              · cases h
              · split at h
                · cases h
                · rcases bind_eq_ok.1 h with ⟨⟨⟩, -, h⟩
                  cases h

/-! ## Whether a signature is required -/

/-- The location that a requirement is about; a path has none. -/
def requirementLocation (src : ModuleSource) : Option Text :=
  if src.type = typeOci then src.oci.bind fun oci => (ociLocation oci.ref).toOption
  else if src.type = typeHttp then
    src.http.bind fun http => (httpLocation "module.http.url".toList http.url).toOption
  else none

/-- Whether a module at this source must carry a signature, settled before it is resolved: per
repository with an operator policy, and all or nothing without one. -/
def signatureRequired (policy : Option (OperatorPolicy ε)) (verifierConfigured : Bool)
    (src : ModuleSource) : Bool :=
  match policy with
  | none => verifierConfigured
  | some policy => (requirementLocation src).any policy.requiresSignature

/-- Why a required source cannot run that is not in a registry. -/
def nonOciSignatureRefusal (policy : Option (OperatorPolicy ε)) (src : ModuleSource) : Text :=
  if policy.isNone then
    ("only cosign-signed oci modules are accepted (--cosign-key, --cosign-trusted-root or " ++
      "--cosign-trust-instance is set); http and path sources are refused").toList
  else
    let (field, location) :=
      if src.type = typeHttp then ("http".toList, (requirementLocation src).getD [])
      else ("path".toList, src.path)
    "module.".toList ++ field ++ " ".toList ++ debug location ++
      (" requires a cosign signature (operator policy), but only OCI modules can be " ++
        "signature-verified").toList

end Fence

section Examples

attribute [local instance] asciiTables

/-- A source that the composite resource chooses under `spec.m`. -/
def chosenBySpec : ModuleSource where
  type := typeOci
  oci := none
  http := none
  path := []
  manifestPath := []
  fromField := "spec.m".toList
  allowEmpty := false

def pulledRef : Text := "a.b/m@sha256:".toList ++ List.replicate 64 '0'

def specWithModule : Json :=
  .object [("spec".toList, .object [("m".toList, .object [("ref".toList, .string pulledRef)])])]

def pullAnything : CompositionPolicy Empty where
  policy := [permitAction "policy0".toList (actionUid actionPullModule)]

theorem spec_module_admitted :
    Admitted chosenBySpec
      { chosenBySpec with
        fromField := []
        oci := some { ref := pulledRef, credentials := [] } }
      (some pullAnything) (principalFromComposite specWithModule) := by
  have hdenies := @fromComposite_denies Empty _ _ (fun _ => []) chosenBySpec (some pullAnything)
    (some specWithModule) (by decide)
  rcases hdenies.1 _ (by rfl) with ⟨doc, value, hdoc, -, -, hadmitted⟩
  cases hdoc
  exact hadmitted

end Examples
end FunctionWasm

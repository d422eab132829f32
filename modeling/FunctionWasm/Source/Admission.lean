import FunctionWasm.Foundation.Checks
import FunctionWasm.Source.Location

/-!
# Admission — the shape of a module source

A source has a type and exactly one of the object its type names and a field of the composite
resource to read that object from.

* `validateSource` is the check of a source, static or read from a composite resource.
* `validateSource_object` and `validateSource_http` say what a concrete source that passed it has.
-/

namespace FunctionWasm

structure OciSource where
  ref : Text
  credentials : Text
  deriving DecidableEq

structure HttpSource where
  url : Text
  digest : Text
  manifestUrl : Text
  manifestDigest : Text
  deriving DecidableEq

/-- Where a module comes from; `fromField` is the source's `from`. -/
structure ModuleSource where
  type : Text
  oci : Option OciSource
  http : Option HttpSource
  path : Text
  manifestPath : Text
  fromField : Text
  allowEmpty : Bool
  deriving DecidableEq

def typeOci : Text := "OCI".toList

def typeHttp : Text := "HTTP".toList

def typePath : Text := "Path".toList

/-! ## The checks -/

/-- A type of source: its name, its field, and whether the field is set. -/
structure SourceType where
  name : Text
  field : Text
  isSet : Bool

def sourceTypes (src : ModuleSource) : List SourceType :=
  [⟨typeOci, "oci".toList, src.oci.isSome⟩,
    ⟨typeHttp, "http".toList, src.http.isSome⟩,
    ⟨typePath, "path".toList, src.path ≠ []⟩]

/-- A field under spec or status. -/
def fromFieldIsValid (field : Text) : Bool :=
  match (field.dropPrefix? "spec.".toList).or (field.dropPrefix? "status.".toList) with
  | some rest => rest ≠ []
  | none => false

def ociRefIsPinned (r : Text) : Bool :=
  match rsplitOnce '@' r with
  | none => false
  | some (repo, digest) => repo ≠ [] && !repo.any isWhitespace && digestIsValid digest

section Checks

open UnicodeTables

variable [UnicodeTables]

def validateOci (oci : OciSource) : Except Text Unit :=
  if oci.ref = [] then .error "module.oci.ref is required".toList
  else if ociRefIsPinned oci.ref then .ok ()
  else .error (pinnedError oci.ref)

def validateHttp (http : HttpSource) : Except Text Unit :=
  if http.url = [] then .error "module.http.url is required".toList
  else if ¬ ("http://".toList.isPrefixOf http.url ∨ "https://".toList.isPrefixOf http.url) then
    .error ("module.http.url ".toList ++ debug http.url ++ " must be an http or https URL".toList)
  else if http.digest = [] then
    .error ("module.http.digest is required: the sha256 of the module file " ++
      "(sha256sum fn.wasm)").toList
  else if digestIsValid http.digest then .ok ()
  else
    .error ("module.http.digest ".toList ++ debug http.digest ++
      " is not sha256:<64 hex characters>".toList)

/-- Exactly one of the object and the field, and what goes with the field only. -/
def validateChoice (src : ModuleSource) (t : SourceType) : Except Text Unit :=
  if t.isSet = decide (src.fromField ≠ []) then
    .error ("module.type ".toList ++ src.type ++ " needs exactly one of module.".toList ++ t.field ++
      " and module.from".toList)
  else if src.fromField ≠ [] ∧ fromFieldIsValid src.fromField = false then
    .error ("module.from ".toList ++ debug src.fromField ++ (" must be a field under spec or " ++
      "status of the composite resource, e.g. status.module").toList)
  else if src.allowEmpty ∧ src.fromField = [] then
    .error ("module.allowEmpty is set but module.from is not: only a module the composite " ++
      "resource chooses can be left unset").toList
  else if src.manifestPath ≠ [] ∧ src.type ≠ typePath then
    .error ("module.manifestPath is set but module.type is ".toList ++ src.type ++
      (": it names a manifest file under --module-dir and is only allowed with type Path").toList)
  else .ok ()

/-- Checks the shape of a source. -/
def validateSource (src : ModuleSource) : Except Text Unit :=
  if src.type = [] then .error "module.type is required: OCI, HTTP or Path".toList
  else
    match (sourceTypes src).find? fun t => t.name = src.type with
    | none =>
        .error ("module.type ".toList ++ debug src.type ++ " must be OCI, HTTP or Path".toList)
    | some t =>
        match (sourceTypes src).find? fun other => other.name ≠ src.type ∧ other.isSet with
        | some other =>
            .error ("module.".toList ++ other.field ++ " is set but module.type is ".toList ++
              src.type)
        | none => do
            validateChoice src t
            checkAll validateOci src.oci.toList
            checkAll validateHttp src.http.toList

/-! ## A source that passed -/

theorem validateChoice_ok {src : ModuleSource} {t : SourceType}
    (h : validateChoice src t = .ok ()) : t.isSet = decide (src.fromField = []) := by
  unfold validateChoice at h
  split at h
  · cases h
  · next hone =>
      by_cases hfrom : src.fromField = [] <;> simpa [hfrom] using hone

/-- Everything that the check of a source comes to. -/
theorem validateSource_ok {src : ModuleSource} (h : validateSource src = .ok ()) :
    ∃ t ∈ sourceTypes src, t.name = src.type ∧
      (∀ other ∈ sourceTypes src, other.name ≠ src.type → other.isSet = false) ∧
      validateChoice src t = .ok () ∧
      (∀ oci, src.oci = some oci → validateOci oci = .ok ()) ∧
      ∀ http, src.http = some http → validateHttp http = .ok () := by
  unfold validateSource at h
  split at h
  · cases h
  · split at h
    · cases h
    · next t hfind =>
        split at h
        · cases h
        · next hothers =>
            refine ⟨t, List.mem_of_find?_eq_some hfind, by simpa using List.find?_some hfind, ?_⟩
            rcases bind_eq_ok.1 h with ⟨⟨⟩, hchoice, h⟩
            rcases bind_eq_ok.1 h with ⟨⟨⟩, hoci, hhttp⟩
            refine ⟨?_, hchoice, by simpa using checkAll_eq_ok.1 hoci,
              by simpa using checkAll_eq_ok.1 hhttp⟩
            intro other hother hname
            by_contra hset
            have hfound := List.find?_eq_none.1 hothers other hother
            simp [hname, hset] at hfound

/-- A concrete source that passed has the object of its type. -/
theorem validateSource_concrete {src : ModuleSource} (h : validateSource src = .ok ())
    (hfrom : src.fromField = []) :
    (src.type = typeOci → ∃ oci, src.oci = some oci) ∧
      (src.type = typeHttp → ∃ http, src.http = some http ∧ validateHttp http = .ok ()) := by
  rcases validateSource_ok h with ⟨t, ht, hname, -, hchoice, -, hhttp⟩
  have hset : t.isSet = true := by
    rw [validateChoice_ok hchoice]
    simp [hfrom]
  have hnames : typeOci ≠ typeHttp ∧ typeOci ≠ typePath ∧ typeHttp ≠ typePath := by decide
  simp only [sourceTypes, List.mem_cons, List.not_mem_nil, or_false] at ht
  constructor
  · intro htype
    rw [htype] at hname
    rcases ht with rfl | rfl | rfl
    · exact Option.isSome_iff_exists.1 hset
    · exact absurd hname.symm hnames.1
    · exact absurd hname.symm hnames.2.1
  · intro htype
    rw [htype] at hname
    rcases ht with rfl | rfl | rfl
    · exact absurd hname hnames.1
    · rcases Option.isSome_iff_exists.1 hset with ⟨http, heq⟩
      exact ⟨http, heq, hhttp http heq⟩
    · exact absurd hname.symm hnames.2.2

/-- A URL that passed begins with a scheme of the web. -/
theorem validateHttp_url {http : HttpSource} (h : validateHttp http = .ok ()) :
    ∃ scheme rest, (scheme = "http".toList ∨ scheme = "https".toList) ∧
      http.url = scheme ++ "://".toList ++ rest := by
  unfold validateHttp at h
  split at h
  · cases h
  · split at h
    · cases h
    · next hscheme =>
        rcases not_not.1 hscheme with hprefix | hprefix
        · rcases List.isPrefixOf_iff_prefix.1 hprefix with ⟨rest, heq⟩
          exact ⟨_, rest, .inl rfl, heq.symm⟩
        · rcases List.isPrefixOf_iff_prefix.1 hprefix with ⟨rest, heq⟩
          exact ⟨_, rest, .inr rfl, heq.symm⟩

end Checks
end FunctionWasm

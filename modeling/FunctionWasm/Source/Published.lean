import FunctionWasm.Source.From

/-!
# Published — the rules published on the Input's types, and the check that enforces them

The rules of a module source are written twice: on the types, as the schema that nothing installs,
and as the check of admission.

* `PublishedRules` are the rules on the types.
* `CheckedRules` are those that the check makes good, `UncheckedRules` what is left of the others.
* `validateSource_eq_ok` says that the check accepts exactly what satisfies the first.
* `LetThrough` is what comes out of `from_composite`, `fromComposite_eq_some` that nothing else does.
* `published_enforced_iff` says for which sources the published rules are enforced.
-/

namespace FunctionWasm

open Authz Cedar UnicodeTables

/-! ## Forms of the fields -/

/-- `sha256:` and 64 lowercase hex digits. -/
def DigestForm (digest : Text) : Prop :=
  ∃ hex, digest = "sha256:".toList ++ hex ∧ hex.length = 64 ∧ ∀ c ∈ hex, isHexLower c = true

/-- A name without white space, pinned to a digest. -/
def Pins (r name : Text) : Prop :=
  name ≠ [] ∧ (∀ c ∈ name, isWhitespace c = false) ∧
    ∃ digest, DigestForm digest ∧ r = name ++ '@' :: digest

def HasWebScheme (url : Text) : Prop :=
  ∃ rest, url = "http://".toList ++ rest ∨ url = "https://".toList ++ rest

def UnderSpecOrStatus (field : Text) : Prop :=
  ∃ rest, rest ≠ [] ∧ (field = "spec.".toList ++ rest ∨ field = "status.".toList ++ rest)

theorem digestIsValid_iff {digest : Text} : digestIsValid digest = true ↔ DigestForm digest :=
  digestIsValid_eq_true

theorem fromFieldIsValid_iff {field : Text} :
    fromFieldIsValid field = true ↔ UnderSpecOrStatus field := by
  unfold fromFieldIsValid UnderSpecOrStatus
  cases hspec : field.dropPrefix? "spec.".toList with
  | some rest =>
      have heq := dropPrefix?_eq_some.1 hspec
      simp only [Option.some_or, decide_eq_true_eq]
      constructor
      · intro hrest
        exact ⟨rest, hrest, Or.inl heq⟩
      · rintro ⟨rest', hrest', heq' | heq'⟩
        · rwa [← List.append_cancel_left (heq'.symm.trans heq)]
        · rw [heq] at heq'
          cases heq'
  | none =>
      simp only [Option.none_or]
      have hnot : ∀ rest, field ≠ "spec.".toList ++ rest := by
        intro rest heq
        rw [dropPrefix?_eq_some.2 heq] at hspec
        cases hspec
      cases hstatus : field.dropPrefix? "status.".toList with
      | some rest =>
          have heq := dropPrefix?_eq_some.1 hstatus
          simp only [decide_eq_true_eq]
          constructor
          · intro hrest
            exact ⟨rest, hrest, Or.inr heq⟩
          · rintro ⟨rest', hrest', heq' | heq'⟩
            · exact absurd heq' (hnot rest')
            · rwa [← List.append_cancel_left (heq'.symm.trans heq)]
      | none =>
          refine iff_of_false (by simp) ?_
          rintro ⟨rest, -, heq | heq⟩
          · exact hnot rest heq
          · rw [dropPrefix?_eq_some.2 heq] at hstatus
            cases hstatus

theorem hasWebScheme_iff {url : Text} :
    HasWebScheme url ↔ "http://".toList.isPrefixOf url = true ∨ "https://".toList.isPrefixOf url = true := by
  simp only [List.isPrefixOf_iff_prefix, HasWebScheme]
  constructor
  · rintro ⟨rest, rfl | rfl⟩
    · exact Or.inl (List.prefix_append _ _)
    · exact Or.inr (List.prefix_append _ _)
  · rintro (⟨rest, rfl⟩ | ⟨rest, rfl⟩)
    · exact ⟨rest, Or.inl rfl⟩
    · exact ⟨rest, Or.inr rfl⟩

/-- A digest has no `@`, so a reference pins the name before its last one. -/
theorem pins_iff {r name : Text} :
    Pins r name ↔ ∃ digest, rsplitOnce '@' r = some (name, digest) ∧ name ≠ [] ∧
      name.any isWhitespace = false ∧ digestIsValid digest = true := by
  unfold Pins
  constructor
  · rintro ⟨hname, hspace, digest, hdigest, rfl⟩
    have hvalid := digestIsValid_iff.2 hdigest
    refine ⟨digest, rsplitOnce_eq_some.2 ⟨rfl, digest_no_at hvalid⟩, hname, ?_, hvalid⟩
    rw [List.any_eq_false]
    intro c hc
    simp [hspace c hc]
  · rintro ⟨digest, hsplit, hname, hspace, hdigest⟩
    refine ⟨hname, ?_, digest, digestIsValid_iff.1 hdigest, (rsplitOnce_eq_some.1 hsplit).1⟩
    intro c hc
    simpa using List.any_eq_false.1 hspace c hc

theorem ociRefIsPinned_iff {r : Text} : ociRefIsPinned r = true ↔ ∃ name, Pins r name := by
  simp only [pins_iff]
  unfold ociRefIsPinned
  cases rsplitOnce '@' r with
  | none => simp
  | some p =>
      rcases p with ⟨name, digest⟩
      simp only [Bool.and_eq_true, decide_eq_true_eq, Bool.not_eq_true', Option.some.injEq,
        Prod.mk.injEq, and_assoc]
      constructor
      · intro h
        exact ⟨name, digest, rfl, rfl, h⟩
      · rintro ⟨_, _, rfl, rfl, h⟩
        exact h

/-! ## The rules -/

/-- A type's object is set exactly where the source has the type and reads no field. -/
def OnlyWith (src : ModuleSource) (type : Text) (set : Prop) : Prop :=
  if src.type = type then (set ↔ src.fromField = []) else ¬ set

/-- The rules on the shape of a source. -/
structure ShapeRules (src : ModuleSource) : Prop where
  type : src.type = typeOci ∨ src.type = typeHttp ∨ src.type = typePath
  oci : OnlyWith src typeOci (src.oci.isSome = true)
  http : OnlyWith src typeHttp (src.http.isSome = true)
  path : OnlyWith src typePath (src.path ≠ [])
  manifestPath : src.manifestPath ≠ [] → src.type = typePath
  allowEmpty : src.allowEmpty = true → src.fromField ≠ []
  fromField : src.fromField ≠ [] → UnderSpecOrStatus src.fromField

/-- The rules published on the types; a text is set when it is not empty. -/
structure PublishedRules (src : ModuleSource) : Prop extends ShapeRules src where
  ref : ∀ oci, src.oci = some oci → ∃ name, Pins oci.ref name ∧ '@' ∉ name
  url : ∀ http, src.http = some http → HasWebScheme http.url
  digest : ∀ http, src.http = some http → DigestForm http.digest
  manifestUrl : ∀ http, src.http = some http → http.manifestUrl ≠ [] → HasWebScheme http.manifestUrl
  manifestDigest : ∀ http, src.http = some http → http.manifestDigest ≠ [] →
    DigestForm http.manifestDigest
  together : ∀ http, src.http = some http → (http.manifestUrl = [] ↔ http.manifestDigest = [])

/-- The rules that the check makes good. -/
structure CheckedRules (src : ModuleSource) : Prop extends ShapeRules src where
  ref : ∀ oci, src.oci = some oci → ∃ name, Pins oci.ref name
  url : ∀ http, src.http = some http → HasWebScheme http.url
  digest : ∀ http, src.http = some http → DigestForm http.digest

/-- What is left of the published ones: a second `@`, and the manifest of an HTTP source. -/
structure UncheckedRules (src : ModuleSource) : Prop where
  ref : ∀ oci name, src.oci = some oci → Pins oci.ref name → '@' ∉ name
  manifestUrl : ∀ http, src.http = some http → http.manifestUrl ≠ [] → HasWebScheme http.manifestUrl
  manifestDigest : ∀ http, src.http = some http → http.manifestDigest ≠ [] →
    DigestForm http.manifestDigest
  together : ∀ http, src.http = some http → (http.manifestUrl = [] ↔ http.manifestDigest = [])

theorem pins_unique {r name name' : Text} (h : Pins r name) (h' : Pins r name') : name = name' := by
  rcases pins_iff.1 h with ⟨_, hsplit, -⟩
  rcases pins_iff.1 h' with ⟨_, hsplit', -⟩
  rw [hsplit] at hsplit'
  cases hsplit'
  rfl

theorem publishedRules_iff {src : ModuleSource} :
    PublishedRules src ↔ CheckedRules src ∧ UncheckedRules src := by
  constructor
  · intro h
    refine ⟨⟨h.toShapeRules, ?_, h.url, h.digest⟩,
      ⟨?_, h.manifestUrl, h.manifestDigest, h.together⟩⟩
    · intro oci hoci
      rcases h.ref oci hoci with ⟨name, hpins, -⟩
      exact ⟨name, hpins⟩
    · intro oci name hoci hpins
      rcases h.ref oci hoci with ⟨name', hpins', hat⟩
      rwa [pins_unique hpins hpins']
  · rintro ⟨hc, hu⟩
    refine ⟨hc.toShapeRules, ?_, hc.url, hc.digest, hu.manifestUrl, hu.manifestDigest, hu.together⟩
    intro oci hoci
    rcases hc.ref oci hoci with ⟨name, hpins⟩
    exact ⟨name, hpins, hu.ref oci name hoci hpins⟩

/-- A source that reads a field has no object that a rule could be about. -/
theorem uncheckedRules_of_from {src : ModuleSource} (h : ShapeRules src)
    (hfrom : src.fromField ≠ []) : UncheckedRules src := by
  have hunset : ∀ {type : Text} {set : Prop}, OnlyWith src type set → ¬ set := by
    intro type set hwith hset
    unfold OnlyWith at hwith
    split at hwith
    · exact hfrom (hwith.1 hset)
    · exact hwith hset
  have hoci : ∀ oci, src.oci ≠ some oci := by
    intro oci heq
    exact hunset h.oci (by rw [heq]; rfl)
  have hhttp : ∀ http, src.http ≠ some http := by
    intro http heq
    exact hunset h.http (by rw [heq]; rfl)
  exact
    { ref := fun oci _ heq => absurd heq (hoci oci)
      manifestUrl := fun http heq => absurd heq (hhttp http)
      manifestDigest := fun http heq => absurd heq (hhttp http)
      together := fun http heq => absurd heq (hhttp http) }

/-! ## What the check accepts -/

theorem nodup_typeNames (src : ModuleSource) :
    ((sourceTypes src).map SourceType.name).Nodup := by
  have hnames : [typeOci, typeHttp, typePath].Nodup := by decide
  exact hnames

theorem mem_typeNames {src : ModuleSource} {t : SourceType} (h : t ∈ sourceTypes src) :
    t.name = typeOci ∨ t.name = typeHttp ∨ t.name = typePath := by
  simp only [sourceTypes, List.mem_cons, List.not_mem_nil, or_false] at h
  rcases h with rfl | rfl | rfl <;> simp

section Check

variable [UnicodeTables]

theorem validateOci_eq_ok {oci : OciSource} :
    validateOci oci = .ok () ↔ ∃ name, Pins oci.ref name := by
  rw [← ociRefIsPinned_iff]
  unfold validateOci
  by_cases hempty : oci.ref = []
  · rw [if_pos hempty, hempty]
    exact iff_of_false (by simp) (by decide)
  · rw [if_neg hempty]
    cases ociRefIsPinned oci.ref <;> simp

theorem validateHttp_eq_ok {http : HttpSource} :
    validateHttp http = .ok () ↔ HasWebScheme http.url ∧ DigestForm http.digest := by
  rw [hasWebScheme_iff, ← digestIsValid_iff]
  unfold validateHttp
  by_cases hurl : http.url = []
  · rw [if_pos hurl, hurl]
    exact iff_of_false (by simp) fun h => absurd h.1 (by decide)
  · rw [if_neg hurl]
    by_cases hweb : "http://".toList.isPrefixOf http.url = true ∨
        "https://".toList.isPrefixOf http.url = true
    · rw [if_neg (not_not.2 hweb), and_iff_right hweb]
      by_cases hdigest : http.digest = []
      · rw [if_pos hdigest, hdigest]
        exact iff_of_false (by simp) (by decide)
      · rw [if_neg hdigest]
        cases digestIsValid http.digest <;> simp
    · rw [if_pos hweb]
      exact iff_of_false (by simp) fun h => hweb h.1

theorem validateChoice_eq_ok {src : ModuleSource} {t : SourceType} :
    validateChoice src t = .ok () ↔
      (t.isSet = true ↔ src.fromField = []) ∧
      (src.fromField ≠ [] → UnderSpecOrStatus src.fromField) ∧
      (src.allowEmpty = true → src.fromField ≠ []) ∧
      (src.manifestPath ≠ [] → src.type = typePath) := by
  unfold validateChoice
  by_cases hone : t.isSet = decide (src.fromField ≠ [])
  · rw [if_pos hone]
    refine iff_of_false (by simp) fun h => ?_
    rw [hone] at h
    by_cases hfrom : src.fromField = [] <;> simp [hfrom] at h
  · rw [if_neg hone]
    have hset : t.isSet = true ↔ src.fromField = [] := by
      by_cases hfrom : src.fromField = [] <;> simpa [hfrom] using hone
    rw [and_iff_right hset, ← fromFieldIsValid_iff]
    split
    · next h => exact iff_of_false (by simp) fun h' => by simp [h.2] at h'; exact h.1 h'.1
    · next hfield =>
        split
        · next h => exact iff_of_false (by simp) fun h' => h'.2.1 h.1 h.2
        · next hempty =>
            split
            · next h => exact iff_of_false (by simp) fun h' => h.2 (h'.2.2 h.1)
            · next hpath =>
                refine iff_of_true rfl ⟨fun hfrom => ?_, fun hallow hfrom => ?_, fun hmanifest => ?_⟩
                · by_contra hinvalid
                  exact hfield ⟨hfrom, by simpa using hinvalid⟩
                · exact hempty ⟨hallow, hfrom⟩
                · by_contra htype
                  exact hpath ⟨hmanifest, htype⟩

/-- The check succeeds when its parts do, for the type that the source has. -/
theorem validateSource_eq_parts {src : ModuleSource} :
    validateSource src = .ok () ↔
      ∃ t ∈ sourceTypes src, t.name = src.type ∧
        (∀ other ∈ sourceTypes src, other.name ≠ src.type → other.isSet = false) ∧
        validateChoice src t = .ok () ∧
        (∀ oci, src.oci = some oci → validateOci oci = .ok ()) ∧
        ∀ http, src.http = some http → validateHttp http = .ok () := by
  constructor
  · exact validateSource_ok
  · rintro ⟨t, ht, hname, hothers, hchoice, hoci, hhttp⟩
    have hempty : src.type ≠ [] := by
      rw [← hname]
      rcases mem_typeNames ht with h | h | h <;> rw [h] <;> decide
    have hfind : (sourceTypes src).find? (fun t => t.name = src.type) = some t := by
      cases hfound : (sourceTypes src).find? fun t => t.name = src.type with
      | none => exact absurd hname (by simpa using List.find?_eq_none.1 hfound t ht)
      | some t' =>
          have hname' : t'.name = src.type := by simpa using List.find?_some hfound
          have heq := List.inj_on_of_nodup_map (nodup_typeNames src) (List.mem_of_find?_eq_some hfound) ht
            (hname'.trans hname.symm)
          rw [heq]
    have hnone : (sourceTypes src).find? (fun other => other.name ≠ src.type ∧ other.isSet) =
        none := by
      refine List.find?_eq_none.2 fun other hother => ?_
      simp only [decide_eq_true_eq, not_and]
      intro hne
      simp [hothers other hother hne]
    unfold validateSource
    rw [if_neg hempty, hfind]
    simp only [hnone]
    refine check_bind_eq_ok.2 ⟨hchoice, check_bind_eq_ok.2 ⟨?_, ?_⟩⟩
    · exact checkAll_eq_ok.2 (by simpa using hoci)
    · exact checkAll_eq_ok.2 (by simpa using hhttp)

/-- The check accepts exactly the sources that satisfy the rules it makes good. -/
theorem validateSource_eq_ok {src : ModuleSource} :
    validateSource src = .ok () ↔ CheckedRules src := by
  rw [validateSource_eq_parts]
  simp only [validateChoice_eq_ok, validateOci_eq_ok, validateHttp_eq_ok]
  constructor
  · rintro ⟨t, ht, hname, hothers, ⟨hone, hfrom, hallow, hmanifest⟩, hoci, hhttp⟩
    -- set where it is the type that was named, and only there
    have hwith : ∀ other ∈ sourceTypes src, OnlyWith src other.name (other.isSet = true) := by
      intro other hother
      unfold OnlyWith
      split
      · next hself =>
          rw [← List.inj_on_of_nodup_map (nodup_typeNames src) ht hother (hname.trans hself)]
          exact hone
      · next hother' =>
          simp [hothers other hother (Ne.symm hother')]
    exact
      { type := by
          rw [← hname]
          exact mem_typeNames ht
        oci := hwith ⟨typeOci, "oci".toList, src.oci.isSome⟩ (by simp [sourceTypes])
        http := hwith ⟨typeHttp, "http".toList, src.http.isSome⟩ (by simp [sourceTypes])
        path := by simpa using hwith ⟨typePath, "path".toList, src.path ≠ []⟩ (by simp [sourceTypes])
        manifestPath := hmanifest
        allowEmpty := hallow
        fromField := hfrom
        ref := hoci
        url := fun http h => (hhttp http h).1
        digest := fun http h => (hhttp http h).2 }
  · intro h
    have hwith : ∀ t ∈ sourceTypes src, OnlyWith src t.name (t.isSet = true) := by
      intro t ht
      simp only [sourceTypes, List.mem_cons, List.not_mem_nil, or_false] at ht
      rcases ht with rfl | rfl | rfl
      · exact h.oci
      · exact h.http
      · simpa using h.path
    -- the type that was named is one of the three
    have hof : ∃ t ∈ sourceTypes src, t.name = src.type := by
      simp only [sourceTypes]
      rcases h.type with htype | htype | htype <;> simp [htype]
    rcases hof with ⟨t, ht, hname⟩
    refine ⟨t, ht, hname, ?_, ⟨?_, h.fromField, h.allowEmpty, h.manifestPath⟩, h.ref,
      fun http hhttp => ⟨h.url http hhttp, h.digest http hhttp⟩⟩
    · intro other hother hne
      have hset := hwith other hother
      rw [OnlyWith, if_neg (Ne.symm hne)] at hset
      simpa using hset
    · have hset := hwith t ht
      rwa [OnlyWith, if_pos hname.symm] at hset

end Check

/-! ## What comes out of `from_composite` -/

section Fence

variable {ε : Type} [Expressions ε Value] [UnicodeTables]

/-- The source that goes on to the resolver: the Input's own, or the one that it leaves to the
composite resource, once the rules that the check makes good hold of it and the fence permits it. -/
inductive LetThrough (src : ModuleSource) (comp : Option (CompositionPolicy ε))
    (composite : Option Json) : ModuleSource → Prop where
  | static (hfrom : src.fromField = []) (hrules : CheckedRules src) :
      LetThrough src comp composite src
  | chosen {doc value : Json} {source : ModuleSource} (hfrom : src.fromField ≠ [])
      (hrules : CheckedRules src) (hdoc : composite = some doc)
      (hvalue : fieldValue doc src.fromField = .ok value)
      (hset : ¬ (src.allowEmpty = true ∧ value.isNull = true))
      (hdecode : decodeFromValue { src with fromField := [], allowEmpty := false } value =
        .ok source)
      (hsource : CheckedRules source)
      (hfence : admitSource src.fromField source comp (principalFromComposite doc) = .ok ()) :
      LetThrough src comp composite source

theorem fromComposite_eq_some {describe : DecodeError → Text} {src : ModuleSource}
    {comp : Option (CompositionPolicy ε)} {composite : Option Json} {source : ModuleSource} :
    fromComposite describe src comp composite = .ok (some source) ↔
      LetThrough src comp composite source := by
  constructor
  · intro h
    by_cases hfrom : src.fromField = []
    · rcases bind_eq_ok.1 h with ⟨⟨⟩, hvalid, h⟩
      simp only [hfrom, if_true] at h
      cases h
      exact .static hfrom (validateSource_eq_ok.1 hvalid)
    · rcases bind_eq_ok.1 h with ⟨⟨⟩, hvalid, hrest⟩
      simp only [hfrom, if_false] at hrest
      -- without a document there is no choice but the empty one
      cases composite with
      | none =>
          dsimp only at hrest
          split at hrest <;> cases hrest
      | some doc =>
          dsimp only at hrest
          split at hrest
          · split at hrest <;> cases hrest
          · next value hvalue =>
              split at hrest
              · cases hrest
              · next hset =>
                  split at hrest
                  · cases hrest
                  · next chosen hdecode =>
                      split at hrest
                      · cases hrest
                      · next hchosen =>
                          rcases bind_eq_ok.1 hrest with ⟨⟨⟩, hfence, hrest⟩
                          cases hrest
                          exact .chosen hfrom (validateSource_eq_ok.1 hvalid) rfl hvalue
                            (by simpa using hset) hdecode (validateSource_eq_ok.1 hchosen) hfence
  · intro h
    cases h with
    | static hfrom hrules =>
        unfold fromComposite
        rw [validateSource_eq_ok.2 hrules]
        simp [hfrom, bind, Except.bind, pure, Except.pure]
    | chosen hfrom hrules hdoc hvalue hset hdecode hsource hfence =>
        unfold fromComposite
        rw [validateSource_eq_ok.2 hrules, hdoc]
        simp only [ok_bind, hfrom, if_false, hvalue, hset, hdecode,
          validateSource_eq_ok.2 hsource, hfence]
        rfl

/-- A source that breaks a published rule is refused, by the check and by `from_composite`, exactly
when it breaks one that the check makes good or none of the others; what comes out of
`from_composite` satisfies them exactly when the others hold of it. -/
theorem published_enforced_iff (describe : DecodeError → Text) (src : ModuleSource)
    (comp : Option (CompositionPolicy ε)) (composite : Option Json) (source : ModuleSource) :
    ((¬ PublishedRules src → ∃ e, validateSource src = .error e) ↔
      (CheckedRules src → UncheckedRules src)) ∧
    ((¬ PublishedRules src → ∃ e, fromComposite describe src comp composite = .error e) ↔
      (CheckedRules src → UncheckedRules src)) ∧
    ((fromComposite describe src comp composite = .ok (some source) → PublishedRules source) ↔
      (LetThrough src comp composite source → UncheckedRules source)) := by
  have hbroken : (CheckedRules src → UncheckedRules src) → ¬ PublishedRules src →
      ∃ e, validateSource src = .error e := by
    intro hrest hnot
    cases hvalid : validateSource src with
    | error e => exact ⟨e, rfl⟩
    | ok _ =>
        have hrules := validateSource_eq_ok.1 hvalid
        exact absurd (publishedRules_iff.2 ⟨hrules, hrest hrules⟩) hnot
  refine ⟨⟨?_, hbroken⟩, ⟨?_, ?_⟩, ?_⟩
  · intro henforced hrules
    by_contra hnot
    rcases henforced fun hpublished => hnot (publishedRules_iff.1 hpublished).2 with ⟨e, herr⟩
    rw [validateSource_eq_ok.2 hrules] at herr
    cases herr
  · intro henforced hrules
    by_contra hnot
    -- the rules that are not checked are about a source that names no field
    have hfrom : src.fromField = [] := by
      by_contra hfrom
      exact hnot (uncheckedRules_of_from hrules.toShapeRules hfrom)
    rcases henforced fun hpublished => hnot (publishedRules_iff.1 hpublished).2 with ⟨e, herr⟩
    rw [fromComposite_eq_some.2 (.static hfrom hrules)] at herr
    cases herr
  · intro hrest hnot
    rcases hbroken hrest hnot with ⟨e, herr⟩
    refine ⟨e, ?_⟩
    unfold fromComposite
    rw [herr]
    rfl
  · have hchecked : LetThrough src comp composite source → CheckedRules source := by
      intro h
      cases h with
      | static _ hrules => exact hrules
      | chosen _ _ _ _ _ _ hsource _ => exact hsource
    rw [fromComposite_eq_some]
    refine forall_congr' fun h => ?_
    rw [publishedRules_iff, and_iff_right (hchecked h)]

end Fence

section Examples

attribute [local instance] asciiTables

/-- An HTTP source whose manifest is anywhere and anything. -/
def looseManifest : ModuleSource where
  type := typeHttp
  oci := none
  http := some
    { url := "https://a.b/m".toList
      digest := "sha256:".toList ++ List.replicate 64 '0'
      manifestUrl := "ftp://a.b/y".toList
      manifestDigest := [] }
  path := []
  manifestPath := []
  fromField := []
  allowEmpty := false

/-- A reference with a second `@`. -/
def twiceAt : ModuleSource where
  type := typeOci
  oci := some
    { ref := "u@a.b/m@sha256:".toList ++ List.replicate 64 '0'
      credentials := [] }
  http := none
  path := []
  manifestPath := []
  fromField := []
  allowEmpty := false

/-- Sources that break a published rule and are accepted. -/
theorem loose_sources_accepted :
    (¬ PublishedRules looseManifest ∧ validateSource looseManifest = .ok () ∧
      @fromComposite Empty _ _ (fun _ => []) looseManifest none none = .ok (some looseManifest)) ∧
    (¬ PublishedRules twiceAt ∧ validateSource twiceAt = .ok () ∧
      @fromComposite Empty _ _ (fun _ => []) twiceAt none none = .ok (some twiceAt)) := by
  constructor
  · refine ⟨fun h => ?_, by decide +kernel, by decide +kernel⟩
    have hdigest := (h.together _ rfl).2 rfl
    cases hdigest
  · refine ⟨fun h => ?_, by decide +kernel, by decide +kernel⟩
    rcases h.ref _ rfl with ⟨name, hpins, hat⟩
    have hname : name = "u@a.b/m".toList := pins_unique hpins (pins_iff.2
      ⟨"sha256:".toList ++ List.replicate 64 '0', by decide +kernel, by decide, by decide,
        by decide +kernel⟩)
    rw [hname] at hat
    exact hat (by decide)

end Examples
end FunctionWasm

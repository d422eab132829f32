import FunctionWasm.Registry.Layers
import FunctionWasm.Source.AnyReference
import FunctionWasm.Validate.RoundTrip

/-!
# Push — what is published of a module and what a runtime reads of it

`guestfn push` publishes the module and its manifest as the layers of one artifact.

* `OciManifest.read` is how a runtime reads the manifest of an artifact.
* `artifact` is what is published, `PushCmd.loadManifest` the manifest that is published with it.
* `Push.ReadBack` says that a runtime gets back what was published; `read_back_iff` says when.
* `version_too_long` is a version that makes a manifest too long to be read.
-/

namespace FunctionWasm

open Authz Egress Json

/-! ## The manifest of an artifact as it is read -/

/-- A map of texts. -/
def readTexts : Json → Option (List (Text × Text))
  | .object entries => entries.mapM fun e => (asStr e.2).map fun t => (e.1, t)
  | _ => none

def Descriptor.names : List Text :=
  ["mediaType", "digest", "size", "annotations"].map String.toList

def Descriptor.read (v : Json) : Option Descriptor :=
  (readRecord false names v).bind fun
    | [mediaType, digest, size, annotations] => do
        let mediaType ← readField asStr [] mediaType
        let digest ← readField asStr [] digest
        let size ← readField readInteger 0 size
        let _ ← readField readTexts [] annotations
        return { mediaType, digest, size }
    | _ => none

section Read

variable [JsonLibrary]

def OciManifest.names : List Text :=
  ["mediaType", "config", "layers", "annotations", "subject", "manifests"].map String.toList

def OciManifest.read (v : Json) : Option OciManifest :=
  (readRecord false names v).bind fun
    | [mediaType, config, layers, annotations, subject, manifests] => do
        let value := readValue JsonLibrary.readNumber (maxLevels - 2)
        let mediaType ← readField asStr [] mediaType
        let _ ← readField (readOption Descriptor.read) none config
        let layers ← readField (readList Descriptor.read) [] layers
        let _ ← readField readTexts [] annotations
        let subject ← readField (readOption Descriptor.read) none subject
        let manifests ← readField (readList value) [] manifests
        return { mediaType, layers, subject, manifests := manifests.map JsonText.write }
    | _ => none

/-- The manifests of an index. -/
def readIndex (v : Json) : Option (List Descriptor) :=
  (readRecord false ["manifests".toList] v).bind fun
    | [manifests] => readField (readList Descriptor.read) [] manifests
    | _ => none

end Read

class DigestLibrary where
  sha256 : Bytes → Bytes

/-- What a runtime reads of a registry. -/
@[reducible] def jsonRegistry [JsonLibrary] [DigestLibrary] : RegistryLibrary where
  sha256 := DigestLibrary.sha256
  manifestFromJson raw := do
    let doc ← JsonLibrary.parse raw
    orError (JsonLibrary.mismatch "OciManifest".toList raw) (OciManifest.read doc)
  indexFromJson raw := do
    let doc ← JsonLibrary.parse raw
    orError (JsonLibrary.mismatch "OciIndex".toList raw) (readIndex doc)

attribute [local instance] jsonRegistry

open RegistryClient (contentDigest)

/-! ## What is published -/

section Constants

def wasmConfigMediaType : Text := "application/vnd.wasm.config.v0+json".toList

def wasmLayerMediaType : Text := "application/wasm".toList

def annotationTitle : Text := "org.opencontainers.image.title".toList

def annotationVersion : Text := "org.opencontainers.image.version".toList

def annotationSource : Text := "org.opencontainers.image.source".toList

def annotationDescription : Text := "org.opencontainers.image.description".toList

def annotationRevision : Text := "org.opencontainers.image.revision".toList

end Constants

section Created

def leap (year : Nat) : Bool := year % 4 = 0 ∧ (year % 100 ≠ 0 ∨ year % 400 = 0)

def daysOf (year : Nat) : Nat := if leap year then 366 else 365

/-- The year of a day that many days after the first of a year, and the day within it; every year
has days, so that as many years are looked at as there are days. -/
def yearAndDay : (fuel year days : Nat) → Nat × Nat
  | 0, year, days => (year, days)
  | fuel + 1, year, days =>
      if days < daysOf year then (year, days)
      else yearAndDay fuel (year + 1) (days - daysOf year)

def monthLengths (year : Nat) : List Nat :=
  [31, if leap year then 29 else 28, 31, 30, 31, 30, 31, 31, 30, 31, 30, 31]

/-- The month of a day of a year, counted from nought, and the day within it. -/
def monthAndDay : List Nat → Nat → Nat × Nat
  | [], day => (0, day)
  | length :: lengths, day =>
      if day < length then (0, day)
      else
        let (month, day) := monthAndDay lengths (day - length)
        (month + 1, day)

/-- A number with leading zeros. -/
def padded (width n : Nat) : Text :=
  List.replicate (width - (decimalText n).length) '0' ++ decimalText n

def rfc3339 (secs : Nat) : Text :=
  let days := secs / 86400
  let (year, day) := yearAndDay days 1970 days
  let (month, day) := monthAndDay (monthLengths year) day
  padded 4 year ++ "-".toList ++ padded 2 (month + 1) ++ "-".toList ++ padded 2 (day + 1) ++
    "T".toList ++ padded 2 (secs % 86400 / 3600) ++ ":".toList ++ padded 2 (secs % 3600 / 60) ++
    ":".toList ++ padded 2 (secs % 60) ++ "Z".toList

example : rfc3339 1756166400 = "2025-08-26T00:00:00Z".toList := by decide +kernel

end Created

section Artifact

variable [JsonLibrary] [DigestLibrary]

structure DescriptorOut where
  mediaType : Text
  size : Nat
  digest : Text

def DescriptorOut.fields (d : DescriptorOut) : Fields :=
  [("mediaType".toList, some (.string d.mediaType)),
    ("size".toList, some (.number (intText d.size))),
    ("digest".toList, some (.string d.digest))]

def DescriptorOut.json (d : DescriptorOut) : Json := record d.fields

/-- What describes some content of a media type. -/
def describe (mediaType : Text) (content : Bytes) : DescriptorOut where
  mediaType := mediaType
  size := content.length
  digest := contentDigest content

/-- The artifact's config. -/
def wasmConfig (created : Nat) (layers : List DescriptorOut) : Json :=
  record
    [("created".toList, some (.string (rfc3339 created))),
      ("architecture".toList, some (.string "wasm".toList)),
      ("os".toList, some (.string "wasip1".toList)),
      ("layerDigests".toList, some (texts (layers.map DescriptorOut.digest)))]

abbrev Annotations := EntryMap Text Text

def annotationsJson (a : Annotations) : Json :=
  .object ((inOrder a).map fun e => (e.1, .string e.2))

def manifestOutFields (config : DescriptorOut) (layers : List DescriptorOut)
    (annotations : Option Annotations) : Fields :=
  [("schemaVersion".toList, some (.number (intText 2))),
    ("mediaType".toList, some (.string ociManifestType)),
    ("config".toList, some config.json),
    ("layers".toList, some (.array (layers.map DescriptorOut.json))),
    ("annotations".toList, annotations.map annotationsJson)]

structure Artifact where
  raw : Bytes
  digest : Text
  config : Bytes

/-- The layers: the module, and its manifest if there is one. -/
def layersOut (wasm : Bytes) (manifestJson : Option Bytes) : List DescriptorOut :=
  describe wasmLayerMediaType wasm ::
    (manifestJson.map fun mj => describe manifestLayerType mj).toList

def artifact (wasm : Bytes) (created : Nat) (manifestJson : Option Bytes)
    (annotations : Option Annotations) : Artifact :=
  let layers := layersOut wasm manifestJson
  let config := (wasmConfig created layers).bytes
  let raw :=
    (record (manifestOutFields (describe wasmConfigMediaType config) layers annotations)).bytes
  { raw := raw, digest := contentDigest raw, config := config }

end Artifact

/-! ## The manifest that is published -/

section Command

variable [DocumentLibrary] [HttpLibrary]

/-- The annotations of an artifact: what is there to record. -/
def annotations (m : Option ManifestDocument) (revision : Option Text) : Option Annotations :=
  let mirrored := (m.map fun m =>
    [(annotationTitle, m.name), (annotationVersion, m.version), (annotationSource, m.source),
      (annotationDescription, m.description)]).getD []
  let recorded := mirrored ++ (revision.map fun r => (annotationRevision, r)).toList
  let out := insertAll Prod.fst Prod.snd ∅ (recorded.filter fun e => e.2 ≠ [])
  if out.keys = [] then none else some out

structure PushCmd where
  ref : Text
  file : Text
  manifest : Option Text
  moduleVersion : Option Text
  revision : Option Text

/-- The files of a project. -/
structure ProjectFiles where
  /-- Where a manifest is looked for next to a file. -/
  beside : Text → Text
  isFile : Text → Bool
  read : Text → Except Text Bytes

namespace PushCmd

def manifestPath (cmd : PushCmd) (files : ProjectFiles) : Except Text (Option Text) :=
  match cmd.manifest with
  | some path => .ok (some path)
  | none =>
      let candidate := files.beside cmd.file
      if files.isFile candidate then .ok (some candidate)
      else if cmd.moduleVersion.isSome then
        .error ("--module-version needs a manifest: no guestfn.yaml next to ".toList ++ cmd.file ++
          " and no --manifest".toList)
      else .ok none

/-- The manifest to publish, with the version that overrides its own. -/
def loadManifest (cmd : PushCmd) (files : ProjectFiles) :
    Except Text (Option ManifestDocument) := do
  match ← cmd.manifestPath files with
  | none => return none
  | some path =>
      let m ← ManifestDocument.load path (files.read path)
      return some { m with version := cmd.moduleVersion.getD m.version }

variable [DigestLibrary] [UnicodeTables]

/-- What a command has published when the registry takes it. -/
structure Published where
  wasm : Bytes
  manifest : Option ManifestDocument
  reference : AnyReference
  artifact : Artifact

/-- The command without its uploads; `checkModule` is the runtime's check of a module. -/
def run (cmd : PushCmd) (files : ProjectFiles) (checkModule : Bytes → Except Text Unit)
    (created : Nat) : Except Text Published := do
  let wasm ← (files.read cmd.file).mapError
    fun e => "cannot read ".toList ++ cmd.file ++ ": ".toList ++ e
  (checkModule wasm).mapError fun e =>
    cmd.file ++ " would be refused by the runtime and is not pushed: ".toList ++ e ++
      (" (guestfn push publishes function-wasm modules; use oras push for other " ++
        "artifacts)").toList
  let manifest ← cmd.loadManifest files
  let reference ← parseAnyReference cmd.ref
  let published := artifact wasm created (manifest.map ManifestDocument.json)
    (annotations manifest cmd.revision)
  return { wasm := wasm, manifest := manifest, reference := reference, artifact := published }

end PushCmd

end Command

/-! ## What is read of it -/

section Read

/-- A descriptor that was published, as it is read. -/
def DescriptorOut.descriptor (d : DescriptorOut) : Descriptor where
  mediaType := d.mediaType
  digest := d.digest
  size := d.size

/-- The image manifest of some layers. -/
def OciManifest.image (layers : List DescriptorOut) : OciManifest where
  mediaType := ociManifestType
  layers := layers.map DescriptorOut.descriptor
  subject := none
  manifests := []

theorem DescriptorOut.nodup_names (d : DescriptorOut) : (d.fields.map Prod.fst).Nodup := by
  show (["mediaType", "size", "digest"].map String.toList).Nodup
  decide

theorem Descriptor.read_json {d : DescriptorOut} (h : d.size < 2 ^ 63) :
    Descriptor.read d.json = some d.descriptor := by
  have hfields : readRecord false Descriptor.names d.json =
      some [some (.string d.mediaType), some (.string d.digest),
        some (.number (intText d.size)), none] :=
    readRecord_lookup d.nodup_names
  have hsize : readInteger (.number (intText d.size)) = some (d.size : Int) :=
    readI64_intText (by omega) (by omega)
  rw [Descriptor.read, hfields]
  simp only [Option.bind_some, readField_some, hsize]
  rfl

theorem readTexts_annotationsJson (a : Annotations) :
    readTexts (annotationsJson a) = some (inOrder a) := by
  show ((inOrder a).map fun e => (e.1, Json.string e.2)).mapM _ = _
  rw [mapM_eq_some_iff, List.forall₂_map_left_iff, List.forall₂_same]
  exact fun _ _ => rfl

theorem nodup_manifestOut (config : DescriptorOut) (layers : List DescriptorOut)
    (annotations : Option Annotations) :
    ((manifestOutFields config layers annotations).map Prod.fst).Nodup := by
  show (["schemaVersion", "mediaType", "config", "layers", "annotations"].map String.toList).Nodup
  decide

/-- The manifest of an artifact is that of an image with its layers. -/
theorem OciManifest.read_manifestOut [JsonLibrary] {config : DescriptorOut}
    {layers : List DescriptorOut} (annotations : Option Annotations)
    (hconfig : config.size < 2 ^ 63) (hlayers : ∀ d ∈ layers, d.size < 2 ^ 63) :
    OciManifest.read (record (manifestOutFields config layers annotations)) =
      some (OciManifest.image layers) := by
  have hfields : readRecord false OciManifest.names
      (record (manifestOutFields config layers annotations)) =
      some [some (.string ociManifestType), some config.json,
        some (.array (layers.map DescriptorOut.json)), annotations.map annotationsJson, none,
        none] := by
    rw [readRecord_lookup (nodup_manifestOut config layers annotations)]
    cases annotations <;> rfl
  have hread : readList Descriptor.read (.array (layers.map DescriptorOut.json)) =
      some (layers.map DescriptorOut.descriptor) :=
    readList_map fun d hd => Descriptor.read_json (hlayers d hd)
  have hannotations : ∃ read,
      readField readTexts [] (annotations.map annotationsJson) = some read := by
    cases annotations with
    | none => exact ⟨[], rfl⟩
    | some a => exact ⟨inOrder a, readTexts_annotationsJson a⟩
  obtain ⟨read, hannotations⟩ := hannotations
  have hconfig' : readOption Descriptor.read config.json = some (some config.descriptor) := by
    show (Descriptor.read config.json).map some = _
    rw [Descriptor.read_json hconfig]
    rfl
  rw [OciManifest.read, hfields]
  simp only [Option.bind_some, readField_some, hread, hannotations, hconfig']
  rfl

theorem isValue_describe [JsonLibrary] {d : DescriptorOut} (h : d.size < 2 ^ 63) {levels : Nat} :
    d.json.IsValue JsonLibrary.Printed (levels + 1) := by
  refine isValue_record d.nodup_names ?_
  simp only [Fields.AreValues, DescriptorOut.fields, List.forall_mem_cons]
  exact ⟨isValue_some (.string _),
    isValue_some (.number (JsonLibrary.printed_int d.size (by omega) (by omega))),
    isValue_some (.string _), List.forall_mem_nil _⟩

theorem isValue_annotationsJson {kind : Text → Prop} {levels : Nat} (a : Annotations) :
    (annotationsJson a).IsValue kind (levels + 1) := by
  have hkeys : (((inOrder a).map fun e => (e.1, Json.string e.2)).map Prod.fst).Nodup := by
    rw [List.map_map]
    exact nodup_map_fst_inOrder a
  refine .object hkeys fun e he => ?_
  obtain ⟨_, -, rfl⟩ := List.mem_map.1 he
  exact .string _

/-- The manifest of an artifact is a document that is read as it is. -/
theorem isValue_manifestOut [JsonLibrary] {config : DescriptorOut} {layers : List DescriptorOut}
    (annotations : Option Annotations) (hconfig : config.size < 2 ^ 63)
    (hlayers : ∀ d ∈ layers, d.size < 2 ^ 63) :
    (record (manifestOutFields config layers annotations)).IsValue JsonLibrary.Printed
      maxLevels := by
  refine isValue_record (nodup_manifestOut config layers annotations) ?_
  simp only [Fields.AreValues, manifestOutFields, List.forall_mem_cons]
  exact ⟨isValue_some (.number (JsonLibrary.printed_int 2 (by decide) (by decide))),
    isValue_some (.string _), isValue_some (isValue_describe hconfig),
    isValue_some (isValue_list fun d hd => isValue_describe (hlayers d hd)),
    isValue_map fun a _ => isValue_annotationsJson a, List.forall_mem_nil _⟩

end Read

/-! ## What was published and what is read -/

/-- The next request of a session is answered with some bytes. -/
def Session.Next (s : Session) (b : Bytes) : Prop := s.answers s.log.length = .ok b

theorem RegistryClient.getAs_next {url what : Text} {accept : Option Text} {limit : Nat}
    {s : Session} {b : Bytes} (h : s.Next b) (hlimit : b.length ≤ limit) :
    getAs url accept limit what s = (.ok b, (s.ask ⟨url, accept⟩).2) := by
  have hask : s.ask ⟨url, accept⟩ = (.ok b, (s.ask ⟨url, accept⟩).2) := Prod.ext h rfl
  unfold getAs
  rw [hask]
  exact if_neg (Nat.not_lt.2 hlimit)

theorem RegistryClient.blob_next {c : RegistryClient} {digest label : Text} {limit : Nat}
    {s : Session} {b : Bytes} (h : s.Next b) (hlimit : b.length ≤ limit) :
    (c.blob digest limit label s).1 = .ok b := by
  unfold blob
  rw [getAs_next h hlimit]

/-- The manifest of an image that is served under its digest is read. -/
theorem RegistryClient.manifest_next [RegistryLibrary] {reference : OciReference} {s : Session}
    {raw : Bytes} {m : OciManifest} (h : s.Next raw) (hlimit : raw.length ≤ unlimited)
    (hdigest : contentDigest raw = reference.digest)
    (hread : RegistryLibrary.manifestFromJson raw = .ok m) (htype : m.mediaType = ociManifestType)
    (hmanifests : m.manifests = []) :
    ((RegistryClient.new reference).manifest reference s).1 = .ok m := by
  have hplain : occursIn "index".toList ociManifestType = false ∧
      occursIn "manifest.list".toList ociManifestType = false := by decide +kernel
  unfold manifest manifestByDigest
  rw [getAs_next h hlimit]
  simp only [hdigest, if_true, hread, htype, hmanifests, hplain]
  rfl

section Push

variable [DocumentLibrary] [HttpLibrary] [DigestLibrary]

/-- A push of a module with the manifest that was loaded for it; no buffer is larger than memory
allows. -/
structure Push where
  wasm : Bytes
  cmd : PushCmd
  files : ProjectFiles
  manifest : Option ManifestDocument
  loaded : cmd.loadManifest files = .ok manifest
  created : Nat
  annotations : Option Annotations
  wasm_fits : wasm.length < 2 ^ 63
  config_fits :
    (artifact wasm created (manifest.map ManifestDocument.json) annotations).config.length < 2 ^ 63
  raw_fits :
    (artifact wasm created (manifest.map ManifestDocument.json) annotations).raw.length < 2 ^ 63

namespace Push

def artifact (p : Push) : Artifact :=
  FunctionWasm.artifact p.wasm p.created (p.manifest.map ManifestDocument.json) p.annotations

/-- What a command publishes was pushed. -/
theorem of_run [UnicodeTables] {cmd : PushCmd} {files : ProjectFiles}
    {checkModule : Bytes → Except Text Unit} {created : Nat} {r : PushCmd.Published} (h : cmd.run files checkModule created = .ok r)
    (hwasm : r.wasm.length < 2 ^ 63) (hconfig : r.artifact.config.length < 2 ^ 63)
    (hraw : r.artifact.raw.length < 2 ^ 63) :
    ∃ p : Push, p.wasm = r.wasm ∧ p.manifest = r.manifest ∧ p.artifact = r.artifact := by
  obtain ⟨wasm, -, h⟩ := bind_eq_ok.1 h
  obtain ⟨-, h⟩ := check_bind_eq_ok.1 h
  obtain ⟨manifest, hloaded, h⟩ := bind_eq_ok.1 h
  obtain ⟨reference, -, h⟩ := bind_eq_ok.1 h
  obtain rfl := Except.ok.inj h
  exact ⟨⟨wasm, cmd, files, manifest, hloaded, created,
    FunctionWasm.annotations manifest cmd.revision, hwasm, hconfig, hraw⟩, rfl, rfl, rfl⟩

/-- A layer is described as some content is. -/
def Describes (layer : Descriptor) (content : Bytes) : Prop :=
  layer.digest = contentDigest content ∧ layer.size = content.length

/-- A runtime gets back what was published: under the artifact's digest the manifest of an image,
whose layers are the module, not in an archive, and the manifest, if there is one, which is within
the limit of its reader and parses as what it was. -/
def ReadBack (p : Push) : Prop :=
  ∃ m : OciManifest,
    (∀ (reference : OciReference) (s : Session), reference.digest = p.artifact.digest →
      s.Next p.artifact.raw → ((RegistryClient.new reference).manifest reference s).1 = .ok m) ∧
    (∃ layer, wasmLayer m = .ok layer ∧ isTarLayer layer.mediaType = false ∧
      Describes layer p.wasm) ∧
    match p.manifest with
    | none => manifestLayer m = none
    | some published =>
        ∃ layer, manifestLayer m = some layer ∧ Describes layer published.json ∧
          (∀ (c : RegistryClient) (s : Session), s.Next published.json →
            (c.blob layer.digest maxModuleManifestSize "manifest layer".toList s).1 =
              .ok published.json) ∧
          ManifestDocument.parse published.json = .ok published

/-- The layers that are published. -/
def layers (p : Push) : List DescriptorOut :=
  layersOut p.wasm (p.manifest.map ManifestDocument.json)

/-- The manifest of the artifact. -/
def document (p : Push) : Json :=
  record (manifestOutFields (describe wasmConfigMediaType p.artifact.config) p.layers
    p.annotations)

/-- Published layers are read as those of an image. -/
theorem manifest_published (p : Push) (hlayers : ∀ d ∈ p.layers, d.size < 2 ^ 63)
    {reference : OciReference} {s : Session} (hdigest : reference.digest = p.artifact.digest)
    (hnext : s.Next p.artifact.raw) :
    ((RegistryClient.new reference).manifest reference s).1 = .ok (.image p.layers) := by
  have hparse : JsonLibrary.parse p.artifact.raw = .ok p.document :=
    JsonLibrary.parse_bytes _ (isValue_manifestOut p.annotations p.config_fits hlayers)
  have himage : OciManifest.read p.document = some (.image p.layers) :=
    OciManifest.read_manifestOut p.annotations p.config_fits hlayers
  have hread : RegistryLibrary.manifestFromJson p.artifact.raw = .ok (.image p.layers) := by
    show (JsonLibrary.parse p.artifact.raw >>= fun doc => orError _ (OciManifest.read doc)) = _
    rw [hparse, ok_bind, himage]
    rfl
  have hraw : p.artifact.raw.length ≤ RegistryClient.unlimited :=
    Nat.le_trans (Nat.le_of_lt p.raw_fits) (by decide)
  exact RegistryClient.manifest_next hnext hraw hdigest.symm hread rfl rfl

theorem wasmLayer_image (p : Push) :
    wasmLayer (.image p.layers) = .ok (describe wasmLayerMediaType p.wasm).descriptor := by
  have hwasm : wasmLayerMediaType ∈ wasmLayerTypes := by decide
  have hfirst : (OciManifest.image p.layers).layers.find? (fun l => l.mediaType ∈ wasmLayerTypes) =
      some (describe wasmLayerMediaType p.wasm).descriptor :=
    List.find?_cons_of_pos (decide_eq_true hwasm)
  unfold wasmLayer
  rw [hfirst]

theorem manifestLayer_image (p : Push) :
    manifestLayer (.image p.layers) =
      p.manifest.map fun m => (describe manifestLayerType m.json).descriptor := by
  have hwasm : wasmLayerMediaType ≠ manifestLayerType := by decide
  unfold manifestLayer OciManifest.image layers layersOut
  cases p.manifest with
  | none => simp [describe, DescriptorOut.descriptor, hwasm]
  | some m => simp [describe, DescriptorOut.descriptor, hwasm]

/-- What is published was loaded. -/
theorem read_of_loaded {p : Push} {published : ManifestDocument}
    (h : p.manifest = some published) :
    published.Read ∧ published.toManifest.validate = .ok () := by
  have hloaded := p.loaded
  rw [h] at hloaded
  obtain ⟨path, -, hloaded⟩ := bind_eq_ok.1 hloaded
  cases path with
  | none => cases hloaded
  | some path =>
      obtain ⟨m, hm, hloaded⟩ := bind_eq_ok.1 hloaded
      cases hloaded
      obtain ⟨raw, hparse⟩ := ManifestDocument.parse_of_load hm
      obtain ⟨hlow, hhigh, hschema⟩ := ManifestDocument.read_of_parse hparse
      -- the version takes no part in either
      exact ⟨⟨hlow, hhigh, hschema⟩, (ManifestDocument.parse_eq_ok_iff.1 hparse).2.1⟩

/-- What is read of a manifest is as short as its reader demands, and its schema's numbers are
understood as they are printed. -/
theorem read_back_iff (p : Push) :
    p.ReadBack ↔ ∀ published ∈ p.manifest,
      published.json.length ≤ maxModuleManifestSize ∧ published.NumbersKept := by
  constructor
  · rintro ⟨m, -, -, hmanifest⟩ published hpublished
    obtain ⟨hread, hvalid⟩ := read_of_loaded hpublished
    rw [hpublished] at hmanifest
    obtain ⟨layer, -, -, -, hparse⟩ := hmanifest
    exact (ManifestDocument.parse_json_iff hread hvalid).1 hparse
  · intro h
    have hraw : isTarLayer wasmLayerMediaType = false := by decide +kernel
    refine ⟨.image p.layers, fun reference s => p.manifest_published ?_,
      ⟨_, p.wasmLayer_image, hraw, rfl, rfl⟩, ?_⟩
    · refine List.forall_mem_cons.2 ⟨p.wasm_fits, fun d hd => ?_⟩
      obtain ⟨_, hjson, rfl⟩ := Option.map_eq_some_iff.1 (Option.mem_toList.1 hd)
      obtain ⟨published, hpublished, rfl⟩ := Option.map_eq_some_iff.1 hjson
      exact Nat.lt_of_le_of_lt (h published hpublished).1 (by decide)
    have hlayer := p.manifestLayer_image
    cases hpublished : p.manifest with
    | none => rwa [hpublished] at hlayer
    | some published =>
        obtain ⟨hread, hvalid⟩ := read_of_loaded hpublished
        obtain ⟨hlength, hkept⟩ := h published hpublished
        rw [hpublished] at hlayer
        exact ⟨_, hlayer, ⟨rfl, rfl⟩, fun c s hnext => RegistryClient.blob_next hnext hlength,
          (ManifestDocument.parse_json_iff hread hvalid).2 ⟨hlength, hkept⟩⟩

end Push
end Push

/-! ## A version that is too long -/

section Sample

/-- A digest that is the first bytes themselves. -/
@[reducible] def prefixDigests : DigestLibrary where
  sha256 b := (b ++ List.replicate 32 0).take 32

attribute [local instance] oneUrl plainDocuments prefixDigests

/-- A manifest with a version of some length. -/
def versioned (n : Nat) : ManifestDocument where
  type := []
  abi := 2
  name := []
  version := List.replicate n 'a'
  source := []
  description := []
  requires := none
  config := none
  minRuntime := []
  composes := []

theorem versioned_read (n : Nat) : (versioned n).Read where
  abi_low := by show (-2 ^ 63 : Int) ≤ 2; decide
  abi_high := by show (2 : Int) < 2 ^ 63; decide
  schema := by simp [versioned]

theorem document_versioned {n : Nat} (hn : n ≠ 0) :
    (versioned n).document =
      .object [("abi".toList, .number "2".toList),
        ("version".toList, .string (List.replicate n 'a'))] := by
  have hversion : skipEmpty (List.replicate n 'a') = some (.string (List.replicate n 'a')) :=
    if_neg fun h => hn ((List.replicate_eq_nil_iff _).1 h)
  show record [("type".toList, none), ("abi".toList, some (.number (intText 2))),
    ("name".toList, none), ("version".toList, skipEmpty (List.replicate n 'a')),
    _, _, _, _, _, _] = _
  rw [hversion]
  rfl

theorem write_versioned {n : Nat} (hn : n ≠ 0) :
    JsonText.write (versioned n).document =
      "\x7b\"abi\":2,\"version\":\"".toList ++
        (List.replicate n 'a' ++ "\"\x7d".toList) := by
  have hbody : (List.replicate n 'a').flatMap JsonText.escapeChar = List.replicate n 'a' := by
    clear hn
    induction n with
    | zero => rfl
    | succ n ih => rw [List.replicate_succ, List.flatMap_cons, ih]; rfl
  rw [document_versioned hn]
  simp only [JsonText.write, JsonText.writeEntries, JsonText.writeString, hbody]
  simp [JsonText.escapeChar]

theorem length_json_versioned {n : Nat} (hn : n ≠ 0) : (versioned n).json.length = n + 22 := by
  have hbody : (textBytes (List.replicate n 'a')).length = n := by
    clear hn
    induction n with
    | zero => rfl
    | succ n ih => 
      rw [List.replicate_succ]
      exact congrArg (· + 1) ih
  show (textBytes (JsonText.write (versioned n).document)).length = _
  rw [write_versioned hn]
  unfold textBytes at hbody ⊢
  rw [List.flatMap_append, List.flatMap_append, List.length_append, List.length_append, hbody]
  have hends : ("\x7b\"abi\":2,\"version\":\"".toList.flatMap String.utf8EncodeChar).length = 20 ∧
      ("\"\x7d".toList.flatMap String.utf8EncodeChar).length = 2 := by decide
  omega

def longVersionCmd : PushCmd where
  ref := "ghcr.io/me/my-fn:v1".toList
  file := "fn.wasm".toList
  manifest := none
  moduleVersion := some (List.replicate 65536 'a')
  revision := none

/-- A project whose manifest has a short version. -/
def shortVersionFiles : ProjectFiles where
  beside _ := "guestfn.yaml".toList
  isFile path := path = "guestfn.yaml".toList
  read _ := .ok (versioned 1).json

theorem longVersion_loaded :
    longVersionCmd.loadManifest shortVersionFiles = .ok (some (versioned 65536)) := by
  have hread := versioned_read 1
  have hlength : (versioned 1).json.length ≤ maxModuleManifestSize := by
    rw [length_json_versioned (by decide)]
    decide
  have hparse : ManifestDocument.parse (versioned 1).json = .ok (versioned 1) := by
    refine (ManifestDocument.parse_json_iff hread (by decide +kernel)).2 ⟨hlength, ?_⟩
    simp [ManifestDocument.NumbersKept, versioned]
  have hload : ManifestDocument.load "guestfn.yaml".toList (.ok (versioned 1).json) =
      .ok (versioned 1) := (ManifestDocument.load_json_iff hread _ hlength).2 ⟨rfl, hparse⟩
  have hpath : longVersionCmd.manifestPath shortVersionFiles =
      .ok (some "guestfn.yaml".toList) := rfl
  rw [PushCmd.loadManifest, hpath, ok_bind]
  show (ManifestDocument.load "guestfn.yaml".toList (.ok (versioned 1).json) >>= fun _ => _) = _
  rw [hload]
  rfl

def shortWasm : Bytes := [0, 97, 115, 109, 13, 0, 1, 0]

def longVersionArtifact : Artifact :=
  artifact shortWasm 0 (some (versioned 65536).json) none

/-- The manifest of the artifact, with the size of its second layer. -/
theorem longVersionArtifact_raw :
    longVersionArtifact.raw =
      (record (manifestOutFields (describe wasmConfigMediaType longVersionArtifact.config)
        [describe wasmLayerMediaType shortWasm,
          ⟨manifestLayerType, 65558, contentDigest (versioned 65536).json⟩] none)).bytes := by
  have hlength : (versioned 65536).json.length = 65558 := length_json_versioned (by decide)
  rw [← hlength]
  rfl

def longVersionPush : Push where
  wasm := shortWasm
  cmd := longVersionCmd
  files := shortVersionFiles
  manifest := some (versioned 65536)
  loaded := longVersion_loaded
  created := 0
  annotations := none
  wasm_fits := by decide
  config_fits := by
    show longVersionArtifact.config.length < 2 ^ 63
    decide +kernel
  raw_fits := by
    show longVersionArtifact.raw.length < 2 ^ 63
    rw [longVersionArtifact_raw]
    decide +kernel

/-- What is published with it is refused by every runtime. -/
theorem version_too_long :
    ManifestDocument.parse (versioned 65536).json =
        .error "manifest is 65558 bytes, the limit is 65536".toList ∧
      ¬ longVersionPush.ReadBack := by
  have hlength : (versioned 65536).json.length = 65558 := length_json_versioned (by decide)
  have hparse : ManifestDocument.parse (versioned 65536).json =
      .error "manifest is 65558 bytes, the limit is 65536".toList := by
    unfold ManifestDocument.parse
    rw [hlength]
    rfl
  refine ⟨hparse, ?_⟩
  rintro ⟨_, -, -, _, -, -, -, hread⟩
  rw [hparse] at hread
  cases hread

end Sample
end FunctionWasm

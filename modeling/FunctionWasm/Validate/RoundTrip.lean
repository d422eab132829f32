import FunctionWasm.Validate.Document

/-!
# RoundTrip — a published manifest read again

A manifest is read twice: `parse` reads what is published, `load` the file of its author, which it
reads strictly before it is parsed too.

* `parse_json_iff` says when what is published is parsed as what it was, `load_json_iff` when it is
  loaded so.
* `round_trip_iff` puts both together for every manifest that is accepted.
* `type_not_loaded` is a manifest that is published and then refused as a file.
-/

namespace FunctionWasm

open Authz Egress Json
open HttpLibrary (debug)

namespace ManifestDocument

variable [DocumentLibrary] [HttpLibrary]

/-! ## The two readers -/

def cannotParse (e : Text) : Text := "cannot parse manifest: ".toList ++ e

/-- The requirements as they are, if there are any. -/
def readTop (v : Json) : Option (Option Json) :=
  (readRecord false ["requires".toList] v).bind fun
    | [requires] =>
        readField (readOption (readValue JsonLibrary.readNumber (maxLevels - 1))) none requires
    | _ => none

/-- The requirements with no field that is not known: the mirrors of their parts have their
fields. -/
def strictRequires (v : Json) : Except Text Unit :=
  (orError (JsonLibrary.mismatch "StrictRequires".toList v.bytes) (requiresFormat.read true v)).map
    fun _ => ()

def strictComposes (v : Json) : Except Text Unit :=
  (orError (JsonLibrary.mismatch "StrictComposes".toList v.bytes)
    (readList (composesFormat.read true) v)).map fun _ => ()

/-- What is published. -/
def json (m : ManifestDocument) : Bytes := m.document.bytes

def parse (raw : Bytes) : Except Text ManifestDocument := do
  demand (raw.length ≤ maxModuleManifestSize)
    ("manifest is ".toList ++ decimalText raw.length ++ " bytes, the limit is ".toList ++
      decimalText maxModuleManifestSize)
  let doc ← (JsonLibrary.parse raw).mapError cannotParse
  let m ← orError (cannotParse (JsonLibrary.mismatch "Manifest".toList raw)) (read doc)
  let top ← orError (cannotParse (JsonLibrary.mismatch "Top".toList raw)) (readTop doc)
  Manifest.whenSome (top.filter fun v => !v.isNull) fun requires =>
    (strictRequires requires).mapError fun e => "cannot parse manifest requires: ".toList ++ e
  m.toManifest.validate
  return m

/-- The fields that a file may have. -/
def known : List Text :=
  ["abi", "name", "version", "source", "description", "requires", "config", "minRuntime",
    "composes"].map String.toList

/-- A file is read with no field that is not known. -/
def strictFile (path : Text) (v : Json) : Except Text Unit :=
  match v with
  | .object entries => do
      checkAll
        (fun key => demand (key ∈ known) (path ++ ": unknown field ".toList ++ debug key))
        (entries.map Prod.fst)
      Manifest.whenSome ((v.get "composes".toList).filter fun v => !v.isNull) fun composes =>
        (strictComposes composes).mapError
          fun e => path ++ ": cannot parse composes: ".toList ++ e
  | _ => .ok ()

def load (path : Text) (file : Except Text Bytes) : Except Text ManifestDocument := do
  let raw ← file.mapError fun e => "cannot read ".toList ++ path ++ ": ".toList ++ e
  let value ← (DocumentLibrary.yaml raw).mapError
    fun e => path ++ " is not valid YAML: ".toList ++ e
  strictFile path value
  (parse value.bytes).mapError fun e => path ++ ": ".toList ++ e

end ManifestDocument

/-- A manifest that was read from somewhere. -/
structure AcceptedManifest [DocumentLibrary] [HttpLibrary] where
  raw : Bytes
  manifest : ManifestDocument
  accepted : ManifestDocument.parse raw = .ok manifest

namespace ManifestDocument

variable [DocumentLibrary] [HttpLibrary]

/-! ## What was accepted -/

theorem parse_eq_ok_iff {raw : Bytes} {m : ManifestDocument} :
    parse raw = .ok m ↔
      raw.length ≤ maxModuleManifestSize ∧ m.toManifest.validate = .ok () ∧
        ∃ doc, JsonLibrary.parse raw = .ok doc ∧ read doc = some m ∧
          ∃ top, readTop doc = some top ∧
            ∀ v, top = some v → v.isNull = false → strictRequires v = .ok () := by
  have hstrict : ∀ top : Option Json,
      Manifest.whenSome (top.filter fun v => !v.isNull) (fun requires =>
        (strictRequires requires).mapError
          fun e => "cannot parse manifest requires: ".toList ++ e) = .ok () ↔
        ∀ v, top = some v → v.isNull = false → strictRequires v = .ok () := by
    intro top
    simp only [Manifest.whenSome_eq_ok, Option.filter_eq_some_iff, mapError_eq_ok,
      Bool.not_eq_true', and_imp]
  unfold parse
  rw [check_bind_eq_ok, demand_eq_ok, decide_eq_true_eq]
  refine and_congr_right fun _ => ?_
  constructor
  · intro h
    obtain ⟨doc, hdoc, h⟩ := bind_eq_ok.1 h
    obtain ⟨m', hread, h⟩ := bind_eq_ok.1 h
    obtain ⟨top, htop, h⟩ := bind_eq_ok.1 h
    obtain ⟨hrequires, h⟩ := check_bind_eq_ok.1 h
    obtain ⟨hvalid, h⟩ := check_bind_eq_ok.1 h
    cases h
    exact ⟨hvalid, doc, mapError_eq_ok.1 hdoc, orError_eq_ok.1 hread, top, orError_eq_ok.1 htop,
      (hstrict top).1 hrequires⟩
  · rintro ⟨hvalid, doc, hdoc, hread, top, htop, hrequires⟩
    refine bind_eq_ok.2 ⟨doc, mapError_eq_ok.2 hdoc, bind_eq_ok.2 ⟨m, orError_eq_ok.2 hread,
      bind_eq_ok.2 ⟨top, orError_eq_ok.2 htop, ?_⟩⟩⟩
    exact check_bind_eq_ok.2 ⟨(hstrict top).2 hrequires, check_bind_eq_ok.2 ⟨hvalid, rfl⟩⟩

/-- What loads was parsed from what its file says. -/
theorem parse_of_load {path : Text}
    {file : Except Text Bytes} {m : ManifestDocument} (h : load path file = .ok m) :
    ∃ raw, parse raw = .ok m := by
  unfold load at h
  obtain ⟨raw, -, h⟩ := bind_eq_ok.1 h
  obtain ⟨value, -, h⟩ := bind_eq_ok.1 h
  obtain ⟨-, h⟩ := check_bind_eq_ok.1 h
  exact ⟨value.bytes, mapError_eq_ok.1 h⟩

/-- What parses is checked, and was read. -/
theorem read_of_parse {raw : Bytes} {m : ManifestDocument} (h : parse raw = .ok m) : m.Read := by
  obtain ⟨-, -, doc, -, hread, -⟩ := parse_eq_ok_iff.1 h
  exact read_of_read hread

omit [HttpLibrary] in
theorem readTop_document {m : ManifestDocument} :
    readTop m.document = some (m.requires.map requiresFormat.json) := by
  have hone : readRecord false ["requires".toList] (record m.fields) =
      some [m.requires.map requiresFormat.json] :=
    readRecord_one m.nodup_names (by simp [fields])
  rw [readTop, document, hone]
  have hself : ∀ r : DeclaredRequires,
      readValue JsonLibrary.readNumber (maxLevels - 1) (requiresFormat.json r) =
        some (requiresFormat.json r) := by
    intro r
    -- there are no numbers in the requirements
    have hvalue : (requiresFormat.json r).IsValue (fun _ => False) (maxLevels - 1) :=
      requiresFormat.isValue_json r (by decide)
    exact (readValue_self_iff hvalue).2 (hvalue.mono (fun _ => False.elim) le_rfl).plain
  show readField (readOption (readValue JsonLibrary.readNumber (maxLevels - 1))) none _ = _
  cases m.requires with
  | none => rfl
  | some r =>
      rw [Option.map_some, readField_some, readOption, hself]
      rfl

omit [HttpLibrary] in
theorem strictRequires_json (r : DeclaredRequires) :
    strictRequires (requiresFormat.json r) = .ok () := by
  rw [strictRequires, requiresFormat.read_json]
  rfl

/-- A manifest is parsed from what is published of it where that is not too long and its schema's
numbers are kept. -/
theorem parse_json_iff {m : ManifestDocument} (hm : m.Read)
    (hvalid : m.toManifest.validate = .ok ()) :
    parse m.json = .ok m ↔ m.json.length ≤ maxModuleManifestSize ∧ m.NumbersKept := by
  have hparse : JsonLibrary.parse m.json = .ok m.document :=
    JsonLibrary.parse_bytes _ (isValue_document hm)
  rw [parse_eq_ok_iff]
  constructor
  · rintro ⟨hlength, -, doc, hdoc, hread, -⟩
    rw [hparse] at hdoc
    cases hdoc
    exact ⟨hlength, (read_document_iff hm).1 hread⟩
  · rintro ⟨hlength, hkept⟩
    refine ⟨hlength, hvalid, m.document, hparse, (read_document_iff hm).2 hkept,
      _, readTop_document, ?_⟩
    rintro v hv -
    obtain ⟨r, -, rfl⟩ := Option.map_eq_some_iff.1 hv
    exact strictRequires_json r

omit [HttpLibrary] in
/-- Every field that a manifest has but its type is known of files. -/
theorem known_iff {m : ManifestDocument} :
    (∀ key ∈ (present m.fields).map Prod.fst, key ∈ known) ↔ m.type = [] := by
  have htype : (present m.fields).lookup "type".toList = skipEmpty m.type :=
    lookup_present m.nodup_names (by simp [fields])
  have hnames : ∀ name ∈ names, name ≠ "type".toList → name ∈ known := by decide
  constructor
  · intro h
    by_contra hset
    have hlookup : (present m.fields).lookup "type".toList = some (.string m.type) :=
      htype.trans (if_neg hset)
    obtain ⟨before, after, heq, -⟩ := List.lookup_eq_some_iff.1 hlookup
    have hkey : "type".toList ∈ (present m.fields).map Prod.fst := by simp [heq]
    exact absurd (h _ hkey) (by decide)
  · intro hset key hkey
    refine hnames key ((keys_present m.fields).subset hkey) ?_
    rintro rfl
    rw [skipEmpty, if_pos hset, List.lookup_eq_none_iff] at htype
    obtain ⟨e, he, heq⟩ := List.mem_map.1 hkey
    exact absurd heq.symm (by simpa using htype e he)

/-- A file with a manifest is read strictly where the manifest names no type. -/
theorem strictFile_document_iff {m : ManifestDocument} (path : Text) :
    strictFile path m.document = .ok () ↔ m.type = [] := by
  have hcomposes : m.document.get "composes".toList = skipNil composesFormat.json m.composes :=
    lookup_present m.nodup_names (by simp [fields])
  have hstrict : ∀ v, m.document.get "composes".toList = some v → strictComposes v = .ok () := by
    intro v hv
    rw [hcomposes, skipNil] at hv
    split at hv
    · cases hv
    · cases hv
      rw [strictComposes, readList_map_self fun c _ => composesFormat.read_json true c]
      rfl
  show (checkAll _ ((present m.fields).map Prod.fst) >>= fun _ => _) = _ ↔ _
  rw [check_bind_eq_ok, checkAll_eq_ok, ← known_iff]
  simp only [demand_eq_ok, decide_eq_true_eq, Manifest.whenSome_eq_ok, Option.filter_eq_some_iff,
    mapError_eq_ok, and_imp]
  exact ⟨fun h => h.1, fun h => ⟨h, fun v hv _ => hstrict v hv⟩⟩

/-- A manifest is loaded from a file with what is published of it where it names no type and is
parsed from that. -/
theorem load_json_iff {m : ManifestDocument} (hm : m.Read) (path : Text)
    (hlength : m.json.length ≤ maxModuleManifestSize) :
    load path (.ok m.json) = .ok m ↔ m.type = [] ∧ parse m.json = .ok m := by
  have hyaml : DocumentLibrary.yaml m.json = .ok m.document :=
    DocumentLibrary.yaml_bytes _ (isValue_document hm) hlength
  have hload : load path (.ok m.json) = (strictFile path m.document >>= fun _ =>
      (parse m.json).mapError fun e => path ++ ": ".toList ++ e) := by
    simp only [load, mapError_ok, ok_bind, hyaml]
    rfl
  rw [hload, check_bind_eq_ok, mapError_eq_ok, strictFile_document_iff]

/-- An accepted manifest is parsed and loaded from what is published of it exactly where it names
no type, that is not too long and the numbers of its schema are kept. -/
theorem round_trip_iff (a : AcceptedManifest) (path : Text) :
    parse a.manifest.json = .ok a.manifest ∧ load path (.ok a.manifest.json) = .ok a.manifest ↔
      a.manifest.type = [] ∧ a.manifest.json.length ≤ maxModuleManifestSize ∧
        a.manifest.NumbersKept := by
  have hm : a.manifest.Read := read_of_parse a.accepted
  have hvalid := (parse_eq_ok_iff.1 a.accepted).2.1
  have hparse := parse_json_iff hm hvalid
  constructor
  · rintro ⟨hparsed, hloaded⟩
    obtain ⟨hlength, hkept⟩ := hparse.1 hparsed
    exact ⟨((load_json_iff hm path hlength).1 hloaded).1, hlength, hkept⟩
  · rintro ⟨htype, hlength, hkept⟩
    have hparsed := hparse.2 ⟨hlength, hkept⟩
    exact ⟨hparsed, (load_json_iff hm path hlength).2 ⟨htype, hparsed⟩⟩

end ManifestDocument

/-! ## A type that is written and not known -/

section Sample

theorem isNumber_int (n : Int) : JsonText.IsNumber (toString n).toList := by
  have hdigits : ∀ k, ∀ c ∈ decimalText k, JsonText.isNumberChar c = true := by
    intro k c hc
    simp [JsonText.isNumberChar, decimalText_digit hc]
  cases n with
  | ofNat k =>
      have htext : (toString (Int.ofNat k)).toList = decimalText k := toString_decimal k
      rw [htext]
      exact ⟨decimalText_ne_nil k, hdigits k⟩
  | negSucc k =>
      have htext : (toString (Int.negSucc k)).toList = '-' :: decimalText (k + 1) :=
        intText_negSucc k
      rw [htext]
      exact ⟨by simp, List.forall_mem_cons.2 ⟨rfl, hdigits (k + 1)⟩⟩

def readBytes (bs : Bytes) : Except Text Json :=
  orError "no JSON".toList ((utf8? bs).bind JsonText.read)

theorem readBytes_bytes {doc : Json} {levels : Nat}
    (h : doc.IsValue JsonText.IsNumber levels) : readBytes doc.bytes = .ok doc := by
  rw [readBytes, Json.bytes, utf8?_textBytes, orError_eq_ok]
  exact JsonText.read_write h.plain

/-- Documents are read as they are, and every schema compiles. -/
@[reducible] def plainDocuments : DocumentLibrary where
  parse := readBytes
  readNumber t := if JsonText.IsNumber t then some t else none
  Printed := JsonText.IsNumber
  mismatch name _ := name
  printed_readNumber t p h := by
    split at h
    · next ht =>
        cases h
        exact ht
    · cases h
  printed_int n _ _ := isNumber_int n
  parse_bytes _ h := readBytes_bytes h
  yaml := readBytes
  compile _ := .ok ()
  firstError _ _ := none
  yaml_bytes _ h _ := readBytes_bytes h

attribute [local instance] oneUrl plainDocuments

def typedManifest : ManifestDocument where
  type := "wasm".toList
  abi := 2
  name := []
  version := []
  source := []
  description := []
  requires := none
  config := none
  minRuntime := []
  composes := []

theorem typedManifest_read : typedManifest.Read where
  abi_low := by decide
  abi_high := by decide
  schema := by simp [typedManifest]

/-- What is published for a component that says so is refused as a file. -/
theorem type_not_loaded :
    typedManifest.json = textBytes "\x7b\"type\":\"wasm\",\"abi\":2\x7d".toList ∧
      ManifestDocument.parse typedManifest.json = .ok typedManifest ∧
      ManifestDocument.load "guestfn.yaml".toList (.ok typedManifest.json) =
        .error "guestfn.yaml: unknown field type".toList := by
  have hjson : typedManifest.json =
      textBytes "\x7b\"type\":\"wasm\",\"abi\":2\x7d".toList :=
    congrArg textBytes (by decide +kernel)
  refine ⟨hjson, ?_, ?_⟩
  · refine (ManifestDocument.parse_json_iff typedManifest_read (by decide +kernel)).2 ⟨?_, ?_⟩
    · decide +kernel
    · simp [ManifestDocument.NumbersKept, typedManifest]
  · have hyaml : DocumentLibrary.yaml typedManifest.json = .ok typedManifest.document :=
      readBytes_bytes (ManifestDocument.isValue_document typedManifest_read)
    have hstrict : ManifestDocument.strictFile "guestfn.yaml".toList typedManifest.document =
        .error "guestfn.yaml: unknown field type".toList := by decide +kernel
    simp only [ManifestDocument.load, mapError_ok, ok_bind, hyaml, hstrict]
    rfl

end Sample
end FunctionWasm

import FunctionWasm.Foundation.JsonRecord
import FunctionWasm.Source.Fetch
import FunctionWasm.Validate.Manifest

/-!
# Document — a manifest as it is written and read

Every part of a manifest is written as a record with the fields it has, and read from one: a field
that is missing has its default, and one that is not known is passed over or, where a part is read
strictly, refused.

* `JsonLibrary` and `DocumentLibrary` are what is used of the readers of JSON and of YAML.
* `ManifestDocument` is a manifest with all its fields, `document` and `read` are its two readings.
* `read_json` says of each part that it is read as it was written, strictly or not.
* `isValue_document` says what the document of a manifest is like.
-/

namespace FunctionWasm

open Authz Egress Json

/-! ## The readers of documents -/

def Json.bytes (v : Json) : Bytes := textBytes (JsonText.write v)

/-- How deep the arrays and objects of a document may be nested. -/
def maxLevels : Nat := 127

class JsonLibrary where
  /-- The syntax alone: numbers as they are written, and keys as often as they are. -/
  parse : Bytes → Except Text Json
  /-- How a number is understood and printed again. -/
  readNumber : Text → Option Text
  Printed : Text → Prop
  /-- Why a record is not what some text holds. -/
  mismatch : Text → Bytes → Text
  printed_readNumber : ∀ t p, readNumber t = some p → Printed p
  printed_int : ∀ n : Int, -2 ^ 63 ≤ n → n < 2 ^ 63 → Printed (toString n).toList
  /-- A document that was printed is read as it is. -/
  parse_bytes : ∀ doc : Json, doc.IsValue Printed maxLevels → parse doc.bytes = .ok doc

class DocumentLibrary extends JsonLibrary where
  /-- A document in YAML, with its numbers as they are printed. -/
  yaml : Bytes → Except Text Json
  /-- Why a schema does not compile. -/
  compile : Json → Except Text Unit
  firstError : Json → Json → Option (Text × Text)
  /-- JSON is YAML. -/
  yaml_bytes : ∀ doc : Json, doc.IsValue Printed maxLevels →
    doc.bytes.length ≤ maxModuleManifestSize → yaml doc.bytes = .ok doc

@[reducible] instance manifestSchemas [DocumentLibrary] : SchemaLibrary where
  Json := Json
  isNull := Json.isNull
  emptyObject := .object []
  compile := DocumentLibrary.compile
  firstError := DocumentLibrary.firstError

def intText (n : Int) : Text := (toString n).toList

/-- An integer of 64 bits; there is no negative zero. -/
def readI64 : Text → Option Int
  | '-' :: t => ((readWord (2 ^ 63 + 1) t).filter (· ≠ 0)).map fun n : Nat => -(n : Int)
  | t => (readWord (2 ^ 63) t).map Int.ofNat

def readInteger : Json → Option Int
  | .number t => readI64 t
  | _ => none

theorem readI64_decimalText {n : Nat} (h : n < 2 ^ 63) :
    readI64 (decimalText n) = some (n : Int) := by
  have hread : readI64 (decimalText n) = (readWord (2 ^ 63) (decimalText n)).map Int.ofNat := by
    unfold readI64
    split
    · next t heq =>
        have hdigit : '-'.isDigit = true := decimalText_digit (n := n) (heq ▸ List.mem_cons_self)
        exact absurd hdigit (by decide)
    · rfl
  rw [hread, readWord_decimalText h]
  rfl

theorem intText_negSucc (n : Nat) : intText (Int.negSucc n) = '-' :: decimalText (n + 1) := by
  have hsign : toString (Int.negSucc n) = "-" ++ toString (n + 1) := rfl
  rw [intText, hsign, String.toList_append, toString_decimal]
  rfl

theorem readI64_intText {n : Int} (hlow : -2 ^ 63 ≤ n) (hhigh : n < 2 ^ 63) :
    readI64 (intText n) = some n := by
  cases n with
  | ofNat n =>
      have htext : intText (Int.ofNat n) = decimalText n := toString_decimal n
      rw [htext]
      exact readI64_decimalText (by simpa using hhigh)
  | negSucc n =>
      have hlt : n + 1 < 2 ^ 63 + 1 := by omega
      rw [intText_negSucc, readI64, readWord_decimalText hlt]
      rfl

theorem readI64_bounds {t : Text} {n : Int} (h : readI64 t = some n) :
    -2 ^ 63 ≤ n ∧ n < 2 ^ 63 := by
  unfold readI64 at h
  split at h
  · obtain ⟨k, hk, rfl⟩ := Option.map_eq_some_iff.1 h
    have hlt := readWord_lt (Option.filter_eq_some_iff.1 hk).1
    omega
  · obtain ⟨k, hk, rfl⟩ := Option.map_eq_some_iff.1 h
    have hlt := readWord_lt hk
    simp only [Int.ofNat_eq_natCast]
    omega

/-! ## The parts of a manifest -/

def asTexts : Json → Option (List Text) := readList asStr

/-- Some texts. -/
def texts (ts : List Text) : Json := .array (ts.map .string)

theorem readField_readInteger {v : Option Json} {n : Int} (h : readField readInteger 0 v = some n) :
    -2 ^ 63 ≤ n ∧ n < 2 ^ 63 := by
  cases v with
  | none =>
      cases h
      decide
  | some v =>
      rw [readField_some] at h
      cases v with
      | number t => exact readI64_bounds h
      | _ => cases h

theorem asTexts_texts (ts : List Text) : asTexts (texts ts) = some ts :=
  readList_map_self fun _ _ => rfl

theorem readField_skipTexts (ts : List Text) :
    readField asTexts [] (skipNil .string ts) = some ts :=
  readField_skipNil fun _ _ => rfl

theorem isValue_texts {kind : Text → Prop} {levels : Nat} (ts : List Text) :
    (texts ts).IsValue kind (levels + 1) :=
  isValue_list fun t _ => .string t

section Formats

def httpRuleFormat : RecordFormat HttpRule where
  names := ["host", "hostPattern", "methods", "pathPrefix"].map String.toList
  fields r :=
    [("host".toList, skipEmpty r.host),
      ("hostPattern".toList, skipEmpty r.hostPattern),
      ("methods".toList, some (texts r.methods)),
      ("pathPrefix".toList, skipEmpty r.pathPrefix)]
  ofFields
    | _, [host, hostPattern, methods, pathPrefix] => do
        return {
          host := ← readField asStr [] host
          hostPattern := ← readField asStr [] hostPattern
          methods := ← readField asTexts [] methods
          pathPrefix := ← readField asStr [] pathPrefix }
    | _, _ => none
  depth := 1
  nodup_names := by decide
  names_fields _ := rfl
  ofFields_fields strict r := by simp [readField_skipEmpty, asTexts_texts]
  areValues kind r := by
    simp only [Fields.AreValues, List.forall_mem_cons]
    exact ⟨isValue_skipEmpty, isValue_skipEmpty, isValue_some (isValue_texts _), isValue_skipEmpty,
      List.forall_mem_nil _⟩

def credentialKeyFormat : RecordFormat CredentialKey where
  names := ["name", "key"].map String.toList
  fields c := [("name".toList, some (.string c.name)), ("key".toList, some (.string c.key))]
  ofFields
    | _, [name, key] => do
        return { name := ← readField asStr [] name, key := ← readField asStr [] key }
    | _, _ => none
  depth := 0
  nodup_names := by decide
  names_fields _ := rfl
  ofFields_fields strict c := by simp [asStr]
  areValues kind c := by
    simp only [Fields.AreValues, List.forall_mem_cons]
    exact ⟨isValue_some (.string _), isValue_some (.string _), List.forall_mem_nil _⟩

def envBindingFormat : RecordFormat EnvBinding where
  names := ["name", "fromCredential"].map String.toList
  fields b :=
    [("name".toList, some (.string b.name)),
      ("fromCredential".toList, some (credentialKeyFormat.json b.fromCredential))]
  ofFields
    | strict, [name, fromCredential] => do
        return {
          name := ← readField asStr [] name
          fromCredential :=
            ← readField (credentialKeyFormat.read strict) ⟨[], []⟩ fromCredential }
    | _, _ => none
  depth := 1
  nodup_names := by decide
  names_fields _ := rfl
  ofFields_fields strict b := by simp [asStr, RecordFormat.read_json]
  areValues kind b := by
    simp only [Fields.AreValues, List.forall_mem_cons]
    exact ⟨isValue_some (.string _),
      isValue_some (credentialKeyFormat.isValue_json _ (by decide)), List.forall_mem_nil _⟩

def requiredResourceFormat : RecordFormat RequiredResource where
  names := ["kind", "by"].map String.toList
  fields r := [("kind".toList, some (.string r.kind)), ("by".toList, skipNil .string r.by_)]
  ofFields
    | _, [kind, by_] => do
        return { kind := ← readField asStr [] kind, by_ := ← readField asTexts [] by_ }
    | _, _ => none
  depth := 1
  nodup_names := by decide
  names_fields _ := rfl
  ofFields_fields strict r := by simp [readField_skipTexts, asStr]
  areValues kind r := by
    simp only [Fields.AreValues, List.forall_mem_cons]
    exact ⟨isValue_some (.string _), isValue_skipNil fun t _ => .string t, List.forall_mem_nil _⟩

def composesFormat : RecordFormat Composes where
  names := ["kind", "changes"].map String.toList
  fields c := [("kind".toList, some (.string c.kind)), ("changes".toList, skipNil .string c.changes)]
  ofFields
    | _, [kind, changes] => do
        return { kind := ← readField asStr [] kind, changes := ← readField asTexts [] changes }
    | _, _ => none
  depth := 1
  nodup_names := by decide
  names_fields _ := rfl
  ofFields_fields strict c := by simp [readField_skipTexts, asStr]
  areValues kind c := by
    simp only [Fields.AreValues, List.forall_mem_cons]
    exact ⟨isValue_some (.string _), isValue_skipNil fun t _ => .string t, List.forall_mem_nil _⟩

def egressFormat : RecordFormat RequiredEgress where
  names := ["http".toList]
  fields e := [("http".toList, skipNil httpRuleFormat.json e.http)]
  ofFields
    | strict, [http] => do
        return { http := ← readField (readList (httpRuleFormat.read strict)) [] http }
    | _, _ => none
  depth := 3
  nodup_names := by decide
  names_fields _ := rfl
  ofFields_fields strict e := by simp [httpRuleFormat.readField_list strict e.http]
  areValues kind e := by
    simp only [Fields.AreValues, List.forall_mem_cons]
    exact ⟨isValue_skipNil fun r _ => httpRuleFormat.isValue_json r (by decide),
      List.forall_mem_nil _⟩

def filesystemFormat : RecordFormat Filesystem where
  names := ["privateTmp".toList]
  fields f := [("privateTmp".toList, if f.privateTmp then some (.bool true) else none)]
  ofFields
    | _, [privateTmp] => do
        return { privateTmp := ← readField asBool false privateTmp }
    | _, _ => none
  depth := 0
  nodup_names := by decide
  names_fields _ := rfl
  ofFields_fields strict f := by
    obtain ⟨privateTmp⟩ := f
    cases privateTmp <;> rfl
  areValues kind f := by
    simp only [Fields.AreValues, List.forall_mem_cons]
    refine ⟨?_, List.forall_mem_nil _⟩
    split
    · exact isValue_some (.bool true)
    · simp

def requiresFormat : RecordFormat DeclaredRequires where
  names := ["egress", "filesystem", "env", "credentials", "resources"].map String.toList
  fields r :=
    [("egress".toList, r.egress.map egressFormat.json),
      ("filesystem".toList, r.filesystem.map filesystemFormat.json),
      ("env".toList, skipNil envBindingFormat.json r.env),
      ("credentials".toList, skipNil .string r.credentials),
      ("resources".toList, skipNil requiredResourceFormat.json r.resources)]
  ofFields
    | strict, [egress, filesystem, env, credentials, resources] => do
        return {
          egress := ← readField (readOption (egressFormat.read strict)) none egress
          filesystem := ← readField (readOption (filesystemFormat.read strict)) none filesystem
          env := ← readField (readList (envBindingFormat.read strict)) [] env
          credentials := ← readField asTexts [] credentials
          resources := ← readField (readList (requiredResourceFormat.read strict)) [] resources }
    | _, _ => none
  depth := 4
  nodup_names := by decide
  names_fields _ := rfl
  ofFields_fields strict r := by
    have hegress := egressFormat.readField_option strict r.egress
    have hfilesystem := filesystemFormat.readField_option strict r.filesystem
    have henv := envBindingFormat.readField_list strict r.env
    have hresources := requiredResourceFormat.readField_list strict r.resources
    simp [hegress, hfilesystem, henv, readField_skipTexts, hresources]
  areValues kind r := by
    simp only [Fields.AreValues, List.forall_mem_cons]
    exact ⟨isValue_map fun e _ => egressFormat.isValue_json e (by decide),
      isValue_map fun f _ => filesystemFormat.isValue_json f (by decide),
      isValue_skipNil fun b _ => envBindingFormat.isValue_json b (by decide),
      isValue_skipNil fun t _ => .string t,
      isValue_skipNil fun x _ => requiredResourceFormat.isValue_json x (by decide),
      List.forall_mem_nil _⟩

end Formats

/-! ## The whole manifest -/

structure ManifestDocument [SchemaLibrary] extends Manifest where
  name : Text
  version : Text
  source : Text
  description : Text

variable [DocumentLibrary]

/-- The levels that are left for a schema. -/
def schemaLevels : Nat := maxLevels - 2

namespace Config

def fields (c : Config) : Fields := [("schema".toList, c.schema)]

def json (c : Config) : Json := record c.fields

def read (v : Json) : Option Config :=
  (readRecord false ["schema".toList] v).bind fun
    | [schema] => do
        let value := readValue JsonLibrary.readNumber schemaLevels
        return { schema := ← readField (readOption value) none schema }
    | _ => none

/-- A schema as it is read: a value, and not `null`. -/
def SchemaRead (c : Config) : Prop :=
  ∀ u ∈ c.schema, Json.isNull u = false ∧ Json.IsValue JsonLibrary.Printed schemaLevels u

/-- The numbers of a schema are understood as they are printed. -/
def NumbersKept (c : Config) : Prop :=
  ∀ u ∈ c.schema, Json.Plain (fun t => JsonLibrary.readNumber t = some t) u

theorem schemaRead_of_read {v : Json} {c : Config} (h : read v = some c) : c.SchemaRead := by
  obtain ⟨values, -, h⟩ := Option.bind_eq_some_iff.1 h
  split at h
  · obtain ⟨schema, hschema, hc⟩ := Option.bind_eq_some_iff.1 h
    cases hc
    intro u hu
    obtain ⟨v, hnull, hv⟩ := readField_option_some hschema u hu
    exact ⟨isNull_readValue hv hnull,
      isValue_readValue JsonLibrary.printed_readNumber schemaLevels v u hv⟩
  · cases h

theorem nodup_names (c : Config) : (c.fields.map Prod.fst).Nodup :=
  List.nodup_singleton _

theorem read_json_iff {c : Config} (hread : c.SchemaRead) :
    read c.json = some c ↔ c.NumbersKept := by
  have hfields : readRecord false ["schema".toList] c.json = some [c.schema] :=
    readRecord_record false c.nodup_names
  obtain ⟨schema⟩ := c
  rw [read, hfields]
  cases schema with
  | none => simp [readField, NumbersKept]
  | some u =>
      obtain ⟨hnull, hvalue⟩ := hread u rfl
      let value := readValue JsonLibrary.readNumber schemaLevels
      have hfield : readField (readOption value) none (some u) = (value u).map some := by
        rw [readField_some, readOption, hnull]
        rfl
      have hself : value u = some u ↔
          u.Plain fun t => JsonLibrary.readNumber t = some t := readValue_self_iff hvalue
      have hkept : NumbersKept ⟨some u⟩ ↔ value u = some u := by
        rw [hself]
        exact ⟨fun h => h u rfl, by rintro h _ ⟨⟩; exact h⟩
      rw [hkept]
      show ((readField (readOption value) none (some u)).bind fun schema =>
        some (Config.mk schema)) = some (Config.mk (some u)) ↔ _
      rw [hfield]
      cases value u <;> simp

theorem isValue_json {c : Config} (hread : c.SchemaRead) :
    c.json.IsValue JsonLibrary.Printed (schemaLevels + 1) := by
  refine isValue_record c.nodup_names ?_
  simp only [Fields.AreValues, fields, List.forall_mem_cons]
  exact ⟨fun u hu => (hread u hu).2, List.forall_mem_nil _⟩

end Config

namespace ManifestDocument

def names : List Text :=
  ["type", "abi", "name", "version", "source", "description", "requires", "config", "minRuntime",
    "composes"].map String.toList

def fields (m : ManifestDocument) : Fields :=
  [("type".toList, skipEmpty m.type),
    ("abi".toList, some (.number (intText m.abi))),
    ("name".toList, skipEmpty m.name),
    ("version".toList, skipEmpty m.version),
    ("source".toList, skipEmpty m.source),
    ("description".toList, skipEmpty m.description),
    ("requires".toList, m.requires.map requiresFormat.json),
    ("config".toList, m.config.map Config.json),
    ("minRuntime".toList, skipEmpty m.minRuntime),
    ("composes".toList, skipNil composesFormat.json m.composes)]

/-- The manifest as it is published. -/
def document (m : ManifestDocument) : Json := record m.fields

def read (v : Json) : Option ManifestDocument :=
  (readRecord false names v).bind fun
    | [type, abi, name, version, source, description, requires, config, minRuntime, composes] => do
        return {
          type := ← readField asStr [] type
          abi := ← readField readInteger 0 abi
          name := ← readField asStr [] name
          version := ← readField asStr [] version
          source := ← readField asStr [] source
          description := ← readField asStr [] description
          requires := ← readField (readOption (requiresFormat.read false)) none requires
          config := ← readField (readOption Config.read) none config
          minRuntime := ← readField asStr [] minRuntime
          composes := ← readField (readList (composesFormat.read false)) [] composes }
    | _ => none

/-- What a manifest that was read is like, as far as it is not like that by its type. -/
structure Read (m : ManifestDocument) : Prop where
  abi_low : -2 ^ 63 ≤ m.abi
  abi_high : m.abi < 2 ^ 63
  schema : ∀ c ∈ m.config, c.SchemaRead

/-- The numbers of the schema are understood as they are printed. -/
def NumbersKept (m : ManifestDocument) : Prop := ∀ c ∈ m.config, c.NumbersKept

theorem nodup_names (m : ManifestDocument) : (m.fields.map Prod.fst).Nodup := by
  show names.Nodup
  decide

/-- A manifest that was read. -/
theorem read_of_read {v : Json} {m : ManifestDocument} (h : read v = some m) : m.Read := by
  obtain ⟨values, -, h⟩ := Option.bind_eq_some_iff.1 h
  split at h
  · simp only [Option.bind_eq_bind, Option.bind_eq_some_iff] at h
    obtain ⟨type, -, abi, habi, name, -, version, -, source, -, description, -, requires, -,
      config, hconfig, minRuntime, -, composes, -, hm⟩ := h
    cases hm
    have hbounds : -2 ^ 63 ≤ abi ∧ abi < 2 ^ 63 := readField_readInteger habi
    refine ⟨hbounds.1, hbounds.2, fun c hc => ?_⟩
    obtain ⟨v, -, hv⟩ := readField_option_some hconfig c hc
    exact Config.schemaRead_of_read hv
  · cases h

/-- All but the config is read as it was written. -/
theorem read_document {m : ManifestDocument} (hm : m.Read) :
    read m.document =
      (readField (readOption Config.read) none (m.config.map Config.json)).map
        fun config => { m with config } := by
  have hfields : readRecord false names m.document = some (m.fields.map Prod.snd) :=
    readRecord_record false m.nodup_names
  have habi : readInteger (.number (intText m.abi)) = some m.abi :=
    readI64_intText hm.abi_low hm.abi_high
  have hrequires := requiresFormat.readField_option false m.requires
  have hcomposes := composesFormat.readField_list false m.composes
  rw [read, hfields]
  simp only [fields, List.map_cons, List.map_nil, Option.bind_some, readField_skipEmpty,
    readField_some, habi, hrequires, hcomposes, Option.bind_eq_bind]
  cases readField (readOption Config.read) none (m.config.map Config.json) <;> rfl

theorem read_document_iff {m : ManifestDocument} (hm : m.Read) :
    read m.document = some m ↔ m.NumbersKept := by
  rw [read_document hm]
  have hconfig : (readField (readOption Config.read) none (m.config.map Config.json)).map
        (fun config => { m with config }) = some m ↔
      readField (readOption Config.read) none (m.config.map Config.json) = some m.config := by
    rw [Option.map_eq_some_iff]
    constructor
    · rintro ⟨config, hread, heq⟩
      rw [hread, ← heq]
    · exact fun h => ⟨m.config, h, rfl⟩
  rw [hconfig]
  cases hc : m.config with
  | none => simp [NumbersKept, hc, readField]
  | some c =>
      have hkept : m.NumbersKept ↔ c.NumbersKept := by simp [NumbersKept, hc]
      have hfield : readField (readOption Config.read) none ((some c).map Config.json) =
          (Config.read c.json).map some := rfl
      rw [hkept, ← Config.read_json_iff (hm.schema c hc), hfield]
      cases Config.read c.json <;> simp

theorem isValue_document {m : ManifestDocument} (hm : m.Read) :
    m.document.IsValue JsonLibrary.Printed maxLevels := by
  refine isValue_record m.nodup_names ?_
  simp only [Fields.AreValues, fields, List.forall_mem_cons]
  exact ⟨isValue_skipEmpty,
    isValue_some (.number (JsonLibrary.printed_int _ hm.abi_low hm.abi_high)), isValue_skipEmpty, isValue_skipEmpty, isValue_skipEmpty, isValue_skipEmpty,
    isValue_map fun r _ => requiresFormat.isValue_json r (by decide),
    isValue_map fun c hc => Config.isValue_json (hm.schema c hc),
    isValue_skipEmpty,
    isValue_skipNil fun c _ => composesFormat.isValue_json c (by decide),
    List.forall_mem_nil _⟩

end ManifestDocument

end FunctionWasm

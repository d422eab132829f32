import Mathlib.Data.List.Forall2
import FunctionWasm.Foundation.JsonText

/-!
# JsonRecord — records as documents

A record is written as an object of its fields, some of which are left out, and read from an object
or from an array of the fields in order.

* `Json.record` writes the fields, `Json.readRecord` reads them; `readRecord_record` says that they
  are read as they were written, and `readRecord_one` that one of them is.
* `Json.readField` reads a field that may be missing.
* `Json.readValue` reads a document as a value: numbers as they are understood, the last value of a
  key, and as many levels as there may be.
* `isValue_readValue` says what is read, and `readValue_self_iff` when it is read again as it is.
* `RecordFormat` is how one kind of record is written and read.
-/

namespace FunctionWasm
namespace Json

/-! ## Fields -/

abbrev Fields := List (Text × Option Json)

/-- The fields that are not left out. -/
def present (fields : Fields) : List (Text × Json) :=
  fields.filterMap fun f => f.2.map fun v => (f.1, v)

def record (fields : Fields) : Json :=
  .object (present fields)

/-- The fields under some names; `strict` refuses any other. -/
def readRecord (strict : Bool) (names : List Text) : Json → Option (List (Option Json))
  | .array vs =>
      if vs.length ≤ names.length then
        some (vs.map some ++ List.replicate (names.length - vs.length) none)
      else none
  | .object entries =>
      let keys := entries.map Prod.fst
      if (keys.filter (· ∈ names)).Nodup ∧ (strict = true → ∀ key ∈ keys, key ∈ names) then
        some (names.map fun name => entries.lookup name)
      else none
  | _ => none

theorem keys_present (fields : Fields) :
    ((present fields).map Prod.fst).Sublist (fields.map Prod.fst) := by
  induction fields with
  | nil => exact List.Sublist.refl _
  | cons f fields ih =>
      obtain ⟨name, v⟩ := f
      cases v with
      | none => exact ih.cons _
      | some v => exact ih.cons_cons _

theorem lookup_present {fields : Fields} (hnames : (fields.map Prod.fst).Nodup) {name : Text}
    {v : Option Json} (h : (name, v) ∈ fields) : (present fields).lookup name = v := by
  induction fields with
  | nil => cases h
  | cons f fields ih =>
      obtain ⟨other, w⟩ := f
      rw [List.map_cons, List.nodup_cons] at hnames
      rcases List.mem_cons.1 h with heq | htail
      · cases heq
        cases v with
        | some v => simp [present]
        | none =>
            -- no later field has the name
            have hnone : (present fields).lookup name = none := by
              rw [List.lookup_eq_none_iff]
              intro e he
              have hmem : e.1 ∈ fields.map Prod.fst :=
                (keys_present fields).subset (List.mem_map_of_mem he)
              simp only [bne_iff_ne, ne_eq]
              rintro rfl
              exact hnames.1 hmem
            simpa [present] using hnone
      · have hne : name ≠ other := by
          rintro rfl
          exact hnames.1 (List.mem_map.2 ⟨_, htail, rfl⟩)
        have hrest := ih hnames.2 htail
        cases w with
        | none => exact hrest
        | some w =>
            have hcons : present ((other, some w) :: fields) = (other, w) :: present fields := rfl
            rw [hcons, List.lookup_cons, beq_false_of_ne hne]
            exact hrest

/-- The fields of a record are read as they were written, whether or not others are refused. -/
theorem readRecord_record {fields : Fields} (strict : Bool)
    (hnames : (fields.map Prod.fst).Nodup) :
    readRecord strict (fields.map Prod.fst) (record fields) = some (fields.map Prod.snd) := by
  have hsub := keys_present fields
  have hread : (((present fields).map Prod.fst).filter (· ∈ fields.map Prod.fst)).Nodup ∧
      (strict = true → ∀ key ∈ (present fields).map Prod.fst, key ∈ fields.map Prod.fst) :=
    ⟨(hsub.nodup hnames).filter _, fun _ key hkey => hsub.subset hkey⟩
  have hvalues : (fields.map Prod.fst).map (fun name => (present fields).lookup name) =
      fields.map Prod.snd := by
    rw [List.map_map]
    exact List.map_congr_left fun f hf => lookup_present hnames hf
  unfold record readRecord
  dsimp only
  rw [if_pos hread, hvalues]

/-- The fields under some names of a record, where others may stand. -/
theorem readRecord_lookup {fields : Fields} {names : List Text}
    (hnames : (fields.map Prod.fst).Nodup) :
    readRecord false names (record fields) =
      some (names.map fun name => (present fields).lookup name) := by
  have hread : (((present fields).map Prod.fst).filter (· ∈ names)).Nodup ∧
      (false = true → ∀ key ∈ (present fields).map Prod.fst, key ∈ names) :=
    ⟨((keys_present fields).nodup hnames).filter _, fun hfalse => by cases hfalse⟩
  unfold record readRecord
  dsimp only
  rw [if_pos hread]

/-- One field of a record. -/
theorem readRecord_one {fields : Fields} (hnames : (fields.map Prod.fst).Nodup) {name : Text}
    {v : Option Json} (h : (name, v) ∈ fields) :
    readRecord false [name] (record fields) = some [v] := by
  rw [readRecord_lookup hnames, List.map_singleton, lookup_present hnames h]

/-! ## What a field holds -/

section Fields

variable {α : Type} {read : Json → Option α} {write : α → Json}

def asBool : Json → Option Bool
  | .bool b => some b
  | _ => none

def readList (read : Json → Option α) : Json → Option (List α)
  | .array vs => vs.mapM read
  | _ => none

def readOption (read : Json → Option α) (v : Json) : Option (Option α) :=
  if v.isNull then some none else (read v).map some

/-- A field that may be missing. -/
def readField (read : Json → Option α) (missing : α) : Option Json → Option α
  | none => some missing
  | some v => read v

@[simp] theorem readField_some (missing : α) (v : Json) : readField read missing (some v) = read v :=
  rfl

/-- An empty text is left out. -/
def skipEmpty (t : Text) : Option Json :=
  if t = [] then none else some (.string t)

/-- An empty list is left out. -/
def skipNil (write : α → Json) (l : List α) : Option Json :=
  if l.isEmpty then none else some (.array (l.map write))

theorem readField_skipEmpty (t : Text) : readField asStr [] (skipEmpty t) = some t := by
  unfold skipEmpty
  split
  · next hnil => rw [hnil]; rfl
  · rfl

theorem readList_map {β : Type} {read : Json → Option β} {f : α → β} {l : List α}
    (h : ∀ a ∈ l, read (write a) = some (f a)) :
    readList read (.array (l.map write)) = some (l.map f) := by
  induction l with
  | nil => rfl
  | cons a l ih =>
      have hrest : (l.map write).mapM read = some (l.map f) :=
        ih fun b hb => h b (List.mem_cons_of_mem _ hb)
      simp [readList, h a List.mem_cons_self, hrest]

/-- A list is read as it was written when its members are. -/
theorem readList_map_self {l : List α} (h : ∀ a ∈ l, read (write a) = some a) :
    readList read (.array (l.map write)) = some l := by
  rw [readList_map h, List.map_id']

theorem readField_skipNil {l : List α} (h : ∀ a ∈ l, read (write a) = some a) :
    readField (readList read) [] (skipNil write l) = some l := by
  unfold skipNil
  split
  · next hnil => rw [List.isEmpty_iff.1 hnil]; rfl
  · exact readList_map_self h

/-- What an optional field holds was read, and not from `null`. -/
theorem readField_option_some {v : Option Json} {o : Option α}
    (h : readField (readOption read) none v = some o) :
    ∀ a ∈ o, ∃ v, v.isNull = false ∧ read v = some a := by
  rintro a rfl
  cases v with
  | none => cases h
  | some v =>
      rw [readField_some, readOption] at h
      split at h
      · cases h
      · next hnull =>
          obtain ⟨_, hread, heq⟩ := Option.map_eq_some_iff.1 h
          cases heq
          exact ⟨v, Bool.not_eq_true _ ▸ hnull, hread⟩

theorem readField_option {o : Option α}
    (h : ∀ a ∈ o, (write a).isNull = false ∧ read (write a) = some a) :
    readField (readOption read) none (o.map write) = some o := by
  cases o with
  | none => rfl
  | some a =>
      obtain ⟨hnull, hread⟩ := h a rfl
      simp [readField, readOption, hnull, hread]

end Fields

/-! ## Values -/

section Values

/-- Sets the value of a key where the key stands, or at the end. -/
def setValue (entries : List (Text × Json)) (key : Text) (v : Json) : List (Text × Json) :=
  if key ∈ entries.map Prod.fst then
    entries.map fun e => if e.1 = key then (key, v) else e
  else entries ++ [(key, v)]

/-- Every key with its last value. -/
def lastValues (entries : List (Text × Json)) : List (Text × Json) :=
  entries.foldl (fun read e => setValue read e.1 e.2) []

/-- A document as a value: `readNumber` is how a number is understood and printed again, `levels` is
how deep arrays and objects may be nested. -/
def readValue (readNumber : Text → Option Text) : (levels : Nat) → Json → Option Json
  | _, .null => some .null
  | _, .bool b => some (.bool b)
  | _, .number t => (readNumber t).map .number
  | _, .string t => some (.string t)
  | 0, _ => none
  | levels + 1, .array vs => (vs.mapM (readValue readNumber levels)).map .array
  | levels + 1, .object entries =>
      (entries.mapM fun e => (readValue readNumber levels e.2).map fun v => (e.1, v)).map
        fun read => .object (lastValues read)

/-- A document without a repeated key, nested no deeper than some levels, whose numbers are all of
one kind. -/
inductive IsValue (kind : Text → Prop) : (levels : Nat) → Json → Prop
  | null {levels : Nat} : IsValue kind levels .null
  | bool {levels : Nat} (b : Bool) : IsValue kind levels (.bool b)
  | number {levels : Nat} {t : Text} (h : kind t) : IsValue kind levels (.number t)
  | string {levels : Nat} (t : Text) : IsValue kind levels (.string t)
  | array {levels : Nat} {vs : List Json} (h : ∀ v ∈ vs, IsValue kind levels v) :
      IsValue kind (levels + 1) (.array vs)
  | object {levels : Nat} {entries : List (Text × Json)} (hkeys : (entries.map Prod.fst).Nodup)
      (h : ∀ e ∈ entries, IsValue kind levels e.2) : IsValue kind (levels + 1) (.object entries)

theorem IsValue.plain {kind : Text → Prop} {levels : Nat} {v : Json} (h : v.IsValue kind levels) :
    v.Plain kind := by
  induction h with
  | null => exact .null
  | bool b => exact .bool b
  | number h => exact .number h
  | string t => exact .string t
  | array _ ih => exact .array ih
  | object hkeys _ ih => exact .object hkeys ih

theorem IsValue.mono {kind kind' : Text → Prop} (hkind : ∀ t, kind t → kind' t) {levels : Nat}
    {v : Json} (h : v.IsValue kind levels) {levels' : Nat} (hle : levels ≤ levels') :
    v.IsValue kind' levels' := by
  induction h generalizing levels' with
  | null => exact .null
  | bool b => exact .bool b
  | number h => exact .number (hkind _ h)
  | string t => exact .string t
  | array _ ih =>
      obtain ⟨more, rfl⟩ := Nat.exists_eq_add_of_le hle
      rw [Nat.add_right_comm]
      exact .array fun v hv => ih v hv (Nat.le_add_right _ _)
  | object hkeys _ ih =>
      obtain ⟨more, rfl⟩ := Nat.exists_eq_add_of_le hle
      rw [Nat.add_right_comm]
      exact .object hkeys fun e he => ih e he (Nat.le_add_right _ _)

/-- The fields that are there are values. -/
def Fields.AreValues (kind : Text → Prop) (levels : Nat) (fields : Fields) : Prop :=
  ∀ f ∈ fields, ∀ v ∈ f.2, v.IsValue kind levels

theorem isValue_record {kind : Text → Prop} {levels : Nat} {fields : Fields}
    (hnames : (fields.map Prod.fst).Nodup) (h : fields.AreValues kind levels) :
    (record fields).IsValue kind (levels + 1) := by
  refine .object ((keys_present fields).nodup hnames) fun e he => ?_
  obtain ⟨f, hf, heq⟩ := List.mem_filterMap.1 he
  obtain ⟨v, hv, rfl⟩ := Option.map_eq_some_iff.1 heq
  exact h f hf v hv

theorem isValue_skipEmpty {kind : Text → Prop} {levels : Nat} {t : Text} :
    ∀ v ∈ skipEmpty t, v.IsValue kind levels := by
  unfold skipEmpty
  split
  · simp
  · rintro v ⟨⟩
    exact .string t

theorem isValue_list {α : Type} {write : α → Json} {kind : Text → Prop} {levels : Nat} {l : List α}
    (h : ∀ a ∈ l, (write a).IsValue kind levels) :
    (Json.array (l.map write)).IsValue kind (levels + 1) := by
  refine .array fun v hv => ?_
  obtain ⟨a, ha, rfl⟩ := List.mem_map.1 hv
  exact h a ha

theorem isValue_skipNil {α : Type} {write : α → Json} {kind : Text → Prop} {levels : Nat}
    {l : List α} (h : ∀ a ∈ l, (write a).IsValue kind levels) :
    ∀ v ∈ skipNil write l, v.IsValue kind (levels + 1) := by
  unfold skipNil
  split
  · simp
  · rintro v ⟨⟩
    exact isValue_list h

theorem isValue_some {kind : Text → Prop} {levels : Nat} {v : Json} (h : v.IsValue kind levels) :
    ∀ w ∈ some v, w.IsValue kind levels := by
  rintro w ⟨⟩
  exact h

theorem isValue_map {α : Type} {write : α → Json} {kind : Text → Prop} {levels : Nat}
    {o : Option α} (h : ∀ a ∈ o, (write a).IsValue kind levels) :
    ∀ v ∈ o.map write, v.IsValue kind levels := by
  intro v hv
  obtain ⟨a, ha, rfl⟩ := Option.map_eq_some_iff.1 hv
  exact h a ha

theorem keys_setValue_of_mem {entries : List (Text × Json)} {key : Text} {v : Json}
    (h : key ∈ entries.map Prod.fst) :
    (setValue entries key v).map Prod.fst = entries.map Prod.fst := by
  unfold setValue
  rw [if_pos h, List.map_map]
  refine List.map_congr_left fun e _ => ?_
  by_cases he : e.1 = key <;> simp [he]

theorem nodup_setValue {entries : List (Text × Json)} {key : Text} {v : Json}
    (h : (entries.map Prod.fst).Nodup) : ((setValue entries key v).map Prod.fst).Nodup := by
  by_cases hkey : key ∈ entries.map Prod.fst
  · rwa [keys_setValue_of_mem hkey]
  · have hset : setValue entries key v = entries ++ [(key, v)] := if_neg hkey
    rw [hset, List.map_append, List.nodup_append]
    refine ⟨h, by simp, ?_⟩
    rintro k hk _ hlast rfl
    rw [List.map_singleton, List.mem_singleton] at hlast
    subst hlast
    exact hkey hk

theorem mem_setValue {entries : List (Text × Json)} {key : Text} {v : Json} {e : Text × Json}
    (h : e ∈ setValue entries key v) : e ∈ entries ∨ e = (key, v) := by
  unfold setValue at h
  split at h
  · obtain ⟨e', he', heq⟩ := List.mem_map.1 h
    split at heq
    · exact Or.inr heq.symm
    · exact Or.inl (heq ▸ he')
  · simpa using h

/-- No key is there twice, and no value is made up. -/
theorem lastValues_spec (entries : List (Text × Json)) :
    ((lastValues entries).map Prod.fst).Nodup ∧ ∀ e ∈ lastValues entries, e ∈ entries := by
  suffices hfold : ∀ (rest read : List (Text × Json)), (read.map Prod.fst).Nodup →
      ((rest.foldl (fun read e => setValue read e.1 e.2) read).map Prod.fst).Nodup ∧
        ∀ e ∈ rest.foldl (fun read e => setValue read e.1 e.2) read, e ∈ read ∨ e ∈ rest by
    have hall := hfold entries [] List.nodup_nil
    exact ⟨hall.1, fun e he => (hall.2 e he).resolve_left (List.not_mem_nil)⟩
  intro rest
  induction rest with
  | nil => exact fun read hread => ⟨hread, fun e he => Or.inl he⟩
  | cons first rest ih =>
      intro read hread
      obtain ⟨hnodup, hmem⟩ := ih (setValue read first.1 first.2) (nodup_setValue hread)
      refine ⟨hnodup, fun e he => ?_⟩
      rcases hmem e he with hset | hrest
      · rcases mem_setValue hset with hold | hnew
        · exact Or.inl hold
        · exact Or.inr (List.mem_cons.2 (Or.inl hnew))
      · exact Or.inr (List.mem_cons_of_mem _ hrest)

theorem lastValues_of_nodup {entries : List (Text × Json)} (h : (entries.map Prod.fst).Nodup) :
    lastValues entries = entries := by
  suffices hfold : ∀ (rest read : List (Text × Json)), ((read ++ rest).map Prod.fst).Nodup →
      rest.foldl (fun read e => setValue read e.1 e.2) read = read ++ rest from
    hfold entries [] h
  intro rest
  induction rest with
  | nil => exact fun read _ => (List.append_nil read).symm
  | cons first rest ih =>
      intro read hread
      have hfirst : first.1 ∉ read.map Prod.fst := by
        rw [List.map_append, List.nodup_append] at hread
        exact fun hmem => hread.2.2 _ hmem _ (List.mem_cons_self) rfl
      have hset : setValue read first.1 first.2 = read ++ [first] := if_neg hfirst
      rw [List.foldl_cons, hset, ih (read ++ [first]) (by simpa using hread)]
      simp

/-- What comes of the elements, one by one. -/
theorem mapM_eq_some_iff {α β : Type} {f : α → Option β} {l : List α} {l' : List β} :
    l.mapM f = some l' ↔ List.Forall₂ (fun a b => f a = some b) l l' := by
  induction l generalizing l' with
  | nil =>
      rw [List.mapM_nil, List.forall₂_nil_left_iff]
      exact ⟨fun h => (Option.some_inj.1 h).symm, fun h => congrArg some h.symm⟩
  | cons a l ih =>
      rw [List.mapM_cons, List.forall₂_cons_left_iff]
      constructor
      · intro h
        obtain ⟨b, hb, h⟩ := Option.bind_eq_some_iff.1 h
        obtain ⟨bs, hbs, h⟩ := Option.bind_eq_some_iff.1 h
        exact ⟨b, bs, hb, ih.1 hbs, (Option.some_inj.1 h).symm⟩
      · rintro ⟨b, bs, hb, hbs, rfl⟩
        simp [hb, ih.2 hbs]

theorem mem_of_mapM {α β : Type} {f : α → Option β} {l : List α} {l' : List β}
    (h : l.mapM f = some l') {b : β} (hb : b ∈ l') : ∃ a ∈ l, f a = some b := by
  have hall := mapM_eq_some_iff.1 h
  clear h
  induction hall with
  | nil => cases hb
  | cons hab _ ih =>
      rcases List.mem_cons.1 hb with rfl | htail
      · exact ⟨_, List.mem_cons_self, hab⟩
      · obtain ⟨a, ha, hread⟩ := ih htail
        exact ⟨a, List.mem_cons_of_mem _ ha, hread⟩

/-- Reading the values changes no key. -/
theorem keys_of_mapM {f : Json → Option Json} {l l' : List (Text × Json)}
    (h : (l.mapM fun e => (f e.2).map fun v => (e.1, v)) = some l') :
    l'.map Prod.fst = l.map Prod.fst := by
  have hall := mapM_eq_some_iff.1 h
  clear h
  induction hall with
  | nil => rfl
  | cons hab _ ih =>
      obtain ⟨v, -, rfl⟩ := Option.map_eq_some_iff.1 hab
      rw [List.map_cons, List.map_cons, ih]

theorem mapM_self_iff {α : Type} {f : α → Option α} {l : List α} :
    l.mapM f = some l ↔ ∀ a ∈ l, f a = some a := by
  rw [mapM_eq_some_iff, List.forall₂_same]

variable {readNumber : Text → Option Text} {levels : Nat}

theorem readValue_array (vs : List Json) :
    readValue readNumber (levels + 1) (.array vs) =
      (vs.mapM (readValue readNumber levels)).map .array := by
  rw [readValue]

theorem readValue_object (entries : List (Text × Json)) :
    readValue readNumber (levels + 1) (.object entries) =
      (entries.mapM fun e => (readValue readNumber levels e.2).map fun v => (e.1, v)).map
        fun read => .object (lastValues read) := by
  rw [readValue]

/-- What is read is a value. -/
theorem isValue_readValue {kind : Text → Prop} (hkind : ∀ t p, readNumber t = some p → kind p) :
    ∀ (levels : Nat) (v u : Json), readValue readNumber levels v = some u → u.IsValue kind levels
  | _, .null, u, h => by
      rw [readValue, Option.some_inj] at h
      exact h ▸ .null
  | _, .bool b, u, h => by
      rw [readValue, Option.some_inj] at h
      exact h ▸ .bool b
  | _, .number t, u, h => by
      rw [readValue] at h
      obtain ⟨p, hp, rfl⟩ := Option.map_eq_some_iff.1 h
      exact .number (hkind t p hp)
  | _, .string t, u, h => by
      rw [readValue, Option.some_inj] at h
      exact h ▸ .string t
  | 0, .array _, u, h => by simp [readValue] at h
  | 0, .object _, u, h => by simp [readValue] at h
  | levels + 1, .array vs, u, h => by
      rw [readValue_array] at h
      obtain ⟨us, hus, rfl⟩ := Option.map_eq_some_iff.1 h
      refine .array fun w hw => ?_
      obtain ⟨v, -, hv⟩ := mem_of_mapM hus hw
      exact isValue_readValue hkind levels v w hv
  | levels + 1, .object entries, u, h => by
      rw [readValue_object] at h
      obtain ⟨all, hall, rfl⟩ := Option.map_eq_some_iff.1 h
      obtain ⟨hnodup, hmem⟩ := lastValues_spec all
      refine .object hnodup fun e he => ?_
      obtain ⟨e', -, he'⟩ := mem_of_mapM hall (hmem e he)
      obtain ⟨v, hv, rfl⟩ := Option.map_eq_some_iff.1 he'
      exact isValue_readValue hkind levels e'.2 v hv

theorem isNull_readValue {v u : Json} (h : readValue readNumber levels v = some u)
    (hnull : v.isNull = false) : u.isNull = false := by
  unfold readValue at h
  split at h
  · cases hnull
  · cases h
    rfl
  · obtain ⟨_, -, rfl⟩ := Option.map_eq_some_iff.1 h
    rfl
  · cases h
    rfl
  · cases h
  · obtain ⟨_, -, rfl⟩ := Option.map_eq_some_iff.1 h
    rfl
  · obtain ⟨_, -, rfl⟩ := Option.map_eq_some_iff.1 h
    rfl

/-- An array is read as it is when its elements are. -/
theorem readValue_array_self_iff {vs : List Json} :
    readValue readNumber (levels + 1) (.array vs) = some (.array vs) ↔
      ∀ v ∈ vs, readValue readNumber levels v = some v := by
  rw [readValue_array, ← mapM_self_iff, Option.map_eq_some_iff]
  constructor
  · rintro ⟨us, hus, heq⟩
    cases heq
    exact hus
  · exact fun h => ⟨vs, h, rfl⟩

/-- An object without a repeated key is read as it is when its entries are. -/
theorem readValue_object_self_iff {entries : List (Text × Json)}
    (hnodup : (entries.map Prod.fst).Nodup) :
    readValue readNumber (levels + 1) (.object entries) = some (.object entries) ↔
      ∀ e ∈ entries, readValue readNumber levels e.2 = some e.2 := by
  have hentry : ∀ e : Text × Json,
      ((readValue readNumber levels e.2).map fun v => (e.1, v)) = some e ↔
        readValue readNumber levels e.2 = some e.2 := by
    rintro ⟨key, v⟩
    rw [Option.map_eq_some_iff]
    constructor
    · rintro ⟨w, hw, heq⟩
      cases heq
      exact hw
    · exact fun h => ⟨v, h, rfl⟩
  rw [readValue_object, Option.map_eq_some_iff]
  constructor
  · rintro ⟨read, hread, heq⟩
    -- reading changes no key, so that nothing was dropped
    have hkeys : read.map Prod.fst = entries.map Prod.fst := keys_of_mapM hread
    rw [lastValues_of_nodup (hkeys ▸ hnodup)] at heq
    cases heq
    exact fun e he => (hentry e).1 (mapM_self_iff.1 hread e he)
  · intro h
    refine ⟨entries, mapM_self_iff.2 fun e he => (hentry e).2 (h e he), ?_⟩
    rw [lastValues_of_nodup hnodup]

/-- A value is read again as it is exactly where its numbers are. -/
theorem readValue_self_iff {kind : Text → Prop} {u : Json} (h : u.IsValue kind levels) :
    readValue readNumber levels u = some u ↔ u.Plain fun t => readNumber t = some t := by
  induction h with
  | null => exact ⟨fun _ => .null, fun _ => by rw [readValue]⟩
  | bool b => exact ⟨fun _ => .bool b, fun _ => by rw [readValue]⟩
  | @number _ t _ =>
      rw [readValue, Option.map_eq_some_iff]
      constructor
      · rintro ⟨p, hp, heq⟩
        cases heq
        exact .number hp
      · intro hplain
        cases hplain with
        | number ht => exact ⟨t, ht, rfl⟩
  | string t => exact ⟨fun _ => .string t, fun _ => by rw [readValue]⟩
  | array _ ih =>
      rw [readValue_array_self_iff]
      constructor
      · exact fun hself => .array fun v hv => (ih v hv).1 (hself v hv)
      · intro hplain
        cases hplain with
        | array hvs => exact fun v hv => (ih v hv).2 (hvs v hv)
  | object hkeys _ ih =>
      rw [readValue_object_self_iff hkeys]
      constructor
      · exact fun hself => .object hkeys fun e he => (ih e he).1 (hself e he)
      · intro hplain
        cases hplain with
        | object _ hes => exact fun e he => (ih e he).2 (hes e he)

end Values

/-! ## Formats -/

/-- How a record is written and read.  What is read strictly has no field that is not known; either
way a record is read as it was written. -/
structure RecordFormat (α : Type) where
  names : List Text
  fields : α → Fields
  ofFields : (strict : Bool) → List (Option Json) → Option α
  /-- How deep the fields are nested. -/
  depth : Nat
  nodup_names : names.Nodup
  names_fields : ∀ a, (fields a).map Prod.fst = names
  ofFields_fields : ∀ strict a, ofFields strict ((fields a).map Prod.snd) = some a
  areValues : ∀ kind a, (fields a).AreValues kind depth

namespace RecordFormat

variable {α : Type} (F : RecordFormat α)

def json (a : α) : Json := record (F.fields a)

def read (strict : Bool) (v : Json) : Option α :=
  (readRecord strict F.names v).bind (F.ofFields strict)

theorem read_json (strict : Bool) (a : α) : F.read strict (F.json a) = some a := by
  have hnodup : ((F.fields a).map Prod.fst).Nodup := (F.names_fields a).symm ▸ F.nodup_names
  have hread := readRecord_record strict hnodup
  rw [F.names_fields] at hread
  rw [read, json, hread]
  exact F.ofFields_fields strict a

theorem readField_list (strict : Bool) (l : List α) :
    readField (readList (F.read strict)) [] (skipNil F.json l) = some l :=
  readField_skipNil fun a _ => F.read_json strict a

theorem readField_option (strict : Bool) (o : Option α) :
    readField (readOption (F.read strict)) none (o.map F.json) = some o :=
  Json.readField_option fun a _ => ⟨rfl, F.read_json strict a⟩

theorem isValue_json {kind : Text → Prop} {levels : Nat} (a : α) (hlevels : F.depth < levels) :
    (F.json a).IsValue kind levels := by
  have hnodup : ((F.fields a).map Prod.fst).Nodup := (F.names_fields a).symm ▸ F.nodup_names
  exact (isValue_record hnodup (F.areValues kind a)).mono (fun _ => id) hlevels

end RecordFormat

end Json
end FunctionWasm

import Mathlib.Data.List.Forall2
import FunctionWasm.Foundation.Varint

/-!
# Record — the items of an encoded protobuf message

A message on the wire is a sequence of items: a key naming a field and a wire type, then a value.
A reader that does not know a field still has to find where its value ends, groups included.

* `readRecord` reads one item and keeps what it found beside the bytes it took.
* `records` reads a whole buffer, and `records_flatMap` says that the items' bytes are the buffer.

`depth` is the decoder's recursion limit: how many groups may be open around an item.
-/

namespace FunctionWasm
namespace Protobuf

inductive WireType where
  | varint
  | i64
  | len
  | sgroup
  | egroup
  | i32
  deriving DecidableEq, Repr

namespace WireType

def toNat : WireType → Nat
  | varint => 0
  | i64 => 1
  | len => 2
  | sgroup => 3
  | egroup => 4
  | i32 => 5

def ofNat? : Nat → Option WireType
  | 0 => some varint
  | 1 => some i64
  | 2 => some len
  | 3 => some sgroup
  | 4 => some egroup
  | 5 => some i32
  | _ => none

@[simp] theorem ofNat?_toNat (w : WireType) : ofNat? w.toNat = some w := by
  cases w <;> rfl

theorem toNat_of_ofNat? {n : Nat} {w : WireType} : ofNat? n = some w → w.toNat = n := by
  intro h
  unfold ofNat? at h
  split at h <;> first | (cases h; rfl) | cases h

theorem toNat_lt (w : WireType) : w.toNat < 8 := by
  cases w <;> decide

end WireType

/-! ## Keys -/

/-- The field number and wire type of an item. -/
structure Key where
  field : Nat
  wire : WireType
  deriving DecidableEq, Repr

/-- The number written on the wire. -/
def Key.code (k : Key) : Nat :=
  k.field * 8 + k.wire.toNat

/-- A key fits 32 bits, names one of the six wire types and a field other than zero. -/
def Key.ofCode? (code : Nat) : Option Key :=
  if code < 2 ^ 32 ∧ 1 ≤ code / 8 then
    (WireType.ofNat? (code % 8)).map fun wire => { field := code / 8, wire := wire }
  else
    none

theorem Key.code_of_ofCode? {code : Nat} {k : Key} : Key.ofCode? code = some k → k.code = code := by
  intro h
  unfold Key.ofCode? at h
  split at h
  · rcases Option.map_eq_some_iff.1 h with ⟨w, hw, rfl⟩
    have hmod : w.toNat = code % 8 := WireType.toNat_of_ofNat? hw
    have hdiv : code / 8 * 8 + code % 8 = code := by omega
    simpa [Key.code, hmod] using hdiv
  · cases h

theorem Key.code_div (k : Key) : k.code / 8 = k.field := by
  have hlt : k.wire.toNat < 8 := k.wire.toNat_lt
  simp only [Key.code]
  omega

theorem Key.code_mod (k : Key) : k.code % 8 = k.wire.toNat := by
  have hlt : k.wire.toNat < 8 := k.wire.toNat_lt
  simp only [Key.code]
  omega

theorem Key.ofCode?_code {k : Key} (hfield : 1 ≤ k.field) (hcode : k.code < 2 ^ 32) :
    Key.ofCode? k.code = some k := by
  unfold Key.ofCode?
  rw [if_pos ⟨hcode, by simpa [Key.code_div] using hfield⟩, Key.code_mod, WireType.ofNat?_toNat,
    Key.code_div]
  rfl

def readKey : Reader Key :=
  readVarint.filterMap Key.ofCode?

theorem readKey_local : readKey.Local :=
  readVarint_local.filterMap Key.ofCode?

theorem readKey_progress : readKey.Progress := by
  intro bs k used rest h
  rcases Reader.filterMap_eq_some.1 h with ⟨v, hv, _⟩
  exact readVarint_progress hv

/-- What a key reads as, as a number. -/
theorem readVarint_of_readKey {bs : Bytes} {k : Key} {used rest : Bytes} :
    readKey bs = some (k, used, rest) → readVarint bs = some (k.code, used, rest) := by
  intro h
  rcases Reader.filterMap_eq_some.1 h with ⟨v, hv, hk⟩
  have hcode : k.code = v := Key.code_of_ofCode? hk
  simpa [hcode] using hv

/-! ## Values -/

/-- Reads a length and that many bytes: the payload is the value. -/
def readLen : Reader Bytes :=
  readVarint.andThen Reader.take

theorem readLen_local : readLen.Local :=
  readVarint_local.andThen Reader.take_local

/-- A length and that many bytes read back. -/
theorem readLen_writeVarint {payload : Bytes} (h : payload.length < 2 ^ 64) :
    readLen.Exact payload (writeVarint payload.length ++ payload) := by
  intro tail
  refine Reader.andThen_eq_some.2
    ⟨payload.length, writeVarint payload.length, payload ++ tail, payload, ?_, ?_, rfl⟩
  · simpa using readVarint_writeVarint h (payload ++ tail)
  · simp [Reader.take]

/-- Reads the value of an item that is neither the start nor the end of a group.  The answer is the
payload: what follows the length of a length-delimited value, the value's own bytes otherwise. -/
def readScalar : WireType → Reader Bytes
  | .varint => (readVarint.withUsed).map Prod.snd
  | .i64 => Reader.take 8
  | .len => readLen
  | .i32 => Reader.take 4
  | .sgroup => Reader.fail
  | .egroup => Reader.fail

theorem readScalar_local (w : WireType) : (readScalar w).Local := by
  cases w with
  | varint => exact readVarint_local.withUsed.map Prod.snd
  | i64 => exact Reader.take_local 8
  | len => exact readLen_local
  | i32 => exact Reader.take_local 4
  | sgroup => exact Reader.fail_local
  | egroup => exact Reader.fail_local

/-! ## Groups -/

/-- Reads one item inside a group of field `f`, with the groups `opened` around that group, and
answers the groups that are open after it, innermost first. -/
def readGroupItem (depth f : Nat) (opened : List Nat) : Reader (List Nat) :=
  readKey.andThen fun k =>
    match k.wire with
    | .egroup => if k.field = f then Reader.pure opened else Reader.fail
    | .sgroup =>
        if (f :: opened).length ≤ depth then Reader.pure (k.field :: f :: opened) else Reader.fail
    | w =>
        if (f :: opened).length ≤ depth then (readScalar w).map fun _ => f :: opened
        else Reader.fail

theorem readGroupItem_local (depth f : Nat) (opened : List Nat) :
    (readGroupItem depth f opened).Local := by
  refine readKey_local.andThen ?_
  rintro ⟨field, wire⟩
  cases wire with
  | egroup =>
      dsimp only
      split
      · exact Reader.pure_local _
      · exact Reader.fail_local
  | sgroup =>
      dsimp only
      split
      · exact Reader.pure_local _
      · exact Reader.fail_local
  | varint | i64 | len | i32 =>
      dsimp only
      split
      · exact (readScalar_local _).map _
      · exact Reader.fail_local

theorem readGroupItem_progress (depth f : Nat) (opened : List Nat) :
    (readGroupItem depth f opened).Progress :=
  readKey_progress.andThen

/-- Reads items until every open group has ended; the fuel bounds the items read. -/
def skipGroups (depth : Nat) : Nat → List Nat → Bytes → Option (Bytes × Bytes)
  | _, [], bs => some ([], bs)
  | 0, _ :: _, _ => none
  | n + 1, f :: opened, bs =>
      match readGroupItem depth f opened bs with
      | some (opened', used, rest) =>
          (skipGroups depth n opened' rest).map fun r => (used ++ r.1, r.2)
      | none => none

/-- The group of `field` whose key has been read. -/
def skipGroup (depth field : Nat) : Reader Unit := fun bs =>
  (skipGroups depth bs.length [field] bs).map fun r => ((), r.1, r.2)

theorem skipGroups_nil {depth n : Nat} {bs : Bytes} :
    skipGroups depth n [] bs = some ([], bs) := by
  cases n <;> rfl

/-- What is skipped is a prefix, and it is skipped again whatever follows, on any fuel that covers
its length. -/
theorem skipGroups_local {depth : Nat} :
    ∀ {n : Nat} {opened : List Nat} {bs used rest : Bytes},
      skipGroups depth n opened bs = some (used, rest) →
        bs = used ++ rest ∧
          ∀ m tail, used.length ≤ m →
            skipGroups depth m opened (used ++ tail) = some (used, tail) := by
  intro n
  -- on the fuel; every item takes some of it and some of the bytes
  induction n with
  | zero =>
      intro opened bs used rest h
      cases opened with
      | nil =>
          rw [skipGroups_nil] at h
          cases h
          exact ⟨rfl, fun m tail _ => skipGroups_nil⟩
      | cons f opened => simp [skipGroups] at h
  | succ n ih =>
      intro opened bs used rest h
      cases opened with
      | nil =>
          rw [skipGroups_nil] at h
          cases h
          exact ⟨rfl, fun m tail _ => skipGroups_nil⟩
      | cons f opened =>
          cases hi : readGroupItem depth f opened bs with
          | none => simp [skipGroups, hi] at h
          | some x =>
              rcases x with ⟨opened', iu, ir⟩
              simp only [skipGroups, hi, Option.map_eq_some_iff] at h
              rcases h with ⟨⟨tl, rest'⟩, hrec, hEq⟩
              cases hEq
              rcases readGroupItem_local depth f opened hi with ⟨hbs, hitem⟩
              rcases ih hrec with ⟨hir, htail⟩
              have hpos : 0 < iu.length :=
                List.length_pos_iff.2 (readGroupItem_progress depth f opened hi)
              refine ⟨by simp [hbs, hir], ?_⟩
              intro m tail hm
              have hlen : iu.length + tl.length ≤ m := by simpa using hm
              cases m with
              | zero => omega
              | succ m =>
                  rw [List.append_assoc, skipGroups, hitem (tl ++ tail)]
                  simp [htail m tail (by omega)]

theorem skipGroup_local (depth field : Nat) : (skipGroup depth field).Local := by
  intro bs a used rest h
  rcases Option.map_eq_some_iff.1 h with ⟨⟨u, r⟩, hskip, hEq⟩
  cases hEq
  rcases skipGroups_local hskip with ⟨hbs, htail⟩
  refine ⟨hbs, ?_⟩
  intro tail
  have hagain : skipGroups depth (u ++ tail).length [field] (u ++ tail) = some (u, tail) :=
    htail (u ++ tail).length tail (by simp)
  unfold skipGroup
  rw [hagain]
  rfl

/-! ## Items -/

/-- One item as found on the wire.  `value` is everything after the key, `payload` what a decoder
of a length-delimited field reads. -/
structure Record where
  key : Key
  keyBytes : Bytes
  value : Bytes
  payload : Bytes
  deriving DecidableEq, Repr

def Record.bytes (r : Record) : Bytes :=
  r.keyBytes ++ r.value

/-- Reads a value and answers its payload beside the bytes it took. -/
def readValue (depth : Nat) (k : Key) : Reader Bytes :=
  match k.wire with
  | .egroup => Reader.fail
  | .sgroup => (skipGroup depth k.field).map fun _ => []
  | w => readScalar w

theorem readValue_local (depth : Nat) (k : Key) : (readValue depth k).Local := by
  rcases k with ⟨field, wire⟩
  cases wire with
  | egroup => exact Reader.fail_local
  | sgroup => exact (skipGroup_local depth field).map _
  | varint => exact readScalar_local .varint
  | i64 => exact readScalar_local .i64
  | len => exact readScalar_local .len
  | i32 => exact readScalar_local .i32

def readRecord (depth : Nat) : Reader Record :=
  readKey.withUsed.andThen fun k =>
    (readValue depth k.1).withUsed.map fun v =>
      { key := k.1
        keyBytes := k.2
        value := v.2
        payload := v.1 }

theorem readRecord_local (depth : Nat) : (readRecord depth).Local :=
  readKey_local.withUsed.andThen fun k => (readValue_local depth k.1).withUsed.map _

theorem readRecord_progress (depth : Nat) : (readRecord depth).Progress := by
  refine Reader.Progress.andThen ?_
  intro bs x used rest h
  rcases x with ⟨k, u⟩
  exact readKey_progress (Reader.withUsed_eq_some.1 h).1

/-- An item is a key and a value, each read the same way whatever follows. -/
theorem readRecord_eq_some {depth : Nat} {bs : Bytes} {r : Record} {used rest : Bytes} :
    readRecord depth bs = some (r, used, rest) →
      used = r.bytes ∧ readKey.Exact r.key r.keyBytes ∧
        (readValue depth r.key).Exact r.payload r.value := by
  intro h
  rcases Reader.andThen_eq_some.1 h with ⟨⟨k, ku⟩, u, mid, u', hk, hv, rfl⟩
  rcases Reader.withUsed_eq_some.1 hk with ⟨hkey, rfl⟩
  rcases Reader.map_eq_some.1 hv with ⟨⟨p, vu⟩, hval, rfl⟩
  rcases Reader.withUsed_eq_some.1 hval with ⟨hvalue, rfl⟩
  exact ⟨rfl, readKey_local.exact hkey, (readValue_local depth k).exact hvalue⟩

theorem readRecord_exact {depth : Nat} {r : Record}
    (hk : readKey.Exact r.key r.keyBytes)
    (hv : (readValue depth r.key).Exact r.payload r.value) :
    (readRecord depth).Exact r r.bytes := by
  intro tail
  refine Reader.andThen_eq_some.2
    ⟨(r.key, r.keyBytes), r.keyBytes, r.value ++ tail, r.value, ?_, ?_, rfl⟩
  · refine Reader.withUsed_eq_some.2 ⟨?_, rfl⟩
    simpa [Record.bytes] using hk (r.value ++ tail)
  · exact Reader.map_eq_some.2
      ⟨(r.payload, r.value), Reader.withUsed_eq_some.2 ⟨hv tail, rfl⟩, rfl⟩

/-- An item the reader can produce: its key and its value are encodings of what it says. -/
structure Record.WF (depth : Nat) (r : Record) : Prop where
  key_exact : readKey.Exact r.key r.keyBytes
  value_exact : (readValue depth r.key).Exact r.payload r.value

theorem Record.WF.keyBytes_ne_nil {depth : Nat} {r : Record} (h : r.WF depth) :
    r.keyBytes ≠ [] :=
  h.key_exact.ne_nil readKey_progress

theorem Record.WF.bytes_ne_nil {depth : Nat} {r : Record} (h : r.WF depth) : r.bytes ≠ [] := by
  simp [Record.bytes, h.keyBytes_ne_nil]

/-! ## Whole messages -/

/-- The items of an encoded message. -/
def records (depth : Nat) : Bytes → Option (List Record) :=
  (readRecord depth).all

/-- A buffer reads as `rs` exactly when it is their bytes in order and each of them is an item. -/
theorem records_eq_some_iff {depth : Nat} {bs : Bytes} {rs : List Record} :
    records depth bs = some rs ↔ bs = rs.flatMap Record.bytes ∧ ∀ r ∈ rs, r.WF depth := by
  unfold records
  rw [Reader.all_eq_some_iff (readRecord_local depth) (readRecord_progress depth)]
  constructor
  · rintro ⟨us, rfl, hex⟩
    induction hex with
    | nil => simp
    | cons hr htail ih =>
        rename_i r u rs us
        rcases readRecord_eq_some (hr []) with ⟨rfl, hk, hv⟩
        rcases ih with ⟨hflat, hwf⟩
        refine ⟨by simp [hflat], ?_⟩
        intro r' hmem
        rcases List.mem_cons.1 hmem with rfl | hmem
        · exact ⟨hk, hv⟩
        · exact hwf r' hmem
  · rintro ⟨rfl, hwf⟩
    refine ⟨rs.map Record.bytes, by simp [List.flatMap_def], ?_⟩
    rw [List.forall₂_map_right_iff, List.forall₂_same]
    intro r hr
    exact readRecord_exact (hwf r hr).key_exact (hwf r hr).value_exact

theorem records_flatMap {depth : Nat} {rs : List Record} (hwf : ∀ r ∈ rs, r.WF depth) :
    records depth (rs.flatMap Record.bytes) = some rs :=
  records_eq_some_iff.2 ⟨rfl, hwf⟩

/-- None of the items is a group. -/
def groupless (rs : List Record) : Prop :=
  ∀ r ∈ rs, r.key.wire ≠ .sgroup

instance (rs : List Record) : Decidable (groupless rs) :=
  inferInstanceAs (Decidable (∀ r ∈ rs, r.key.wire ≠ .sgroup))

@[simp] theorem groupless_nil : groupless [] := by
  simp [groupless]

@[simp] theorem groupless_cons {r : Record} {rs : List Record} :
    groupless (r :: rs) ↔ r.key.wire ≠ .sgroup ∧ groupless rs := by
  simp [groupless]

end Protobuf
end FunctionWasm

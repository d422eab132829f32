import FunctionWasm.Foundation.Message

/-!
# Scalar — integers, texts and messages as fields

What an encoder writes for one field is one item; a proto3 encoder leaves out what is the default.

* `Record.ofVarint` and `Record.ofLen` are the items of an integer and of a text or a message.
* `Record.varint` and `Record.str` read them, `signed64` and `signed32` are what an integer stands for.
* `decodeFields` folds over the items of a message, `decodeFields_flatMap` reads what was written.
-/

namespace FunctionWasm
namespace Protobuf

/-! ## Signed integers -/

/-- The low 64 bits, read with a sign. -/
def signed64 (v : Nat) : Int :=
  if v % 2 ^ 64 < 2 ^ 63 then ((v % 2 ^ 64 : ℕ) : Int) else ((v % 2 ^ 64 : ℕ) : Int) - 2 ^ 64

/-- The low 32 bits, read with a sign. -/
def signed32 (v : Nat) : Int :=
  if v % 2 ^ 32 < 2 ^ 31 then ((v % 2 ^ 32 : ℕ) : Int) else ((v % 2 ^ 32 : ℕ) : Int) - 2 ^ 32

/-- An integer as the 64 bits that are written for it. -/
def unsigned64 (i : Int) : Nat :=
  (i % 2 ^ 64).toNat

theorem unsigned64_lt (i : Int) : unsigned64 i < 2 ^ 64 := by
  unfold unsigned64
  omega

theorem signed64_unsigned64 {i : Int} (h : -2 ^ 63 ≤ i ∧ i < 2 ^ 63) :
    signed64 (unsigned64 i) = i := by
  unfold signed64 unsigned64
  split <;> omega

theorem signed32_unsigned64 {i : Int} (h : -2 ^ 31 ≤ i ∧ i < 2 ^ 31) :
    signed32 (unsigned64 i) = i := by
  unfold signed32 unsigned64
  split <;> omega

theorem signed64_range (v : Nat) : -2 ^ 63 ≤ signed64 v ∧ signed64 v < 2 ^ 63 := by
  unfold signed64
  split <;> omega

theorem signed32_range (v : Nat) : -2 ^ 31 ≤ signed32 v ∧ signed32 v < 2 ^ 31 := by
  unfold signed32
  split <;> omega

/-! ## Lengths -/

theorem length_writeGroups_le (k : Nat) : ∀ v, (writeGroups k v).length ≤ k := by
  induction k with
  | zero => simp [writeGroups]
  | succ k ih =>
      intro v
      rw [writeGroups]
      split
      · simp
      · simpa using ih (v / 128)

theorem length_writeVarint_le (v : Nat) : (writeVarint v).length ≤ 10 :=
  length_writeGroups_le 10 v

/-! ## Items -/

namespace Record

/-- The key of an item as an encoder writes it. -/
def keyOf (field : Nat) (wire : WireType) : Key :=
  { field := field, wire := wire }

def ofVarint (field v : Nat) : Record where
  key := keyOf field .varint
  keyBytes := writeVarint (keyOf field .varint).code
  value := writeVarint v
  payload := writeVarint v

def ofLen (field : Nat) (payload : Bytes) : Record where
  key := keyOf field .len
  keyBytes := writeVarint (keyOf field .len).code
  value := writeVarint payload.length ++ payload
  payload := payload

theorem key_exact {k : Key} (hfield : 1 ≤ k.field) (hcode : k.code < 2 ^ 32) :
    readKey.Exact k (writeVarint k.code) := by
  intro tail
  exact Reader.filterMap_eq_some.2
    ⟨k.code, readVarint_writeVarint (Nat.lt_trans hcode (by decide)) tail, Key.ofCode?_code hfield hcode⟩

variable {depth field : Nat}

theorem ofVarint_wf (hfield : 1 ≤ field ∧ field < 2 ^ 29) {v : Nat} (hv : v < 2 ^ 64) :
    (ofVarint field v).WF depth := by
  have hcode : (keyOf field .varint).code < 2 ^ 32 := by
    simp only [Key.code, keyOf, WireType.toNat]
    omega
  refine ⟨key_exact hfield.1 hcode, fun tail => ?_⟩
  exact Reader.map_eq_some.2
    ⟨(v, writeVarint v), Reader.withUsed_eq_some.2 ⟨readVarint_writeVarint hv tail, rfl⟩, rfl⟩

theorem ofLen_wf (hfield : 1 ≤ field ∧ field < 2 ^ 29) {payload : Bytes}
    (hpayload : payload.length < 2 ^ 64) : (ofLen field payload).WF depth := by
  have hcode : (keyOf field .len).code < 2 ^ 32 := by
    simp only [Key.code, keyOf, WireType.toNat]
    omega
  exact ⟨key_exact hfield.1 hcode, readLen_writeVarint hpayload⟩

theorem length_ofVarint_le (field v : Nat) : (ofVarint field v).bytes.length ≤ 20 := by
  have hkey := length_writeVarint_le (keyOf field .varint).code
  have hvalue := length_writeVarint_le v
  simp only [bytes, ofVarint, List.length_append]
  omega

theorem length_ofLen_le (field : Nat) (payload : Bytes) :
    (ofLen field payload).bytes.length ≤ 20 + payload.length := by
  have hkey := length_writeVarint_le (keyOf field .len).code
  have hlength := length_writeVarint_le payload.length
  simp only [bytes, ofLen, List.length_append]
  omega

/-! ## Values -/

/-- The integer of an item. -/
def varint (r : Record) : Option Nat :=
  if r.key.wire = .varint then (readVarint r.payload).map Prod.fst else none

def str (r : Record) : Option Text :=
  if r.key.wire = .len then utf8? r.payload else none

theorem varint_ofVarint {v : Nat} (hv : v < 2 ^ 64) : (ofVarint field v).varint = some v := by
  have hread : readVarint (writeVarint v ++ []) = some (v, writeVarint v, []) :=
    readVarint_writeVarint hv []
  rw [List.append_nil] at hread
  simp [varint, ofVarint, keyOf, hread]

theorem str_ofLen (t : Text) : (ofLen field (textBytes t)).str = some t := by
  simp [str, ofLen, keyOf, utf8?_textBytes]

end Record

/-! ## Messages -/

/-- Merges an encoded message item by item. -/
def decodeFields {V : Type} (depth : Nat) (mergeField : V → Record → Option V) (v : V)
    (bs : Bytes) : Option V :=
  (records depth bs).bind fun rs => rs.foldlM mergeField v

theorem decodeFields_flatMap {V : Type} {depth : Nat} {mergeField : V → Record → Option V} {v : V}
    {rs : List Record} (hwf : ∀ r ∈ rs, r.WF depth) :
    decodeFields depth mergeField v (rs.flatMap Record.bytes) = rs.foldlM mergeField v := by
  rw [decodeFields, records_flatMap hwf, Option.bind_some]

end Protobuf
end FunctionWasm

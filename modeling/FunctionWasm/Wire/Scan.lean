import Mathlib.Data.Nat.Bitwise
import FunctionWasm.Foundation.Record
import FunctionWasm.Wire.ProtoWire

/-!
# Scan — the offset scanner and the decoder's reader find the same items

`varint` and `skipValue` work on offsets into one buffer, the decoder's readers on what is left of
it.  Wherever the decoder reads an item that is not a group, the scanner ends it at the same byte
and without a fault; at a group it gives up.

* `varint_of_exact` and `skipValue_of_wf` are the agreement for integers and values.
* `skipValue_group` is where they part.
* `scan_item` is one round of a scan loop, `scan_payload` what it cuts out of a value.
-/

namespace FunctionWasm
namespace ProtoWire

open Protobuf

/-! ## Bits -/

theorem and_low_bits (n : Nat) : n &&& 0x7f = n % 128 :=
  Nat.and_two_pow_sub_one_eq_mod n 7

theorem and_wire_bits (n : Nat) : n &&& 0x7 = n % 8 :=
  Nat.and_two_pow_sub_one_eq_mod n 3

theorem and_high_bit {n : Nat} (hn : n < 256) : n &&& 0x80 = 0 ↔ n < 128 := by
  have hbit : n &&& 2 ^ 7 = (n.testBit 7).toNat * 2 ^ 7 := Nat.and_two_pow n 7
  have htest : n.testBit 7 = decide (n / 2 ^ 7 % 2 = 1) := Nat.testBit_eq_decide_div_mod_eq
  have hmask : n &&& 0x80 = (n.testBit 7).toNat * 128 := hbit
  rw [hmask, htest]
  by_cases hlt : n < 128
  · have hdiv : n / 128 % 2 = 0 := by omega
    simp [hdiv, hlt]
  · have hdiv : n / 128 % 2 = 1 := by omega
    simp [hdiv, hlt]

/-- Putting a group above the bits already read adds it. -/
theorem or_shifted {value low shift : Nat} (hvalue : value < 2 ^ shift)
    (hfits : low * 2 ^ shift < 2 ^ 64) :
    value ||| (low <<< shift) % 2 ^ 64 = value + low * 2 ^ shift := by
  have hadd : 2 ^ shift * low + value = 2 ^ shift * low ||| value :=
    Nat.two_pow_add_eq_or_of_lt hvalue low
  rw [Nat.shiftLeft_eq, Nat.mod_eq_of_lt hfits, Nat.or_comm, Nat.mul_comm low, ← hadd,
    Nat.add_comm]

/-! ## Varints -/

theorem varintLoop_of_readGroups :
    ∀ {k : Nat} {pre bs : Bytes} {v : Nat} {used rest : Bytes} {start value shift : Nat},
      readGroups k bs = some (v, used, rest) → k ≤ 10 → shift = 7 * (10 - k) →
        value < 2 ^ shift → value + v * 2 ^ shift < 2 ^ 64 →
          varintLoop (pre ++ bs) start k pre.length value shift =
            some (value + v * 2 ^ shift, pre.length + used.length - start) := by
  -- by induction on the bytes that may still come: `value` is what the groups before them made
  intro k
  induction k with
  | zero =>
      intro pre bs v used rest start value shift h
      simp [readGroups] at h
  | succ k ih =>
      intro pre bs v used rest start value shift h hk hshift hvalue hfits
      cases bs with
      | nil => simp [readGroups] at h
      | cons b bs =>
          have hget : (pre ++ b :: bs)[pre.length]? = some b := by simp
          have hb : b.toNat < 256 := b.toNat_lt
          have hpow : 0 < 2 ^ shift := Nat.two_pow_pos shift
          -- the last group has its high bit clear
          by_cases hlt : b.toNat < 128
          · have hEq : some (b.toNat, [b], bs) = some (v, used, rest) := by
              simpa [readGroups, hlt] using h
            cases hEq
            have hlow : b.toNat &&& 0x7f = b.toNat := by
              rw [and_low_bits]
              exact Nat.mod_eq_of_lt hlt
            have hor : value ||| (b.toNat <<< shift) % 2 ^ 64 = value + b.toNat * 2 ^ shift :=
              or_shifted hvalue (by omega)
            simp only [varintLoop, hget, hlow, hor, (and_high_bit hb).2 hlt, if_true,
              List.length_singleton]
          · cases hr : readGroups k bs with
            | none => simp [readGroups, hlt, hr] at h
            | some x =>
                rcases x with ⟨v0, used0, rest0⟩
                have hEq :
                    some (b.toNat - 128 + 128 * v0, b :: used0, rest0) = some (v, used, rest) := by
                  simpa [readGroups, hlt, hr] using h
                cases hEq
                have hlow : b.toNat &&& 0x7f = b.toNat - 128 := by
                  rw [and_low_bits]
                  omega
                have hhigh : ¬ b.toNat &&& 0x80 = 0 := fun h0 => hlt ((and_high_bit hb).1 h0)
                have hkpos : k ≠ 0 := by
                  rintro rfl
                  simp [readGroups] at hr
                have hshift' : shift + 7 = 7 * (10 - k) := by omega
                -- the group goes below what follows, seven bits on
                have hsum : (b.toNat - 128 + 128 * v0) * 2 ^ shift =
                    (b.toNat - 128) * 2 ^ shift + v0 * 2 ^ (shift + 7) := by
                  rw [Nat.pow_add, Nat.add_mul]
                  have hcomm : 128 * v0 * 2 ^ shift = v0 * (2 ^ shift * 2 ^ 7) := by
                    rw [Nat.mul_comm 128 v0, Nat.mul_assoc, Nat.mul_comm 128]
                    rfl
                  rw [hcomm]
                have hor : value ||| ((b.toNat - 128) <<< shift) % 2 ^ 64 =
                    value + (b.toNat - 128) * 2 ^ shift :=
                  or_shifted hvalue (by omega)
                have hvalue' : value + (b.toNat - 128) * 2 ^ shift < 2 ^ (shift + 7) := by
                  have hle : (b.toNat - 128) * 2 ^ shift ≤ 127 * 2 ^ shift :=
                    Nat.mul_le_mul_right _ (by omega)
                  rw [Nat.pow_add]
                  omega
                have hnot : ¬ 64 ≤ shift + 7 := by omega
                have hpre : pre ++ b :: bs = (pre ++ [b]) ++ bs := by simp
                have hlen : pre.length + 1 = (pre ++ [b]).length := by simp
                simp only [varintLoop, hget, hlow, hor, hhigh, if_false, hnot]
                rw [hpre, hlen, ih hr (by omega) hshift' hvalue' (by omega)]
                have hvalEq : value + (b.toNat - 128) * 2 ^ shift + v0 * 2 ^ (shift + 7) =
                    value + (b.toNat - 128 + 128 * v0) * 2 ^ shift := by omega
                have hlenEq : (pre ++ [b]).length + used0.length =
                    pre.length + (b :: used0).length := by
                  simp only [List.length_append, List.length_cons, List.length_nil]
                  omega
                rw [hvalEq, hlenEq]

/-- Where the decoder reads a varint, so does the scanner. -/
theorem varint_of_exact {v : Nat} {u : Bytes} (h : readVarint.Exact v u) (pre post : Bytes) :
    varint (pre ++ u ++ post) pre.length = some (v, u.length) := by
  rcases readVarint_eq_some.1 (h post) with ⟨hgroups, hv⟩
  have hloop : varintLoop (pre ++ (u ++ post)) pre.length 10 pre.length 0 0 = _ :=
    varintLoop_of_readGroups hgroups (Nat.le_refl 10) rfl (by simp) (by simpa using hv)
  rw [List.append_assoc]
  simpa [varint] using hloop

theorem varint_of_key {k : Key} {u : Bytes} (h : readKey.Exact k u) (pre post : Bytes) :
    varint (pre ++ u ++ post) pre.length = some (k.code, u.length) :=
  varint_of_exact (fun tail => readVarint_of_readKey (h tail)) pre post

theorem key_wire (k : Key) : k.code &&& 0x7 = k.wire.toNat := by
  rw [and_wire_bits, Key.code_mod]

theorem key_field (k : Key) : k.code >>> 3 = k.field := by
  rw [Nat.shiftRight_eq_div_pow]
  exact Key.code_div k

/-! ## Values -/

/-- A length-delimited value is a length and the payload. -/
theorem Record.WF.len_split {depth : Nat} {r : Record} (h : r.WF depth)
    (hwire : r.key.wire = .len) :
    ∃ prefixBytes, r.value = prefixBytes ++ r.payload ∧
      readVarint.Exact r.payload.length prefixBytes := by
  have hread : readLen (r.value ++ []) = some (r.payload, r.value, []) := by
    simpa [readValue, hwire, readScalar] using h.value_exact []
  rcases Reader.andThen_eq_some.1 hread with ⟨len, u, mid, u', hu, htake, hvalue⟩
  by_cases hle : len ≤ mid.length
  · simp only [Reader.take, hle, if_true, Option.some.injEq, Prod.mk.injEq] at htake
    rcases htake with ⟨hpayload, htaken, _⟩
    have hlen : r.payload.length = len := by
      rw [← hpayload]
      exact List.length_take_of_le hle
    refine ⟨u, ?_, ?_⟩
    · rw [hvalue, ← htaken, hpayload]
    · rw [hlen]
      exact readVarint_local.exact hu
  · simp [Reader.take, hle] at htake

theorem Record.WF.fixed_length {depth n : Nat} {r : Record} (h : r.WF depth)
    (hread : readValue depth r.key = Reader.take n) : r.value.length = n := by
  have htake : Reader.take n (r.value ++ []) = some (r.payload, r.value, []) := by
    rw [← hread]
    exact h.value_exact []
  by_cases hle : n ≤ (r.value ++ []).length
  · simp only [Reader.take, hle, if_true] at htake
    have hvalue : (r.value ++ []).take n = r.value := by
      have hpair := Option.some.inj htake
      exact congrArg (fun x => x.2.1) hpair
    rw [← hvalue]
    exact List.length_take_of_le hle
  · simp only [Reader.take, hle, if_false] at htake
    cases htake

/-- Where the decoder reads the value of an item that is not a group, the scanner ends it at the
same byte. -/
theorem skipValue_of_wf {b : Build} {depth : Nat} {r : Record} (h : r.WF depth)
    (hgroup : r.key.wire ≠ .sgroup) (pre post : Bytes)
    (hfits : (pre ++ r.value ++ post).length < 2 ^ 63) :
    skipValue b (pre ++ r.value ++ post) pre.length r.key.wire.toNat =
      .ok (some (pre.length + r.value.length)) := by
  have hle : pre.length + r.value.length ≤ (pre ++ r.value ++ post).length := by
    simp only [List.length_append]
    omega
  cases hwire : r.key.wire with
  | varint =>
      have hexact : readVarint.withUsed.map Prod.snd (r.value ++ []) =
          some (r.payload, r.value, []) := by
        simpa [readValue, hwire, readScalar] using h.value_exact []
      rcases Reader.map_eq_some.1 hexact with ⟨⟨v, u⟩, hv, _⟩
      have hread : readVarint.Exact v r.value :=
        readVarint_local.exact (Reader.withUsed_eq_some.1 hv).1
      simp only [WireType.toNat, skipValue, varint_of_exact hread pre post, Option.map_some]
  | i64 =>
      have hlen : r.value.length = 8 :=
        Record.WF.fixed_length h (by simp [readValue, hwire, readScalar])
      rw [hlen] at hle ⊢
      simp only [WireType.toNat, skipValue, hle, if_true]
  | i32 =>
      have hlen : r.value.length = 4 :=
        Record.WF.fixed_length h (by simp [readValue, hwire, readScalar])
      rw [hlen] at hle ⊢
      simp only [WireType.toNat, skipValue, hle, if_true]
  | len =>
      rcases Record.WF.len_split h hwire with ⟨u, hvalue, hu⟩
      have hvar : varint (pre ++ r.value ++ post) pre.length =
          some (r.payload.length, u.length) := by
        rw [hvalue]
        simpa using varint_of_exact hu pre (r.payload ++ post)
      -- the length and the payload after it make up the value
      have hend : pre.length + u.length + r.payload.length = pre.length + r.value.length := by
        rw [hvalue, List.length_append]
        omega
      have hadd : b.add (pre.length + u.length) r.payload.length =
          .ok (pre.length + r.value.length) := by
        rw [← hend]
        refine Build.add_of_lt ?_
        rw [hend, usizeBound]
        omega
      simp only [WireType.toNat, skipValue, hvar, hadd, hle, if_true]
  | sgroup => exact absurd hwire hgroup
  | egroup =>
      -- the end of a group has no value: no record of it is well formed
      have hread := h.value_exact []
      simp [readValue, hwire, Reader.fail] at hread

theorem skipValue_group (b : Build) (raw : Bytes) (i : Nat) :
    skipValue b raw i WireType.sgroup.toNat = .ok none :=
  rfl

/-- The payload of a length-delimited value, as the scanner cuts it out. -/
theorem payload_slice {depth : Nat} {r : Record} (h : r.WF depth) (hwire : r.key.wire = .len)
    (pre post : Bytes) :
    ∃ len n, varint (pre ++ r.value ++ post) pre.length = some (len, n) ∧
      slice (pre ++ r.value ++ post) (pre.length + n) (pre.length + r.value.length) =
        .ok r.payload := by
  rcases Record.WF.len_split h hwire with ⟨u, hvalue, hu⟩
  refine ⟨r.payload.length, u.length, ?_, ?_⟩
  · rw [hvalue]
    simpa using varint_of_exact hu pre (r.payload ++ post)
  · have hsplit : pre ++ r.value ++ post = (pre ++ u) ++ r.payload ++ post := by
      rw [hvalue]
      simp
    rw [hsplit]
    refine slice_append (pre ++ u) r.payload post (by simp) ?_
    rw [hvalue]
    simp only [List.length_append]
    omega

/-! ## One round of a scan loop -/

/-- At an item the scanner reads the key and, unless it is a group, finds its end. -/
theorem scan_item {b : Build} {depth : Nat} {r : Record} (h : r.WF depth) (pre post : Bytes)
    (hfits : (pre ++ r.bytes ++ post).length < 2 ^ 63) :
    varint (pre ++ r.bytes ++ post) pre.length = some (r.key.code, r.keyBytes.length) ∧
      skipValue b (pre ++ r.bytes ++ post) (pre.length + r.keyBytes.length) r.key.wire.toNat =
        .ok (if r.key.wire = .sgroup then none else some (pre.length + r.bytes.length)) := by
  have hsplit : pre ++ r.bytes ++ post = (pre ++ r.keyBytes) ++ r.value ++ post := by
    simp [Record.bytes]
  have hlen : pre.length + r.keyBytes.length = (pre ++ r.keyBytes).length := by simp
  constructor
  · have hkey := varint_of_key h.key_exact pre (r.value ++ post)
    simpa [Record.bytes] using hkey
  · by_cases hgroup : r.key.wire = .sgroup
    · simp only [hgroup, if_true]
      exact skipValue_group b _ _
    · rw [hsplit, hlen, skipValue_of_wf h hgroup _ _ (by rw [← hsplit]; exact hfits),
        if_neg hgroup]
      simp [Record.bytes, Nat.add_assoc]

/-- At the head of a scan loop over records that are still to come: the first one is there, and what
follows it is shorter. -/
theorem scan_head {depth : Nat} {r : Record} {rs : List Record} {pre : Bytes} {fuel : Nat}
    (hr : r.WF depth) (hfits : (pre ++ (r :: rs).flatMap Record.bytes).length < 2 ^ 63)
    (hfuel : ((r :: rs).flatMap Record.bytes).length ≤ fuel) :
    ¬ (pre ++ r.bytes ++ rs.flatMap Record.bytes).length ≤ pre.length ∧
      (pre ++ r.bytes ++ rs.flatMap Record.bytes).length < 2 ^ 63 ∧
      ∃ left, fuel = left + 1 ∧ (rs.flatMap Record.bytes).length ≤ left := by
  have hpos : 0 < r.bytes.length := List.length_pos_iff.2 hr.bytes_ne_nil
  simp only [List.flatMap_cons, List.length_append] at hfits hfuel ⊢
  refine ⟨by omega, by omega, ?_⟩
  cases fuel with
  | zero => omega
  | succ left => exact ⟨left, rfl, by omega⟩

/-- The payload of a length-delimited item, as the scanner cuts it out. -/
theorem scan_payload {depth : Nat} {r : Record} (h : r.WF depth) (hwire : r.key.wire = .len)
    (pre post : Bytes) :
    ∃ len n, varint (pre ++ r.bytes ++ post) (pre.length + r.keyBytes.length) = some (len, n) ∧
      slice (pre ++ r.bytes ++ post) (pre.length + r.keyBytes.length + n)
        (pre.length + r.bytes.length) = .ok r.payload := by
  have hsplit : pre ++ r.bytes ++ post = (pre ++ r.keyBytes) ++ r.value ++ post := by
    simp [Record.bytes]
  have hlen : pre.length + r.keyBytes.length = (pre ++ r.keyBytes).length := by simp
  have hend : pre.length + r.bytes.length = (pre ++ r.keyBytes).length + r.value.length := by
    simp [Record.bytes, Nat.add_assoc]
  rw [hsplit, hlen, hend]
  exact payload_slice h hwire (pre ++ r.keyBytes) post

end ProtoWire
end FunctionWasm

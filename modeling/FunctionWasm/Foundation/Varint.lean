import FunctionWasm.Foundation.Reader

/-!
# Varint — base-128 integers of the protobuf wire format

A varint carries seven payload bits per byte, least significant group first, with the high bit set
on every byte but the last.  A reader takes at most ten bytes and refuses a value of more than
64 bits.

* `readVarint` is the reader: the value, the bytes it took and what follows them.
* `writeVarint` is the shortest encoding of a value.

Both are stated on plain byte lists, so that a scanner over offsets can be compared with them.
-/

namespace FunctionWasm
namespace Protobuf

/-! ## Reading -/

/-- Reads one varint of at most `k` bytes: its value, the bytes taken, the bytes that follow. -/
def readGroups : Nat → Bytes → Option (Nat × Bytes × Bytes)
  | 0, _ => none
  | _ + 1, [] => none
  | k + 1, b :: bs =>
      if b.toNat < 128 then
        some (b.toNat, [b], bs)
      else
        match readGroups k bs with
        | some (v, used, rest) => some (b.toNat - 128 + 128 * v, b :: used, rest)
        | none => none

/-- Reads one varint: ten bytes at most, and a value that fits 64 bits. -/
def readVarint : Reader Nat := fun bs =>
  match readGroups 10 bs with
  | some (v, used, rest) => if v < 2 ^ 64 then some (v, used, rest) else none
  | none => none

/-- What `readGroups` takes is a non-empty prefix, and it takes the same one whatever follows. -/
theorem readGroups_local :
    ∀ {k : Nat} {bs : Bytes} {v : Nat} {used rest : Bytes},
      readGroups k bs = some (v, used, rest) →
        bs = used ++ rest ∧ used ≠ [] ∧
          ∀ tail : Bytes, readGroups k (used ++ tail) = some (v, used, tail) := by
  intro k
  induction k with
  | zero =>
      intro bs v used rest h
      simp [readGroups] at h
  | succ k ih =>
      intro bs v used rest h
      cases bs with
      | nil =>
          simp [readGroups] at h
      | cons b bs =>
          by_cases hb : b.toNat < 128
          · have hEq : some (b.toNat, [b], bs) = some (v, used, rest) := by
              simpa [readGroups, hb] using h
            cases hEq
            refine ⟨rfl, by simp, ?_⟩
            intro tail
            simp [readGroups, hb]
          · cases hr : readGroups k bs with
            | none =>
                simp [readGroups, hb, hr] at h
            | some r =>
                rcases r with ⟨v0, used0, rest0⟩
                have hEq :
                    some (b.toNat - 128 + 128 * v0, b :: used0, rest0) = some (v, used, rest) := by
                  simpa [readGroups, hb, hr] using h
                cases hEq
                rcases ih hr with ⟨hbs, _, htail⟩
                refine ⟨by simp [hbs], by simp, ?_⟩
                intro tail
                simp [readGroups, hb, htail tail]

theorem readVarint_eq_some {bs : Bytes} {v : Nat} {used rest : Bytes} :
    readVarint bs = some (v, used, rest) ↔
      readGroups 10 bs = some (v, used, rest) ∧ v < 2 ^ 64 := by
  unfold readVarint
  cases h : readGroups 10 bs with
  | none => simp
  | some r =>
      rcases r with ⟨v0, used0, rest0⟩
      constructor
      · intro hEq
        by_cases hv : v0 < 2 ^ 64
        · have hEq' : some (v0, used0, rest0) = some (v, used, rest) := by
            simpa only [if_pos hv] using hEq
          cases hEq'
          exact ⟨rfl, hv⟩
        · simp only [if_neg hv] at hEq
          cases hEq
      · rintro ⟨hEq, hv⟩
        cases hEq
        exact if_pos hv

theorem readVarint_local : readVarint.Local := by
  intro bs v used rest h
  rcases readVarint_eq_some.1 h with ⟨hg, hv⟩
  rcases readGroups_local hg with ⟨hbs, _, htail⟩
  exact ⟨hbs, fun tail => readVarint_eq_some.2 ⟨htail tail, hv⟩⟩

theorem readVarint_progress : readVarint.Progress := by
  intro bs v used rest h
  exact (readGroups_local (readVarint_eq_some.1 h).1).2.1

/-! ## Writing -/

/-- The shortest encoding of `v` in at most `k` bytes. -/
def writeGroups : Nat → Nat → Bytes
  | 0, _ => []
  | k + 1, v =>
      if v < 128 then [UInt8.ofNat v]
      else UInt8.ofNat (v % 128 + 128) :: writeGroups k (v / 128)

def writeVarint (v : Nat) : Bytes :=
  writeGroups 10 v

theorem readGroups_writeGroups :
    ∀ {k v : Nat}, v < 128 ^ (k + 1) → ∀ tail : Bytes,
      readGroups (k + 1) (writeGroups (k + 1) v ++ tail) =
        some (v, writeGroups (k + 1) v, tail) := by
  intro k
  induction k with
  | zero =>
      intro v hv tail
      have hlt : v < 128 := by simpa using hv
      have hb : (UInt8.ofNat v).toNat = v := by
        rw [UInt8.toNat_ofNat']
        omega
      simp only [writeGroups, if_pos hlt, List.cons_append, readGroups, hb]
      simp
  | succ k ih =>
      intro v hv tail
      by_cases hlt : v < 128
      · have hb : (UInt8.ofNat v).toNat = v := by
          rw [UInt8.toNat_ofNat']
          omega
        rw [writeGroups, if_pos hlt]
        simp only [List.cons_append, readGroups, hb, if_pos hlt]
        simp
      · have hb : (UInt8.ofNat (v % 128 + 128)).toNat = v % 128 + 128 := by
          rw [UInt8.toNat_ofNat']
          omega
        have hge : ¬ v % 128 + 128 < 128 := by omega
        have hdiv : v / 128 < 128 ^ (k + 1) := by
          rw [Nat.div_lt_iff_lt_mul (by decide)]
          simpa only [Nat.pow_succ] using hv
        have hval : v % 128 + 128 - 128 + 128 * (v / 128) = v := by omega
        rw [writeGroups, if_neg hlt, List.cons_append, readGroups, hb, if_neg hge, ih hdiv tail]
        simp only [hval]

/-- A 64-bit value survives being written and read back, whatever follows it. -/
theorem readVarint_writeVarint {v : Nat} (hv : v < 2 ^ 64) :
    readVarint.Exact v (writeVarint v) := by
  intro tail
  refine readVarint_eq_some.2 ⟨readGroups_writeGroups ?_ tail, hv⟩
  calc
    v < 2 ^ 64 := hv
    _ ≤ 128 ^ 10 := by decide

end Protobuf
end FunctionWasm

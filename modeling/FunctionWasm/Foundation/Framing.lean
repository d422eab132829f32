import FunctionWasm.Foundation.Decimal
import FunctionWasm.Foundation.Utf8

/-!
# Framing — fields that are written after their length

* `frame` writes a field: its length in decimal, a space and its bytes.
* `frame_append_inj` says that no field is the start of another one: what follows a field may be
  anything, also digits and spaces, and so may its own bytes.
-/

namespace FunctionWasm

/-- A field after its length and a space. -/
def frame (field : Bytes) : Bytes :=
  textBytes (decimalText field.length) ++ (0x20 :: field)

/-- Two lists are cut at the first `x` alike. -/
theorem cut_inj {α : Type} {x : α} {a b u v : List α} (ha : x ∉ a) (hb : x ∉ b)
    (h : a ++ x :: u = b ++ x :: v) : a = b ∧ u = v := by
  induction a generalizing b with
  | nil =>
      cases b with
      | nil => exact ⟨rfl, (List.cons.inj h).2⟩
      | cons y b => exact absurd ((List.cons.inj h).1 ▸ List.mem_cons_self) hb
  | cons y a ih =>
      cases b with
      | nil => exact absurd ((List.cons.inj h).1 ▸ List.mem_cons_self) ha
      | cons z b =>
          obtain ⟨rfl, htail⟩ := List.cons.inj h
          have hrest := ih (fun hmem => ha (List.mem_cons_of_mem _ hmem))
            (fun hmem => hb (List.mem_cons_of_mem _ hmem)) htail
          exact ⟨congrArg (y :: ·) hrest.1, hrest.2⟩

/-- Digits are bytes of their own, and none is a space. -/
theorem space_notMem_decimal (n : Nat) : (0x20 : UInt8) ∉ textBytes (decimalText n) := by
  intro hmem
  obtain ⟨c, hc, hbyte⟩ := List.mem_flatMap.1 hmem
  have hdigit : 48 ≤ c.toNat ∧ c.toNat ≤ 57 := Char.isDigit_iff_toNat.1 (decimalText_digit hc)
  rcases encode_lead c with ⟨-, hone⟩ | ⟨hlarge, -⟩
  · rw [hone, List.mem_singleton] at hbyte
    have hsame : (0x20 : UInt8).toNat = (UInt8.ofNat c.toNat).toNat := congrArg UInt8.toNat hbyte
    simp at hsame
    omega
  · omega

theorem decimalText_inj {m n : Nat} (h : decimalText m = decimalText n) : m = n :=
  calc m = digitsValue (decimalText m) := (digitsValue_decimalText m).symm
    _ = digitsValue (decimalText n) := by rw [h]
    _ = n := digitsValue_decimalText n

/-- Buffers that start with a field start with the same field and go on alike. -/
theorem frame_append_inj {a b u v : Bytes} (h : frame a ++ u = frame b ++ v) : a = b ∧ u = v := by
  have hcut : textBytes (decimalText a.length) ++ 0x20 :: (a ++ u) =
      textBytes (decimalText b.length) ++ 0x20 :: (b ++ v) := by
    simpa [frame] using h
  obtain ⟨hdigits, hfields⟩ :=
    cut_inj (space_notMem_decimal a.length) (space_notMem_decimal b.length) hcut
  have hlength : a.length = b.length := decimalText_inj (textBytes_inj.1 hdigits)
  exact List.append_inj hfields hlength

end FunctionWasm

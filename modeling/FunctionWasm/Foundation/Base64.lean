import Mathlib.Data.List.GetD
import FunctionWasm.Foundation.Text

/-!
# Base64 — bytes as text of sixty-four characters

Three bytes are four characters.  What is left of them at the end is filled with `=`, and the bits
that stand for nothing are zero.

* `encode` writes bytes, `decode` reads what `encode` writes and nothing else.
* `decode_eq_some_iff` says so.
-/

namespace FunctionWasm
namespace Base64

def alphabet : Text :=
  "ABCDEFGHIJKLMNOPQRSTUVWXYZabcdefghijklmnopqrstuvwxyz0123456789+/".toList

/-- The character of six bits. -/
def digit (n : Nat) : Char := alphabet.getD n '='

/-- The six bits of a character. -/
def sextet (c : Char) : Option Nat :=
  let n := alphabet.idxOf c
  if n < 64 then some n else none

def encode : Bytes → Text
  | [] => []
  | [a] => [digit (a.toNat / 4), digit (a.toNat % 4 * 16), '=', '=']
  | [a, b] =>
      [digit (a.toNat / 4), digit (a.toNat % 4 * 16 + b.toNat / 16), digit (b.toNat % 16 * 4), '=']
  | a :: b :: c :: rest =>
      digit (a.toNat / 4) :: digit (a.toNat % 4 * 16 + b.toNat / 16) ::
        digit (b.toNat % 16 * 4 + c.toNat / 64) :: digit (c.toNat % 64) :: encode rest

/-- Four characters of which the last is `=`: one byte or two. -/
def closing (a b c : Char) : Option Bytes :=
  match sextet a, sextet b with
  | some x, some y =>
      if c = '=' then if y % 16 = 0 then some [.ofNat (x * 4 + y / 16)] else none
      else
        (sextet c).bind fun z =>
          if z % 4 = 0 then some [.ofNat (x * 4 + y / 16), .ofNat (y % 16 * 16 + z / 4)] else none
  | _, _ => none

/-- Four characters: three bytes. -/
def quantum (a b c d : Char) : Option Bytes :=
  match sextet a, sextet b, sextet c, sextet d with
  | some x, some y, some z, some w =>
      some [.ofNat (x * 4 + y / 16), .ofNat (y % 16 * 16 + z / 4), .ofNat (z % 4 * 64 + w)]
  | _, _, _, _ => none

def decode : Text → Option Bytes
  | [] => some []
  | a :: b :: c :: d :: rest =>
      if d = '=' then if rest = [] then closing a b c else none
      else (quantum a b c d).bind fun bs => (decode rest).map (bs ++ ·)
  | _ => none

/-! ## One character -/

theorem sextet_digit {n : Nat} (h : n < 64) : sextet (digit n) = some n := by
  have hall : ∀ n : Fin 64, sextet (digit n) = some n.val := by decide +kernel
  exact hall ⟨n, h⟩

theorem digit_ne {n : Nat} (h : n < 64) : digit n ≠ '=' := by
  have hall : ∀ n : Fin 64, digit n ≠ '=' := by decide +kernel
  exact hall ⟨n, h⟩

theorem sextet_eq_some {c : Char} {n : Nat} (h : sextet c = some n) : n < 64 ∧ c = digit n := by
  simp only [sextet] at h
  split at h
  · next hlt =>
      have hn : alphabet.idxOf c = n := Option.some.inj h
      have hlength : alphabet.length = 64 := by decide +kernel
      have hindex : alphabet.idxOf c < alphabet.length := hlength ▸ hlt
      refine ⟨hn ▸ hlt, ?_⟩
      rw [digit, ← hn, List.getD_eq_getElem _ _ hindex]
      exact (List.getElem_idxOf hindex).symm
  · cases h

theorem ofNat_toNat {n : Nat} (h : n < 256) : (UInt8.ofNat n).toNat = n := by
  rw [UInt8.toNat_ofNat']
  exact Nat.mod_eq_of_lt h

/-! ## Reading and writing -/

/-- What is written is read. -/
theorem decode_encode : ∀ bs : Bytes, decode (encode bs) = some bs
  | [] => rfl
  | [a] => by
      have ha := a.toNat_lt
      rw [encode, decode, if_pos rfl, if_pos rfl, closing, sextet_digit (by omega),
        sextet_digit (by omega)]
      dsimp only
      rw [if_pos rfl, if_pos (by omega)]
      have hbyte : a.toNat / 4 * 4 + a.toNat % 4 * 16 / 16 = a.toNat := by omega
      rw [hbyte, UInt8.ofNat_toNat]
  | [a, b] => by
      have ha := a.toNat_lt
      have hb := b.toNat_lt
      rw [encode, decode, if_pos rfl, if_pos rfl, closing, sextet_digit (by omega),
        sextet_digit (by omega)]
      dsimp only
      rw [if_neg (digit_ne (by omega)), sextet_digit (by omega), Option.bind_some,
        if_pos (by omega)]
      have hfirst : a.toNat / 4 * 4 + (a.toNat % 4 * 16 + b.toNat / 16) / 16 = a.toNat := by omega
      have hsecond : (a.toNat % 4 * 16 + b.toNat / 16) % 16 * 16 + b.toNat % 16 * 4 / 4 = b.toNat := by
        omega
      rw [hfirst, hsecond, UInt8.ofNat_toNat, UInt8.ofNat_toNat]
  | a :: b :: c :: rest => by
      have ha := a.toNat_lt
      have hb := b.toNat_lt
      have hc := c.toNat_lt
      rw [encode, decode, if_neg (digit_ne (by omega)), quantum, sextet_digit (by omega),
        sextet_digit (by omega), sextet_digit (by omega), sextet_digit (by omega),
        decode_encode rest]
      have hfirst : a.toNat / 4 * 4 + (a.toNat % 4 * 16 + b.toNat / 16) / 16 = a.toNat := by omega
      have hsecond : (a.toNat % 4 * 16 + b.toNat / 16) % 16 * 16 +
          (b.toNat % 16 * 4 + c.toNat / 64) / 4 = b.toNat := by omega
      have hthird : (b.toNat % 16 * 4 + c.toNat / 64) % 4 * 64 + c.toNat % 64 = c.toNat := by omega
      simp only [hfirst, hsecond, hthird, UInt8.ofNat_toNat, Option.bind_some, Option.map_some,
        List.cons_append, List.nil_append]

theorem encode_closing {a b c : Char} {bs : Bytes} (h : closing a b c = some bs) :
    encode bs = [a, b, c, '='] := by
  unfold closing at h
  split at h
  · next x y hx hy =>
      rcases sextet_eq_some hx with ⟨hx, rfl⟩
      rcases sextet_eq_some hy with ⟨hy, rfl⟩
      split at h
      · next hc =>
          split at h
          · next hzero =>
              cases h
              have hbyte := ofNat_toNat (n := x * 4 + y / 16) (by omega)
              have hfirst : (x * 4 + y / 16) / 4 = x := by omega
              have hsecond : (x * 4 + y / 16) % 4 * 16 = y := by omega
              rw [encode, hbyte, hfirst, hsecond, hc]
          · cases h
      · rcases Option.bind_eq_some_iff.1 h with ⟨z, hz, heach⟩
        rcases sextet_eq_some hz with ⟨hz, rfl⟩
        split at heach
        · next hzero =>
            cases heach
            have hone := ofNat_toNat (n := x * 4 + y / 16) (by omega)
            have htwo := ofNat_toNat (n := y % 16 * 16 + z / 4) (by omega)
            have hfirst : (x * 4 + y / 16) / 4 = x := by omega
            have hsecond : (x * 4 + y / 16) % 4 * 16 + (y % 16 * 16 + z / 4) / 16 = y := by omega
            have hthird : (y % 16 * 16 + z / 4) % 16 * 4 = z := by omega
            rw [encode, hone, htwo, hfirst, hsecond, hthird]
        · cases heach
  · cases h

theorem encode_quantum {a b c d : Char} {bs : Bytes} (h : quantum a b c d = some bs) (rest : Bytes) :
    encode (bs ++ rest) = a :: b :: c :: d :: encode rest := by
  unfold quantum at h
  split at h
  · next x y z w hx hy hz hw =>
      rcases sextet_eq_some hx with ⟨hx, rfl⟩
      rcases sextet_eq_some hy with ⟨hy, rfl⟩
      rcases sextet_eq_some hz with ⟨hz, rfl⟩
      rcases sextet_eq_some hw with ⟨hw, rfl⟩
      cases h
      have hone := ofNat_toNat (n := x * 4 + y / 16) (by omega)
      have htwo := ofNat_toNat (n := y % 16 * 16 + z / 4) (by omega)
      have hthree := ofNat_toNat (n := z % 4 * 64 + w) (by omega)
      have hfirst : (x * 4 + y / 16) / 4 = x := by omega
      have hsecond : (x * 4 + y / 16) % 4 * 16 + (y % 16 * 16 + z / 4) / 16 = y := by omega
      have hthird : (y % 16 * 16 + z / 4) % 16 * 4 + (z % 4 * 64 + w) / 64 = z := by omega
      have hfourth : (z % 4 * 64 + w) % 64 = w := by omega
      simp only [List.cons_append, List.nil_append, encode, hone, htwo, hthree, hfirst, hsecond,
        hthird, hfourth]
  · cases h

/-- What is read was written so. -/
theorem encode_of_decode : ∀ {t : Text} {bs : Bytes}, decode t = some bs → encode bs = t
  | [], bs, h => by
      cases h
      rfl
  | a :: b :: c :: d :: rest, bs, h => by
      rw [decode] at h
      split at h
      · next hd =>
          split at h
          · next hrest =>
              rw [encode_closing h, hd, hrest]
          · cases h
      · rcases Option.bind_eq_some_iff.1 h with ⟨front, hfront, h⟩
        rcases Option.map_eq_some_iff.1 h with ⟨back, hback, rfl⟩
        rw [encode_quantum hfront, encode_of_decode hback]
  | [_], _, h => by cases h
  | [_, _], _, h => by cases h
  | [_, _, _], _, h => by cases h

/-- One text for each sequence of bytes. -/
theorem decode_eq_some_iff {t : Text} {bs : Bytes} : decode t = some bs ↔ t = encode bs := by
  constructor
  · intro h
    exact (encode_of_decode h).symm
  · rintro rfl
    exact decode_encode bs

end Base64
end FunctionWasm

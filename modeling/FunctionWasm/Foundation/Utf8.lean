import FunctionWasm.Foundation.Text

/-!
# Utf8 — which bytes are text

Reading any bytes as text puts a replacement where they are none.

* `utf8Lossy_textBytes` says that nothing is replaced in what was written as text.
* `textBytes_utf8Lossy_iff` says which bytes are read and written back as they are.
* `zero_mem_utf8Lossy` says that zeros are neither lost nor added.
-/

namespace FunctionWasm

/-- Bytes that are text. -/
def IsUtf8 (bs : Bytes) : Prop :=
  (utf8? bs).isSome = true

instance (bs : Bytes) : Decidable (IsUtf8 bs) :=
  inferInstanceAs (Decidable (_ = true))

theorem utf8?_eq_some {bs : Bytes} {t : Text} : utf8? bs = some t ↔ textBytes t = bs := by
  constructor
  · intro h
    have hvalid : (⟨bs.toArray⟩ : ByteArray).IsValidUTF8 := by
      by_contra hnot
      simp [utf8?, String.fromUTF8?, hnot] at h
    obtain ⟨l, hl⟩ := hvalid
    have hbytes : textBytes l = bs := by
      have hlist := congrArg (fun b : ByteArray => b.data.toList) hl
      simpa [textBytes, List.utf8Encode] using hlist.symm
    have hread : utf8? bs = some l := hbytes ▸ utf8?_textBytes l
    rw [h, Option.some_inj] at hread
    rw [hread, hbytes]
  · rintro rfl
    exact utf8?_textBytes t

theorem textBytes_inj {s t : Text} : textBytes s = textBytes t ↔ s = t := by
  constructor
  · intro h
    have hread : utf8? (textBytes s) = some t := utf8?_eq_some.2 h.symm
    exact Option.some_inj.1 ((utf8?_textBytes s).symm.trans hread)
  · rintro rfl
    rfl

theorem textBytes_append (s t : Text) : textBytes (s ++ t) = textBytes s ++ textBytes t :=
  List.flatMap_append

/-! ## One character -/

/-- An ASCII character is a byte of its own; any other begins with a byte that none of them is. -/
theorem encode_lead (c : Char) :
    c.toNat < 0x80 ∧ String.utf8EncodeChar c = [UInt8.ofNat c.toNat] ∨
      0x80 ≤ c.toNat ∧ ∃ lead more, String.utf8EncodeChar c = lead :: more ∧ 0x80 ≤ lead.toNat := by
  have hvalid : c.toNat < 0xD800 ∨ 0xDFFF < c.toNat ∧ c.toNat < 0x110000 := c.valid
  have hvalue : c.val.toNat = c.toNat := rfl
  unfold String.utf8EncodeChar
  rw [hvalue]
  dsimp only
  split
  · next hone => exact .inl ⟨by omega, rfl⟩
  next hone =>
  refine .inr ⟨by omega, ?_⟩
  -- the lead bytes of two, three and four start at C0, E0 and F0
  split
  · exact ⟨_, _, rfl, by simp; omega⟩
  split
  · exact ⟨_, _, rfl, by simp; omega⟩
  · exact ⟨_, _, rfl, by simp; omega⟩

theorem sequenceOf_two {lead : Nat} (h : 0xC2 ≤ lead ∧ lead ≤ 0xDF) :
    sequenceOf lead = some (1, 0x80, 0xBF) := by
  unfold sequenceOf
  rw [if_neg (by omega), if_pos h.2]

theorem sequenceOf_three {lead : Nat} (h : 0xE0 ≤ lead ∧ lead ≤ 0xEF) :
    sequenceOf lead =
      some (2, if lead = 0xE0 then 0xA0 else 0x80, if lead = 0xED then 0x9F else 0xBF) := by
  unfold sequenceOf
  rw [if_neg (by omega), if_neg (by omega), if_pos h.2]

theorem sequenceOf_four {lead : Nat} (h : 0xF0 ≤ lead ∧ lead ≤ 0xF4) :
    sequenceOf lead =
      some (3, if lead = 0xF0 then 0x90 else 0x80, if lead = 0xF4 then 0x8F else 0xBF) := by
  unfold sequenceOf
  rw [if_neg (by omega), if_neg (by omega), if_neg (by omega), if_pos h.2]

/-- What a first byte says of the others. -/
theorem sequenceOf_bounds {lead more low high : Nat} (h : sequenceOf lead = some (more, low, high)) :
    0x80 ≤ low ∧ high ≤ 0xBF ∧
      (more = 1 ∧ 0xC2 ≤ lead ∧ lead ≤ 0xDF ∨
        more = 2 ∧ 0xE0 ≤ lead ∧ lead ≤ 0xEF ∧ (lead = 0xE0 → 0xA0 ≤ low) ∧
          (lead = 0xED → high ≤ 0x9F) ∨
        more = 3 ∧ 0xF0 ≤ lead ∧ lead ≤ 0xF4 ∧ (lead = 0xF0 → 0x90 ≤ low) ∧
          (lead = 0xF4 → high ≤ 0x8F)) := by
  unfold sequenceOf at h
  split at h
  · cases h
  split at h
  · cases h
    omega
  split at h
  · simp only [Option.some.injEq, Prod.mk.injEq] at h
    obtain ⟨rfl, rfl, rfl⟩ := h
    refine ⟨?_, ?_, .inr (.inl ⟨rfl, ?_⟩)⟩
    · split <;> omega
    · split <;> omega
    · split <;> split <;> omega
  split at h
  · simp only [Option.some.injEq, Prod.mk.injEq] at h
    obtain ⟨rfl, rfl, rfl⟩ := h
    refine ⟨?_, ?_, .inr (.inr ⟨rfl, ?_⟩)⟩
    · split <;> omega
    · split <;> omega
    · split <;> split <;> omega
  · cases h

theorem isContinuation_of_le {b : Nat} (h : 0x80 ≤ b ∧ b ≤ 0xBF) : (!isContinuation b) = false := by
  simp [isContinuation, h]

def leadByte (c : Char) : UInt8 := (String.utf8EncodeChar c).headD 0

theorem leadByte_ascii {c : Char} (h : c.toNat < 0x80) :
    leadByte c = UInt8.ofNat c.toNat ∧ String.utf8EncodeChar c = [leadByte c] := by
  rcases encode_lead c with ⟨-, hone⟩ | ⟨hlarge, -⟩
  · simp [leadByte, hone]
  · omega

theorem leadByte_large {c : Char} (h : 0x80 ≤ c.toNat) : 0x80 ≤ (leadByte c).toNat := by
  rcases encode_lead c with ⟨hsmall, -⟩ | ⟨-, lead, more, hmore, hlead⟩
  · omega
  · simpa [leadByte, hmore] using hlead

theorem textBytes_cons (c : Char) (t : Text) :
    textBytes (c :: t) = leadByte c :: ((String.utf8EncodeChar c).tail ++ textBytes t) := by
  have hne : String.utf8EncodeChar c ≠ [] := by
    rcases encode_lead c with ⟨-, hone⟩ | ⟨-, lead, more, hmore, -⟩
    · simp [hone]
    · simp [hmore]
  obtain ⟨lead, more, hmore⟩ := List.exists_cons_of_ne_nil hne
  simp [textBytes, leadByte, hmore]

/-- The bytes of a character are read as that character, whatever follows them. -/
theorem firstChar_encode (c : Char) (rest : List Nat) :
    ∃ lead more, (String.utf8EncodeChar c).map UInt8.toNat = lead :: more ∧
      firstChar lead (more ++ rest) = (c, more.length) := by
  have hback : Char.ofNat c.val.toNat = c := Char.ofNat_toNat c
  have hvalid : c.val.toNat < 0xD800 ∨ 0xDFFF < c.val.toNat ∧ c.val.toNat < 0x110000 := c.valid
  unfold String.utf8EncodeChar
  -- from here on the character is its number `v`, and every case is arithmetic
  generalize c.val.toNat = v at hback hvalid
  subst hback
  dsimp only
  split
  · next hone =>
      refine ⟨v, [], ?_, ?_⟩
      · simp; omega
      · simp [firstChar]; omega
  next hone =>
  split
  · next htwo =>
      refine ⟨v / 64 % 0x20 + 0xC0, [v % 0x40 + 0x80], ?_, ?_⟩
      · simp; omega
      · simp only [List.cons_append, List.nil_append]
        unfold firstChar
        rw [if_neg (by omega), sequenceOf_two (by omega)]
        dsimp only
        rw [if_neg (by omega), if_pos rfl]
        congr 2
        omega
  next htwo =>
  split
  · next hthree =>
      refine ⟨v / 4096 % 0x10 + 0xE0, [v / 64 % 0x40 + 0x80, v % 0x40 + 0x80], ?_, ?_⟩
      · simp; omega
      · simp only [List.cons_append, List.nil_append]
        unfold firstChar
        rw [if_neg (by omega), sequenceOf_three (by omega)]
        dsimp only
        rw [if_neg (by split <;> split <;> omega), if_neg (by decide),
          isContinuation_of_le (by omega), if_neg Bool.false_ne_true, if_pos rfl]
        congr 2
        omega
  next hthree =>
      refine ⟨v / 262144 % 0x08 + 0xF0,
        [v / 4096 % 0x40 + 0x80, v / 64 % 0x40 + 0x80, v % 0x40 + 0x80], ?_, ?_⟩
      · simp; omega
      · simp only [List.cons_append, List.nil_append]
        unfold firstChar
        rw [if_neg (by omega), sequenceOf_four (by omega)]
        dsimp only
        rw [if_neg (by split <;> split <;> omega), if_neg (by decide),
          isContinuation_of_le (by omega), if_neg Bool.false_ne_true, if_neg (by decide),
          isContinuation_of_le (by omega), if_neg Bool.false_ne_true]
        congr 2
        omega

theorem ofNat_ne_zero {n : Nat} (hpos : 0 < n) (hvalid : n.isValidChar) : Char.ofNat n ≠ '\x00' := by
  intro heq
  have hnat : (Char.ofNat n).toNat = n := by
    rw [Char.ofNat, dif_pos hvalid]
    rfl
  rw [heq] at hnat
  exact Nat.ne_of_lt hpos hnat

theorem replacement_ne_zero : replacement ≠ '\x00' := by decide

/-- A zero is a character of its own and no part of another one. -/
theorem firstChar_zero (lead : Nat) (rest : List Nat) :
    ((firstChar lead rest).1 = '\x00' ↔ lead = 0) ∧ 0 ∉ rest.take (firstChar lead rest).2 := by
  unfold firstChar
  split
  · next hone =>
      refine ⟨⟨fun heq => ?_, fun hzero => by simp [hzero]⟩, by simp⟩
      by_contra hne
      exact ofNat_ne_zero (Nat.pos_of_ne_zero hne) (.inl (by omega)) heq
  next hone =>
  have hlead : lead ≠ 0 := by omega
  -- a replacement is no zero, and stands for a lead byte that is none
  have hreplaced : (replacement = '\x00' ↔ lead = 0) ∧ 0 ∉ rest.take 0 := by
    simp [replacement_ne_zero, hlead]
  split
  next more low high b rest hseq =>
    have hbounds := sequenceOf_bounds hseq
    split
    · exact hreplaced
    next hb =>
    split
    · next hmore =>
        have hchar : Char.ofNat (lead % 32 * 64 + b % 64) ≠ '\x00' :=
          ofNat_ne_zero (by omega) (.inl (by omega))
        refine ⟨by simp [hchar, hlead], ?_⟩
        simp
        omega
    next hmore =>
    split
    · refine ⟨by simp [replacement_ne_zero, hlead], ?_⟩
      simp
      omega
    next c rest =>
    split
    · refine ⟨by simp [replacement_ne_zero, hlead], ?_⟩
      simp
      omega
    next hc =>
    have hc : 0x80 ≤ c ∧ c ≤ 0xBF := by simpa [isContinuation] using hc
    split
    · next hmore =>
        have hchar : Char.ofNat ((lead % 16 * 64 + b % 64) * 64 + c % 64) ≠ '\x00' := by
          refine ofNat_ne_zero (by omega) ?_
          -- below the surrogates, or above them
          by_cases hed : lead = 0xED
          · exact .inl (by omega)
          · by_cases hless : lead < 0xED
            · exact .inl (by omega)
            · exact .inr (by omega)
        refine ⟨by simp [hchar, hlead], ?_⟩
        simp
        omega
    next hmore =>
    split
    · refine ⟨by simp [replacement_ne_zero, hlead], ?_⟩
      simp
      omega
    next d rest =>
    split
    · refine ⟨by simp [replacement_ne_zero, hlead], ?_⟩
      simp
      omega
    · next hd =>
        have hd : 0x80 ≤ d ∧ d ≤ 0xBF := by simpa [isContinuation] using hd
        have hchar :
            Char.ofNat (((lead % 8 * 64 + b % 64) * 64 + c % 64) * 64 + d % 64) ≠ '\x00' :=
          ofNat_ne_zero (by omega) (.inr (by omega))
        refine ⟨by simp [hchar, hlead], ?_⟩
        simp
        omega
  next => exact hreplaced

/-! ## All of the bytes -/

theorem utf8LossyLoop_textBytes (t : Text) {fuel : Nat} (hfuel : (textBytes t).length ≤ fuel) :
    utf8LossyLoop fuel ((textBytes t).map UInt8.toNat) = t := by
  induction t generalizing fuel with
  | nil => cases fuel <;> rfl
  | cons c t ih =>
      have hbytes : textBytes (c :: t) = String.utf8EncodeChar c ++ textBytes t := rfl
      obtain ⟨lead, more, hencode, hfirst⟩ :=
        firstChar_encode c ((textBytes t).map UInt8.toNat)
      have hlength : (String.utf8EncodeChar c).length = more.length + 1 := by
        have h := congrArg List.length hencode
        simpa using h
      rw [hbytes, List.length_append, hlength] at hfuel
      obtain ⟨fuel, rfl⟩ : ∃ k, fuel = k + 1 := ⟨fuel - 1, by omega⟩
      rw [hbytes, List.map_append, hencode, List.cons_append, utf8LossyLoop, hfirst]
      dsimp only
      rw [List.drop_left, ih (by omega)]

/-- What was written as text is read as it was. -/
theorem utf8Lossy_textBytes (t : Text) : utf8Lossy (textBytes t) = t :=
  utf8LossyLoop_textBytes t (Nat.le_refl _)

/-- Bytes are written back as they are exactly where they are text. -/
theorem textBytes_utf8Lossy_iff {bs : Bytes} : textBytes (utf8Lossy bs) = bs ↔ IsUtf8 bs := by
  constructor
  · intro h
    exact Option.isSome_iff_exists.2 ⟨_, utf8?_eq_some.2 h⟩
  · intro h
    obtain ⟨t, ht⟩ := Option.isSome_iff_exists.1 h
    rw [← utf8?_eq_some.1 ht, utf8Lossy_textBytes]

theorem zero_mem_utf8LossyLoop {l : List Nat} {fuel : Nat} (hfuel : l.length ≤ fuel) :
    '\x00' ∈ utf8LossyLoop fuel l ↔ 0 ∈ l := by
  induction fuel generalizing l with
  | zero =>
      rw [List.eq_nil_of_length_eq_zero (Nat.le_zero.1 hfuel)]
      simp [utf8LossyLoop]
  | succ fuel ih =>
      cases l with
      | nil => simp [utf8LossyLoop]
      | cons lead rest =>
          obtain ⟨hchar, htake⟩ := firstChar_zero lead rest
          have hrest : 0 ∈ rest ↔ 0 ∈ rest.drop (firstChar lead rest).2 := by
            rw [← List.take_append_drop (firstChar lead rest).2 rest, List.mem_append]
            simp [htake]
          have hdrop : (rest.drop (firstChar lead rest).2).length ≤ fuel := by
            rw [List.length_drop]
            simp only [List.length_cons] at hfuel
            omega
          rw [utf8LossyLoop, List.mem_cons, List.mem_cons, hrest, ← ih hdrop]
          exact or_congr (eq_comm.trans (hchar.trans eq_comm)) Iff.rfl

/-- Zeros are neither lost nor added, whatever is replaced. -/
theorem zero_mem_utf8Lossy {bs : Bytes} : '\x00' ∈ utf8Lossy bs ↔ (0 : UInt8) ∈ bs := by
  unfold utf8Lossy
  rw [zero_mem_utf8LossyLoop (by simp), List.mem_map]
  constructor
  · rintro ⟨b, hb, hzero⟩
    exact (UInt8.toNat_inj.1 hzero : b = 0) ▸ hb
  · intro hb
    exact ⟨0, hb, rfl⟩

end FunctionWasm

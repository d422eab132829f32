import FunctionWasm.Foundation.Reader

/-!
# Text — Unicode text as a list of characters

Text is split and searched character by character, so it is the list of its characters here.

* `utf8?` reads bytes as text, `utf8Lossy` reads any bytes, `textBytes` writes text as bytes.
* `splitOnce` and `rsplitOnce` split at the first and the last occurrence of a character,
  `splitOnceText` at the first occurrence of a text.
* `trim` takes white space off both ends.
-/

namespace FunctionWasm

abbrev Text := List Char

instance Text.lawfulBEq : LawfulBEq Text := inferInstance

/-! A text is checked along its own characters, never along all the characters there are. -/

instance (priority := 2000) Text.decidableForall (t : Text) (p : Char → Prop) [DecidablePred p] :
    Decidable (∀ c ∈ t, p c) :=
  List.decidableBAll p t

instance (priority := 2000) Text.decidableForallOption (c : Option Char) (p : Char → Prop)
    [DecidablePred p] : Decidable (∀ x ∈ c, p x) :=
  decidable_of_iff (∀ x ∈ c.toList, p x) (by simp)

/-- Reads bytes as UTF-8. -/
def utf8? (bs : Bytes) : Option Text :=
  (String.fromUTF8? ⟨bs.toArray⟩).map String.toList

/-- Writes text as UTF-8. -/
def textBytes (t : Text) : Bytes :=
  t.flatMap String.utf8EncodeChar

theorem utf8?_textBytes (t : Text) : utf8? (textBytes t) = some t := by
  have hencode : (⟨(textBytes t).toArray⟩ : ByteArray) = t.utf8Encode := by
    apply ByteArray.ext
    simp [textBytes, List.utf8Encode]
  have hvalid : t.utf8Encode.IsValidUTF8 := ByteArray.isValidUTF8_utf8Encode
  have hstring : String.fromUTF8? t.utf8Encode = some (String.ofList t) := by
    simp [String.fromUTF8?, hvalid, ← String.toByteArray_inj, String.fromUTF8]
  simp [utf8?, hencode, hstring]

def replacement : Char := Char.ofNat 0xFFFD

/-- How many bytes follow the first one of a sequence, and between which bounds the next is. -/
def sequenceOf (lead : Nat) : Option (Nat × Nat × Nat) :=
  if lead < 0xC2 then none
  else if lead ≤ 0xDF then some (1, 0x80, 0xBF)
  else if lead ≤ 0xEF then
    some (2, if lead = 0xE0 then 0xA0 else 0x80, if lead = 0xED then 0x9F else 0xBF)
  else if lead ≤ 0xF4 then
    some (3, if lead = 0xF0 then 0x90 else 0x80, if lead = 0xF4 then 0x8F else 0xBF)
  else none

def isContinuation (b : Nat) : Bool := 0x80 ≤ b ∧ b ≤ 0xBF

/-- The character that starts some bytes, and how many bytes after the first it takes; for as much of
a sequence as is well formed but not whole there is one replacement. -/
def firstChar (lead : Nat) (rest : List Nat) : Char × Nat :=
  if lead < 0x80 then (Char.ofNat lead, 0)
  else
    match sequenceOf lead, rest with
    | some (more, low, high), b :: rest =>
        if b < low ∨ high < b then (replacement, 0)
        else if more = 1 then (Char.ofNat (lead % 32 * 64 + b % 64), 1)
        else
          match rest with
          | [] => (replacement, 1)
          | c :: rest =>
              if !isContinuation c then (replacement, 1)
              else if more = 2 then
                (Char.ofNat ((lead % 16 * 64 + b % 64) * 64 + c % 64), 2)
              else
                match rest with
                | [] => (replacement, 2)
                | d :: _ =>
                    if !isContinuation d then (replacement, 2)
                    else (Char.ofNat (((lead % 8 * 64 + b % 64) * 64 + c % 64) * 64 + d % 64), 3)
    | _, _ => (replacement, 0)

def utf8LossyLoop : Nat → List Nat → Text
  | 0, _ => []
  | _ + 1, [] => []
  | fuel + 1, lead :: rest =>
      let (c, used) := firstChar lead rest
      c :: utf8LossyLoop fuel (rest.drop used)

/-- `String::from_utf8_lossy`. -/
def utf8Lossy (bs : Bytes) : Text :=
  utf8LossyLoop bs.length (bs.map UInt8.toNat)

/-- What is before the first `c` and what is after it. -/
def splitOnce (c : Char) : Text → Option (Text × Text)
  | [] => none
  | x :: xs =>
      if x = c then some ([], xs)
      else (splitOnce c xs).map fun p => (x :: p.1, p.2)

theorem splitOnce_eq_none {c : Char} {t : Text} : splitOnce c t = none ↔ c ∉ t := by
  induction t with
  | nil => simp [splitOnce]
  | cons x xs ih =>
      by_cases hx : x = c
      · simp [splitOnce, hx]
      · simp [splitOnce, hx, ih, Ne.symm hx]

/-- The first `c` is the one with none before it. -/
theorem splitOnce_eq_some {c : Char} {t before after : Text} :
    splitOnce c t = some (before, after) ↔ t = before ++ c :: after ∧ c ∉ before := by
  induction t generalizing before with
  | nil => simp [splitOnce]
  | cons x xs ih =>
      by_cases hx : x = c
      · subst hx
        cases before with
        | nil => simp [splitOnce, eq_comm]
        | cons y ys => simp +contextual [splitOnce]
      · cases before with
        | nil => simp [splitOnce, hx]
        | cons y ys =>
            have hxs : splitOnce c xs = some (ys, after) ↔ xs = ys ++ c :: after ∧ c ∉ ys := ih
            simp only [splitOnce, if_neg hx, Option.map_eq_some_iff, Prod.mk.injEq,
              List.cons.injEq, List.cons_append, List.mem_cons, not_or]
            constructor
            · rintro ⟨⟨before', after'⟩, hsplit, ⟨rfl, rfl⟩, rfl⟩
              exact ⟨⟨rfl, (hxs.1 hsplit).1⟩, Ne.symm hx, (hxs.1 hsplit).2⟩
            · rintro ⟨⟨rfl, heq⟩, -, hmem⟩
              exact ⟨(ys, after), hxs.2 ⟨heq, hmem⟩, ⟨rfl, rfl⟩, rfl⟩

/-- What is before the last `c` and what is after it. -/
def rsplitOnce (c : Char) (t : Text) : Option (Text × Text) :=
  (splitOnce c t.reverse).map fun p => (p.2.reverse, p.1.reverse)

/-- The last `c` is the one with none after it. -/
theorem rsplitOnce_eq_some {c : Char} {t before after : Text} :
    rsplitOnce c t = some (before, after) ↔ t = before ++ c :: after ∧ c ∉ after := by
  have hrev : t.reverse = after.reverse ++ c :: before.reverse ↔ t = before ++ c :: after := by
    rw [← List.reverse_inj]
    simp
  have hsplit : splitOnce c t.reverse = some (after.reverse, before.reverse) ↔
      t = before ++ c :: after ∧ c ∉ after := by
    rw [splitOnce_eq_some, hrev, List.mem_reverse]
  rw [← hsplit]
  simp only [rsplitOnce, Option.map_eq_some_iff, Prod.mk.injEq, Prod.exists]
  constructor
  · rintro ⟨a, b, h, rfl, rfl⟩
    simpa using h
  · intro h
    exact ⟨_, _, h, by simp, by simp⟩

theorem rsplitOnce_eq_none {c : Char} {t : Text} : rsplitOnce c t = none ↔ c ∉ t := by
  rw [rsplitOnce, Option.map_eq_none_iff, splitOnce_eq_none, List.mem_reverse]

theorem dropPrefix?_eq_some {p t rest : Text} : t.dropPrefix? p = some rest ↔ t = p ++ rest := by
  rw [List.dropPrefix?_eq_some_iff]
  constructor
  · rintro ⟨front, heq, hfront⟩
    rw [heq, beq_iff_eq.1 hfront]
  · rintro rfl
    exact ⟨p, rfl, beq_self_eq_true p⟩

/-- What is before the first occurrence of a text and what is after it. -/
def splitOnceText (sep : Text) : Text → Option (Text × Text)
  | [] => if sep = [] then some ([], []) else none
  | x :: xs =>
      if sep.isPrefixOf (x :: xs) then some ([], (x :: xs).drop sep.length)
      else (splitOnceText sep xs).map fun p => (x :: p.1, p.2)

theorem splitOnceText_eq {sep t before after : Text}
    (h : splitOnceText sep t = some (before, after)) : t = before ++ sep ++ after := by
  induction t generalizing before with
  | nil =>
      simp only [splitOnceText] at h
      split at h
      · next hsep =>
          cases h
          simp [hsep]
      · cases h
  | cons x xs ih =>
      simp only [splitOnceText] at h
      split at h
      · next hprefix =>
          cases h
          have htake := List.prefix_iff_eq_append.1 (List.isPrefixOf_iff_prefix.1 hprefix)
          simpa using htake.symm
      · rcases Option.map_eq_some_iff.1 h with ⟨⟨before', after'⟩, hxs, hp⟩
        cases hp
        simp [ih hxs]

/-- `char::is_whitespace`: the characters with the property White_Space. -/
def isWhitespace (c : Char) : Bool :=
  let n := c.toNat
  (9 ≤ n ∧ n ≤ 13) ∨ n = 0x20 ∨ n = 0x85 ∨ n = 0xA0 ∨ n = 0x1680 ∨ (0x2000 ≤ n ∧ n ≤ 0x200A) ∨
    n = 0x2028 ∨ n = 0x2029 ∨ n = 0x202F ∨ n = 0x205F ∨ n = 0x3000

def trimStart (p : Char → Bool) (t : Text) : Text := t.dropWhile p

def trimEnd (p : Char → Bool) (t : Text) : Text := (t.reverse.dropWhile p).reverse

/-- `str::trim`. -/
def trim (t : Text) : Text := trimEnd isWhitespace (trimStart isWhitespace t)

end FunctionWasm

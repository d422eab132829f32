import FunctionWasm.Foundation.Json

/-!
# JsonText — documents as compact text

A document without white space is read back from its text.  A text may be as long as it likes: the
fuel of the reader is one for every character.

* `JsonText.write` writes a document, `JsonText.read` reads the text of one.
* `Json.Plain` are the documents whose objects have no key twice and whose numbers are of a kind.
* `read_write` says that what was written is read back.
-/

namespace FunctionWasm

/-- A document without a repeated key, whose numbers are all of one kind. -/
inductive Json.Plain (kind : Text → Prop) : Json → Prop
  | null : Plain kind .null
  | bool (b : Bool) : Plain kind (.bool b)
  | number {t : Text} (h : kind t) : Plain kind (.number t)
  | string (t : Text) : Plain kind (.string t)
  | array {elements : List Json} (h : ∀ v ∈ elements, Plain kind v) : Plain kind (.array elements)
  | object {entries : List (Text × Json)} (hkeys : (entries.map Prod.fst).Nodup)
      (h : ∀ e ∈ entries, Plain kind e.2) : Plain kind (.object entries)

namespace JsonText

/-! ## Writing -/

def hexChar (n : Nat) : Char :=
  if n < 10 then Char.ofNat (48 + n) else Char.ofNat (87 + n)

def escapeChar (c : Char) : Text :=
  match c with
  | '"' => ['\\', '"']
  | '\\' => ['\\', '\\']
  | '\n' => ['\\', 'n']
  | '\r' => ['\\', 'r']
  | '\t' => ['\\', 't']
  | '\x08' => ['\\', 'b']
  | '\x0c' => ['\\', 'f']
  | c =>
      if c.toNat < 32 then ['\\', 'u', '0', '0', hexChar (c.toNat / 16), hexChar (c.toNat % 16)]
      else [c]

def writeString (t : Text) : Text :=
  '"' :: (t.flatMap escapeChar ++ ['"'])

mutual

def write : Json → Text
  | .null => "null".toList
  | .bool true => "true".toList
  | .bool false => "false".toList
  | .number t => t
  | .string t => writeString t
  | .array [] => ['[', ']']
  | .array (v :: vs) => '[' :: (write v ++ writeElements vs)
  | .object [] => ['\x7b', '\x7d']
  | .object ((key, v) :: es) => '\x7b' :: (writeString key ++ ':' :: (write v ++ writeEntries es))

/-- The elements after the first one, and the end. -/
def writeElements : List Json → Text
  | [] => [']']
  | v :: vs => ',' :: (write v ++ writeElements vs)

def writeEntries : List (Text × Json) → Text
  | [] => ['\x7d']
  | (key, v) :: es => ',' :: (writeString key ++ ':' :: (write v ++ writeEntries es))

end

/-! ## Reading -/

def hexValue (c : Char) : Nat :=
  if c.toNat < 58 then c.toNat - 48 else c.toNat - 87

def unescape (letter : Char) : Char :=
  match letter with
  | 'n' => '\n'
  | 'r' => '\r'
  | 't' => '\t'
  | 'b' => '\x08'
  | 'f' => '\x0c'
  | letter => letter

/-- The rest of a string, after its first quote. -/
def readBody : Text → Option (Text × Text)
  | [] => none
  | '"' :: rest => some ([], rest)
  | '\\' :: 'u' :: '0' :: '0' :: a :: b :: rest =>
      (readBody rest).map fun p => (Char.ofNat (16 * hexValue a + hexValue b) :: p.1, p.2)
  | '\\' :: letter :: rest => (readBody rest).map fun p => (unescape letter :: p.1, p.2)
  | c :: rest => (readBody rest).map fun p => (c :: p.1, p.2)

/-- The characters of numbers. -/
def isNumberChar (c : Char) : Bool :=
  c.isDigit || c = '-' || c = '+' || c = '.' || c = 'e' || c = 'E'

/-- A number is a run of them. -/
def IsNumber (t : Text) : Prop :=
  t ≠ [] ∧ ∀ c ∈ t, isNumberChar c = true

instance (t : Text) : Decidable (IsNumber t) :=
  inferInstanceAs (Decidable (_ ∧ _))

def readNumber (t : Text) : Option (Json × Text) :=
  if t.takeWhile isNumberChar = [] then none
  else some (.number (t.takeWhile isNumberChar), t.dropWhile isNumberChar)

def readKey (t : Text) : Option (Text × Text) :=
  match t with
  | '"' :: rest =>
      match readBody rest with
      | some (key, ':' :: rest) => some (key, rest)
      | _ => none
  | _ => none

mutual

def readValue : Nat → Text → Option (Json × Text)
  | 0, _ => none
  | fuel + 1, t =>
      match t with
      | 'n' :: 'u' :: 'l' :: 'l' :: rest => some (.null, rest)
      | 't' :: 'r' :: 'u' :: 'e' :: rest => some (.bool true, rest)
      | 'f' :: 'a' :: 'l' :: 's' :: 'e' :: rest => some (.bool false, rest)
      | '"' :: rest => (readBody rest).map fun p => (.string p.1, p.2)
      | '[' :: ']' :: rest => some (.array [], rest)
      | '[' :: rest => do
          let (v, rest) ← readValue fuel rest
          let (vs, rest) ← readElements fuel rest
          return (.array (v :: vs), rest)
      | '\x7b' :: '\x7d' :: rest => some (.object [], rest)
      | '\x7b' :: rest => do
          let (key, rest) ← readKey rest
          let (v, rest) ← readValue fuel rest
          let (es, rest) ← readEntries fuel rest
          return (.object ((key, v) :: es), rest)
      | t => readNumber t

def readElements : Nat → Text → Option (List Json × Text)
  | 0, _ => none
  | fuel + 1, t =>
      match t with
      | ']' :: rest => some ([], rest)
      | ',' :: rest => do
          let (v, rest) ← readValue fuel rest
          let (vs, rest) ← readElements fuel rest
          return (v :: vs, rest)
      | _ => none

def readEntries : Nat → Text → Option (List (Text × Json) × Text)
  | 0, _ => none
  | fuel + 1, t =>
      match t with
      | '\x7d' :: rest => some ([], rest)
      | ',' :: rest => do
          let (key, rest) ← readKey rest
          let (v, rest) ← readValue fuel rest
          let (es, rest) ← readEntries fuel rest
          return ((key, v) :: es, rest)
      | _ => none

end

/-- A text that is one document. -/
def read (t : Text) : Option Json :=
  match readValue (t.length + 1) t with
  | some (v, []) => some v
  | _ => none

/-! ## Strings -/

theorem hexValue_hexChar : ∀ d < 16, hexValue (hexChar d) = d := by decide

theorem readBody_escapeChar (c : Char) (rest : Text) :
    readBody (escapeChar c ++ rest) = (readBody rest).map fun p => (c :: p.1, p.2) := by
  unfold escapeChar
  split
  case h_8 hquote hbackslash _ _ _ _ _ =>
    split
    · next hcontrol =>
        have hhigh := hexValue_hexChar (c.toNat / 16) (by omega)
        have hlow := hexValue_hexChar (c.toNat % 16) (by omega)
        have hc : Char.ofNat (16 * (c.toNat / 16) + c.toNat % 16) = c := by
          rw [Nat.div_add_mod]
          exact Char.ofNat_toNat c
        simp only [List.cons_append, List.nil_append, readBody, hhigh, hlow, hc]
    · simp only [List.cons_append, List.nil_append]
      rw [readBody.eq_def]
      split <;> simp_all
  all_goals rfl

theorem readBody_flatMap (t rest : Text) :
    readBody (t.flatMap escapeChar ++ '"' :: rest) = some (t, rest) := by
  induction t with
  | nil => rfl
  | cons c t ih =>
      rw [List.flatMap_cons, List.append_assoc, readBody_escapeChar, ih]
      rfl

theorem writeString_append (t rest : Text) :
    writeString t ++ rest = '"' :: (t.flatMap escapeChar ++ '"' :: rest) := by
  simp [writeString]

theorem readKey_writeString (t rest : Text) :
    readKey (writeString t ++ ':' :: rest) = some (t, rest) := by
  rw [writeString_append]
  simp only [readKey, readBody_flatMap]

/-! ## Numbers -/

/-- What follows does not go on with a number. -/
def EndsNumber (rest : Text) : Prop :=
  ∀ c ∈ rest.head?, isNumberChar c = false

theorem readNumber_append {t rest : Text} (ht : IsNumber t) (hrest : EndsNumber rest) :
    readNumber (t ++ rest) = some (.number t, rest) := by
  have hnone : rest.takeWhile isNumberChar = [] ∧ rest.dropWhile isNumberChar = rest := by
    cases rest with
    | nil => exact ⟨rfl, rfl⟩
    | cons c rest =>
        have hc := hrest c rfl
        simp [hc]
  have htake : (t ++ rest).takeWhile isNumberChar = t := by
    rw [List.takeWhile_append_of_pos ht.2, hnone.1, List.append_nil]
  have hdrop : (t ++ rest).dropWhile isNumberChar = rest := by
    rw [List.dropWhile_append_of_pos ht.2, hnone.2]
  unfold readNumber
  rw [htake, hdrop, if_neg ht.1]

/-! ## Sizes -/

mutual

/-- As much fuel as it takes to read what is written. -/
def size : Json → Nat
  | .array (v :: vs) => 1 + size v + sizeElements vs
  | .object ((_, v) :: es) => 1 + size v + sizeEntries es
  | _ => 1

def sizeElements : List Json → Nat
  | [] => 1
  | v :: vs => 1 + size v + sizeElements vs

def sizeEntries : List (Text × Json) → Nat
  | [] => 1
  | (_, v) :: es => 1 + size v + sizeEntries es

end

theorem ends_elements (vs : List Json) (rest : Text) : EndsNumber (writeElements vs ++ rest) := by
  cases vs <;> simp [EndsNumber, writeElements, isNumberChar]

theorem ends_entries (es : List (Text × Json)) (rest : Text) :
    EndsNumber (writeEntries es ++ rest) := by
  cases es <;> simp [EndsNumber, writeEntries, isNumberChar]

/-! ## What was written is read back -/

theorem readValue_number {t rest : Text} (ht : IsNumber t) (hrest : EndsNumber rest) (n : Nat) :
    readValue (n + 1) (t ++ rest) = some (.number t, rest) := by
  obtain ⟨c, tail, rfl⟩ := List.exists_cons_of_ne_nil ht.1
  have hc : isNumberChar c = true := ht.2 c List.mem_cons_self
  have hother : c ≠ 'n' ∧ c ≠ 't' ∧ c ≠ 'f' ∧ c ≠ '"' ∧ c ≠ '[' ∧ c ≠ '\x7b' := by
    refine ⟨?_, ?_, ?_, ?_, ?_, ?_⟩ <;> rintro rfl <;> exact absurd hc (by decide)
  have hread : readValue (n + 1) (c :: tail ++ rest) = readNumber (c :: tail ++ rest) := by
    simp [readValue, hother]
  rw [hread, readNumber_append ht hrest]

/-- No value starts with the end of an array. -/
theorem readValue_end (n : Nat) (rest : Text) : readValue n (']' :: rest) = none := by
  cases n with
  | zero => rfl
  | succ n => simp [readValue, readNumber, isNumberChar]

theorem readValue_array {n : Nat} {t rest rest' : Text} {v : Json} {vs : List Json}
    (hv : readValue n t = some (v, rest)) (hvs : readElements n rest = some (vs, rest')) :
    readValue (n + 1) ('[' :: t) = some (.array (v :: vs), rest') := by
  -- the text of an element is not the end
  have hend : ∀ r, t ≠ ']' :: r := by
    rintro r rfl
    rw [readValue_end] at hv
    cases hv
  rw [readValue.eq_def]
  simp [hv, hvs]

theorem readValue_object {n : Nat} {key t rest rest' : Text} {v : Json} {es : List (Text × Json)}
    (hv : readValue n t = some (v, rest)) (hes : readEntries n rest = some (es, rest')) :
    readValue (n + 1) ('\x7b' :: (writeString key ++ ':' :: t)) =
      some (.object ((key, v) :: es), rest') := by
  have hkey := readKey_writeString key t
  rw [writeString_append] at hkey ⊢
  simp [readValue, hkey, hv, hes]

mutual

theorem readValue_write : ∀ (doc : Json) (n : Nat) (rest : Text), doc.Plain IsNumber →
    size doc ≤ n → EndsNumber rest → readValue n (write doc ++ rest) = some (doc, rest)
  | .null, n + 1, rest, _, _, _ => rfl
  | .bool true, n + 1, rest, _, _, _ => rfl
  | .bool false, n + 1, rest, _, _, _ => rfl
  | .number t, n + 1, rest, .number ht, _, hrest => readValue_number ht hrest n
  | .string t, n + 1, rest, _, _, _ => by
      have hwrite : write (.string t) ++ rest = '"' :: (t.flatMap escapeChar ++ '"' :: rest) :=
        writeString_append t rest
      rw [hwrite]
      simp only [readValue, readBody_flatMap, Option.map_some]
  | .array [], n + 1, rest, _, _, _ => rfl
  | .array (v :: vs), n + 1, rest, .array hplain, hsize, _ => by
      simp only [size] at hsize
      have hv := readValue_write v n (writeElements vs ++ rest) (hplain v List.mem_cons_self)
        (by omega) (ends_elements vs rest)
      have hvs := readElements_write vs n rest
        (fun w hw => hplain w (List.mem_cons_of_mem _ hw)) (by omega)
      have hwrite : write (.array (v :: vs)) ++ rest =
          '[' :: (write v ++ (writeElements vs ++ rest)) := by
        simp [write]
      rw [hwrite]
      exact readValue_array hv hvs
  | .object [], n + 1, rest, _, _, _ => rfl
  | .object ((key, v) :: es), n + 1, rest, .object _ hplain, hsize, _ => by
      simp only [size] at hsize
      have hv := readValue_write v n (writeEntries es ++ rest) (hplain (key, v) List.mem_cons_self)
        (by omega) (ends_entries es rest)
      have hes := readEntries_write es n rest
        (fun e he => hplain e (List.mem_cons_of_mem _ he)) (by omega)
      have hwrite : write (.object ((key, v) :: es)) ++ rest =
          '\x7b' :: (writeString key ++ ':' :: (write v ++ (writeEntries es ++ rest))) := by
        simp [write]
      rw [hwrite]
      exact readValue_object hv hes
  | doc, 0, _, _, hsize, _ => by
      unfold size at hsize
      split at hsize <;> omega

theorem readElements_write : ∀ (vs : List Json) (n : Nat) (rest : Text),
    (∀ v ∈ vs, v.Plain IsNumber) → sizeElements vs ≤ n →
      readElements n (writeElements vs ++ rest) = some (vs, rest)
  | [], n + 1, rest, _, _ => rfl
  | v :: vs, n + 1, rest, hplain, hsize => by
      simp only [sizeElements] at hsize
      have hv := readValue_write v n (writeElements vs ++ rest) (hplain v List.mem_cons_self)
        (by omega) (ends_elements vs rest)
      have hvs := readElements_write vs n rest
        (fun w hw => hplain w (List.mem_cons_of_mem _ hw)) (by omega)
      have hwrite : writeElements (v :: vs) ++ rest =
          ',' :: (write v ++ (writeElements vs ++ rest)) := by
        simp [writeElements]
      rw [hwrite]
      simp [readElements, hv, hvs]
  | [], 0, _, _, hsize => by simp [sizeElements] at hsize
  | _ :: _, 0, _, _, hsize => by simp [sizeElements] at hsize

theorem readEntries_write : ∀ (es : List (Text × Json)) (n : Nat) (rest : Text),
    (∀ e ∈ es, Json.Plain IsNumber e.2) → sizeEntries es ≤ n →
      readEntries n (writeEntries es ++ rest) = some (es, rest)
  | [], n + 1, rest, _, _ => rfl
  | (key, v) :: es, n + 1, rest, hplain, hsize => by
      simp only [sizeEntries] at hsize
      have hv := readValue_write v n (writeEntries es ++ rest) (hplain (key, v) List.mem_cons_self)
        (by omega) (ends_entries es rest)
      have hes := readEntries_write es n rest
        (fun e he => hplain e (List.mem_cons_of_mem _ he)) (by omega)
      have hwrite : writeEntries ((key, v) :: es) ++ rest =
          ',' :: (writeString key ++ ':' :: (write v ++ (writeEntries es ++ rest))) := by
        simp [writeEntries]
      rw [hwrite]
      simp [readEntries, readKey_writeString, hv, hes]
  | [], 0, _, _, hsize => by simp [sizeEntries] at hsize
  | _ :: _, 0, _, _, hsize => by simp [sizeEntries] at hsize

end

mutual

theorem size_le_length : ∀ doc : Json, doc.Plain IsNumber → size doc ≤ (write doc).length
  | .null, _ => by decide
  | .bool true, _ => by decide
  | .bool false, _ => by decide
  | .number t, .number ht => List.length_pos_iff.2 ht.1
  | .string t, _ => by simp [size, write, writeString]
  | .array [], _ => by simp [size, write]
  | .array (v :: vs), .array hplain => by
      have hv := size_le_length v (hplain v List.mem_cons_self)
      have hvs := sizeElements_le_length vs fun w hw => hplain w (List.mem_cons_of_mem _ hw)
      simp only [size, write, List.length_cons, List.length_append]
      omega
  | .object [], _ => by simp [size, write]
  | .object ((key, v) :: es), .object _ hplain => by
      have hv := size_le_length v (hplain (key, v) List.mem_cons_self)
      have hes := sizeEntries_le_length es fun e he => hplain e (List.mem_cons_of_mem _ he)
      simp only [size, write, List.length_cons, List.length_append]
      omega

theorem sizeElements_le_length : ∀ vs : List Json, (∀ v ∈ vs, v.Plain IsNumber) →
    sizeElements vs ≤ (writeElements vs).length
  | [], _ => by simp [sizeElements, writeElements]
  | v :: vs, hplain => by
      have hv := size_le_length v (hplain v List.mem_cons_self)
      have hvs := sizeElements_le_length vs fun w hw => hplain w (List.mem_cons_of_mem _ hw)
      simp only [sizeElements, writeElements, List.length_cons, List.length_append]
      omega

theorem sizeEntries_le_length : ∀ es : List (Text × Json), (∀ e ∈ es, Json.Plain IsNumber e.2) →
    sizeEntries es ≤ (writeEntries es).length
  | [], _ => by simp [sizeEntries, writeEntries]
  | (key, v) :: es, hplain => by
      have hv := size_le_length v (hplain (key, v) List.mem_cons_self)
      have hes := sizeEntries_le_length es fun e he => hplain e (List.mem_cons_of_mem _ he)
      simp only [sizeEntries, writeEntries, List.length_cons, List.length_append]
      omega

end

/-- What was written is read back. -/
theorem read_write {doc : Json} (hplain : doc.Plain IsNumber) : read (write doc) = some doc := by
  have hsize : size doc ≤ (write doc).length + 1 :=
    Nat.le_succ_of_le (size_le_length doc hplain)
  have hread := readValue_write doc ((write doc).length + 1) [] hplain hsize (by simp [EndsNumber])
  rw [List.append_nil] at hread
  unfold read
  rw [hread]

end JsonText
end FunctionWasm

import FunctionWasm.Foundation.Text

/-!
# Json — documents and the strict reading of records of strings

* `Json.get` and `Json.getPath` look fields up.
* `Json.strictStrings` reads a record whose fields are all strings: from an object without unknown
  fields, or from an array of the fields in order; what is missing is empty.
-/

namespace FunctionWasm

/-- A document; the text of a number is as it is written. -/
inductive Json where
  | null
  | bool (b : Bool)
  | number (t : Text)
  | string (t : Text)
  | array (elements : List Json)
  | object (entries : List (Text × Json))

/-- Why a document is not what is read from it. -/
inductive DecodeError where
  | unknownField (name : Text)
  | invalidType (found : Json)
  | invalidLength (length : Nat)

namespace Json

/-- The entry of an object under a key; nothing else has entries. -/
def get (v : Json) (key : Text) : Option Json :=
  match v with
  | object entries => entries.lookup key
  | _ => none

/-- The first key of a path that is not there is an error. -/
def getPath (v : Json) : List Text → Except Text Json
  | [] => .ok v
  | key :: keys =>
      match v.get key with
      | some inner => inner.getPath keys
      | none => .error key

def isNull : Json → Bool
  | null => true
  | _ => false

theorem eq_null {v : Json} (h : v.isNull = true) : v = null := by
  cases v <;> first | rfl | cases h

def asStr : Json → Option Text
  | string t => some t
  | _ => none

/-- A string, and nothing else. -/
def readString (v : Json) : Except DecodeError Text :=
  match v with
  | string t => .ok t
  | v => .error (.invalidType v)

/-- Fields in order. -/
def readSeq (length : Nat) : Nat → List Json → Except DecodeError (List Text)
  | 0, [] => .ok []
  | 0, _ :: _ => .error (.invalidLength length)
  | n + 1, [] => .ok (List.replicate (n + 1) [])
  | n + 1, v :: vs => do
      let t ← readString v
      let ts ← readSeq length n vs
      return t :: ts

/-- Entries by name. -/
def readEntries (fields : List Text) : List (Text × Json) → Except DecodeError (List (Text × Text))
  | [] => .ok []
  | (key, v) :: entries =>
      if key ∈ fields then do
        let t ← readString v
        let ts ← readEntries fields entries
        return (key, t) :: ts
      else .error (.unknownField key)

/-- The strings under some fields. -/
def strictStrings (fields : List Text) (v : Json) : Except DecodeError (List Text) :=
  match v with
  | array vs => readSeq vs.length fields.length vs
  | object entries => do
      let read ← readEntries fields entries
      return fields.map fun field => (read.lookup field).getD []
  | v => .error (.invalidType v)

end Json
end FunctionWasm

import FunctionWasm.Foundation.Message

/-!
# Proto — the request and the response as the typed decoder reads them

The fields of `RunFunctionRequest` and `RunFunctionResponse` under their numbers in the vendored
proto file.  The decoder is a library of its own: what it makes of the messages inside is a
parameter, and what is used of it here is how it walks a message.  An item of an unknown field is
skipped whatever its wire type, an item of a known field has the wire type of that field.
-/

namespace FunctionWasm

open Protobuf

/-- The message types that fields of the request and the response hold. -/
inductive MessageType where
  | requestMeta
  | state
  | struct
  | credentials
  | resources
  | schema
  | responseMeta
  | result
  | requirements
  | condition
  deriving DecidableEq, Repr

/-- The typed decoder: the values of each message type with their codecs, and its recursion limits
around the items of a message and around those of a map entry inside it. -/
structure Prost where
  Value : MessageType → Type
  codec : (m : MessageType) → Codec (Value m)
  depth : Nat
  entryDepth : Nat

/-- `map<string, m>` -/
abbrev Prost.MapOf (P : Prost) (m : MessageType) : Type :=
  AList (fun _ : Text => P.Value m)

/-- The decoder that keeps each message as its own encoding: merging is concatenation. -/
def Prost.verbatim : Prost where
  Value _ := Bytes
  codec _ :=
    { empty := []
      merge := fun v bs => some (v ++ bs) }
  depth := 99
  entryDepth := 98

/-! ## RunFunctionRequest -/

structure RunFunctionRequest (P : Prost) where
  requestMeta : Option (P.Value .requestMeta)
  observed : Option (P.Value .state)
  desired : Option (P.Value .state)
  input : Option (P.Value .struct)
  context : Option (P.Value .struct)
  extraResources : P.MapOf .resources
  credentials : P.MapOf .credentials
  requiredResources : P.MapOf .resources
  requiredSchemas : P.MapOf .schema

namespace RunFunctionRequest

def empty (P : Prost) : RunFunctionRequest P where
  requestMeta := none
  observed := none
  desired := none
  input := none
  context := none
  extraResources := ∅
  credentials := ∅
  requiredResources := ∅
  requiredSchemas := ∅

/-- What one item of the message adds. -/
def mergeField {P : Prost} (q : RunFunctionRequest P) (r : Record) :
    Option (RunFunctionRequest P) :=
  match r.key.field with
  | 1 => ((P.codec .requestMeta).field q.requestMeta r).map fun v => { q with requestMeta := v }
  | 2 => ((P.codec .state).field q.observed r).map fun v => { q with observed := v }
  | 3 => ((P.codec .state).field q.desired r).map fun v => { q with desired := v }
  | 4 => ((P.codec .struct).field q.input r).map fun v => { q with input := v }
  | 5 => ((P.codec .struct).field q.context r).map fun v => { q with context := v }
  | 6 =>
      ((P.codec .resources).mapField P.entryDepth q.extraResources r).map
        fun v => { q with extraResources := v }
  | 7 =>
      ((P.codec .credentials).mapField P.entryDepth q.credentials r).map
        fun v => { q with credentials := v }
  | 8 =>
      ((P.codec .resources).mapField P.entryDepth q.requiredResources r).map
        fun v => { q with requiredResources := v }
  | 9 =>
      ((P.codec .schema).mapField P.entryDepth q.requiredSchemas r).map
        fun v => { q with requiredSchemas := v }
  | _ => some q

def decode (P : Prost) (bs : Bytes) : Option (RunFunctionRequest P) :=
  match records P.depth bs with
  | some rs => rs.foldlM mergeField (empty P)
  | none => none

theorem decode_eq_some {P : Prost} {bs : Bytes} {q : RunFunctionRequest P} :
    decode P bs = some q ↔
      ∃ rs, records P.depth bs = some rs ∧ rs.foldlM mergeField (empty P) = some q := by
  unfold decode
  cases records P.depth bs <;> simp

end RunFunctionRequest

/-! ## RunFunctionResponse -/

structure RunFunctionResponse (P : Prost) where
  responseMeta : Option (P.Value .responseMeta)
  desired : Option (P.Value .state)
  results : List (P.Value .result)
  context : Option (P.Value .struct)
  requirements : Option (P.Value .requirements)
  conditions : List (P.Value .condition)
  output : Option (P.Value .struct)

namespace RunFunctionResponse

def empty (P : Prost) : RunFunctionResponse P where
  responseMeta := none
  desired := none
  results := []
  context := none
  requirements := none
  conditions := []
  output := none

/-- What one item of the message adds. -/
def mergeField {P : Prost} (p : RunFunctionResponse P) (r : Record) :
    Option (RunFunctionResponse P) :=
  match r.key.field with
  | 1 => ((P.codec .responseMeta).field p.responseMeta r).map fun v => { p with responseMeta := v }
  | 2 => ((P.codec .state).field p.desired r).map fun v => { p with desired := v }
  | 3 => ((P.codec .result).element p.results r).map fun v => { p with results := v }
  | 4 => ((P.codec .struct).field p.context r).map fun v => { p with context := v }
  | 5 => ((P.codec .requirements).field p.requirements r).map fun v => { p with requirements := v }
  | 6 => ((P.codec .condition).element p.conditions r).map fun v => { p with conditions := v }
  | 7 => ((P.codec .struct).field p.output r).map fun v => { p with output := v }
  | _ => some p

def decode (P : Prost) (bs : Bytes) : Option (RunFunctionResponse P) :=
  match records P.depth bs with
  | some rs => rs.foldlM mergeField (empty P)
  | none => none

end RunFunctionResponse
end FunctionWasm

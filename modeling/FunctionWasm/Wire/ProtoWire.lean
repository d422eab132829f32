import FunctionWasm.Foundation.Machine
import FunctionWasm.Foundation.Text

/-!
# ProtoWire — the wire surgery on request and response bytes

The guest receives the caller's bytes with the step credentials it was not granted removed, and a
step that runs no module answers with the caller's own desired state and context.

* `retainCredentials` keeps the credential entries whose key `forward` admits.
* `noopResponse` builds the response of a step that ran no module.
* `skipValue` finds where a value ends; `varint` reads a base-128 integer.

Offsets are `usize`.  The only sum that can leave 64 bits is the one with a length read off the
wire, and that is the one taken with `Build.add`.  Each scan loop depends on its offset alone, so it
visits an offset twice only if it never ends: fuel for one round per byte tells the two apart.
-/

namespace FunctionWasm
namespace ProtoWire

def requestDesiredField : Nat := 3
def requestContextField : Nat := 5
def credentialsField : Nat := 7
def mapKeyField : Nat := 1
def metaField : Nat := 1
def responseDesiredField : Nat := 2
def responseContextField : Nat := 4

/-! ## Varints and values -/

/-- The loop of `varint`: `value` holds the groups below bit `shift`. -/
def varintLoop (raw : Bytes) (start : Nat) : Nat → Nat → Nat → Nat → Option (Nat × Nat)
  | 0, _, _, _ => none
  | rounds + 1, i, value, shift =>
      match raw[i]? with
      | none => none
      | some b =>
          -- the shift drops what a tenth byte holds beyond bit 63
          let value := value ||| ((b.toNat &&& 0x7f) <<< shift) % 2 ^ 64
          let i := i + 1
          if b.toNat &&& 0x80 = 0 then some (value, i - start)
          else
            let shift := shift + 7
            if 64 ≤ shift then none else varintLoop raw start rounds i value shift

/-- The value of the varint at `i` and how many bytes it takes. -/
def varint (raw : Bytes) (i : Nat) : Option (Nat × Nat) :=
  varintLoop raw i 10 i 0 0

/-- The end offset of a field value starting at `i` with the given wire type. -/
def skipValue (b : Build) (raw : Bytes) (i wire : Nat) : Checked (Option Nat) :=
  match wire with
  | 0 => .ok ((varint raw i).map fun r => i + r.2)
  | 1 => .ok (if i + 8 ≤ raw.length then some (i + 8) else none)
  | 2 =>
      match varint raw i with
      | none => .ok none
      | some (len, n) =>
          match b.add (i + n) len with
          | .error f => .error f
          | .ok valueEnd => .ok (if valueEnd ≤ raw.length then some valueEnd else none)
  | 5 => .ok (if i + 4 ≤ raw.length then some (i + 4) else none)
  | _ => .ok none

def pushVarintLoop : Nat → Nat → Bytes
  | 0, _ => []
  | rounds + 1, v =>
      let b := v &&& 0x7f
      let v := v >>> 7
      if v = 0 then [UInt8.ofNat b] else UInt8.ofNat (b ||| 0x80) :: pushVarintLoop rounds v

/-- What `push_varint` appends; ten rounds use up a 64-bit value. -/
def pushVarint (v : Nat) : Bytes :=
  pushVarintLoop 10 v

/-! ## Withholding -/

def mapEntryKeyLoop (b : Build) (entry : Bytes) : Nat → Nat → Option Text → Checked (Option Text)
  | fuel, i, key =>
      if entry.length ≤ i then .ok key
      else
        match fuel with
        | 0 => .error .diverges
        | fuel + 1 =>
            match varint entry i with
            | none => .ok none
            | some (tag, n) =>
                let i := i + n
                let wire := tag &&& 0x7
                match skipValue b entry i wire with
                | .error f => .error f
                | .ok none => .ok none
                | .ok (some valueEnd) =>
                    if tag >>> 3 = mapKeyField ∧ wire = 2 then
                      match varint entry i with
                      | none => .ok none
                      | some (_, n) =>
                          match slice entry (i + n) valueEnd with
                          | .error f => .error f
                          | .ok bytes =>
                              match utf8? bytes with
                              | none => .ok none
                              | some key => mapEntryKeyLoop b entry fuel valueEnd (some key)
                    else
                      mapEntryKeyLoop b entry fuel valueEnd key

/-- The string key of a map entry: its last occurrence, the one a decoder keeps. -/
def mapEntryKey (b : Build) (entry : Bytes) : Checked (Option Text) :=
  mapEntryKeyLoop b entry entry.length 0 none

/-- Whether the credential item whose value spans `i..valueEnd` goes to the guest; `none` where the
scan gives up. -/
def credentialForwarded (b : Build) (forward : Text → Bool) (raw : Bytes) (i valueEnd wire : Nat) :
    Checked (Option Bool) :=
  if wire = 2 then
    match varint raw i with
    | none => .ok none
    | some (_, n) =>
        match slice raw (i + n) valueEnd with
        | .error f => .error f
        | .ok entry =>
            match mapEntryKey b entry with
            | .error f => .error f
            | .ok none => .ok (some false)
            | .ok (some key) => .ok (some (forward key))
  else
    .ok (some false)

def retainLoop (b : Build) (forward : Text → Bool) (raw : Bytes) :
    Nat → Nat → Bytes → Checked (Option Bytes)
  | fuel, i, out =>
      if raw.length ≤ i then .ok (some out)
      else
        match fuel with
        | 0 => .error .diverges
        | fuel + 1 =>
            let start := i
            match varint raw i with
            | none => .ok none
            | some (tag, n) =>
                let i := i + n
                let wire := tag &&& 0x7
                match skipValue b raw i wire with
                | .error f => .error f
                | .ok none => .ok none
                | .ok (some valueEnd) =>
                    match
                      if tag >>> 3 = credentialsField then
                        credentialForwarded b forward raw i valueEnd wire
                      else .ok (some true) with
                    | .error f => .error f
                    | .ok none => .ok none
                    | .ok (some false) => retainLoop b forward raw fuel valueEnd out
                    | .ok (some true) =>
                        match slice raw start valueEnd with
                        | .error f => .error f
                        | .ok item => retainLoop b forward raw fuel valueEnd (out ++ item)

/-- Keeps the credentials map entries whose key `forward` admits and every other byte. -/
def retainCredentials (b : Build) (raw : Bytes) (forward : Text → Bool) : Checked (Option Bytes) :=
  retainLoop b forward raw raw.length 0 []

/-! ## The response of a step that runs no module -/

/-- Appends `rspMeta`, an encoded `ResponseMeta`, as field 1. -/
def appendMeta (raw rspMeta : Bytes) : Bytes :=
  raw ++ [UInt8.ofNat (metaField <<< 3) ||| 2] ++ pushVarint rspMeta.length ++ rspMeta

/-- The response field that takes over a field of the request. -/
def retagged (field wire : Nat) : Option Nat :=
  if field = requestDesiredField ∧ wire = 2 then some responseDesiredField
  else if field = requestContextField ∧ wire = 2 then some responseContextField
  else none

def noopLoop (b : Build) (raw : Bytes) : Nat → Nat → Bytes → Checked Bytes
  | fuel, i, out =>
      if raw.length ≤ i then .ok out
      else
        match fuel with
        | 0 => .error .diverges
        | fuel + 1 =>
            match varint raw i with
            | none => .ok out
            | some (tag, n) =>
                let i := i + n
                let wire := tag &&& 0x7
                match skipValue b raw i wire with
                | .error f => .error f
                | .ok none => .ok out
                | .ok (some valueEnd) =>
                    match retagged (tag >>> 3) wire with
                    | none => noopLoop b raw fuel valueEnd out
                    | some field =>
                        match slice raw i valueEnd with
                        | .error f => .error f
                        | .ok value =>
                            noopLoop b raw fuel valueEnd
                              (out ++ [UInt8.ofNat (field <<< 3) ||| 2] ++ value)

def noopResponse (b : Build) (rawRequest rspMeta : Bytes) : Checked Bytes :=
  noopLoop b rawRequest rawRequest.length 0 (appendMeta [] rspMeta)

end ProtoWire
end FunctionWasm

import FunctionWasm.Foundation.Text

/-!
# Address — IP addresses and how they are written

* `IpAddr` is an IPv4 or IPv6 address, `IpAddr.unmap` the IPv4 address that an IPv6 one carries.
* `parseIp` reads an address as the standard library does: dotted decimal, or groups of hex digits
  with one `::` and an IPv4 tail.
-/

namespace FunctionWasm

inductive IpAddr where
  | v4 (bits : BitVec 32)
  | v6 (bits : BitVec 128)
  deriving DecidableEq, Repr

namespace IpAddr

/-- An IPv4-mapped IPv6 address is the IPv4 address it carries. -/
def unmap : IpAddr → IpAddr
  | .v4 bits => .v4 bits
  | .v6 bits =>
      if bits.extractLsb' 32 96 = 0xffff#96 then .v4 (bits.extractLsb' 0 32) else .v6 bits

def isUnspecified : IpAddr → Bool
  | .v4 bits => bits = 0
  | .v6 bits => bits = 0

end IpAddr

/-! ## Reading -/

def digitOf (radix : Nat) (c : Char) : Option Nat :=
  let n := c.toNat
  let value :=
    if 48 ≤ n ∧ n ≤ 57 then some (n - 48)
    else if 97 ≤ n ∧ n ≤ 122 then some (n - 87)
    else if 65 ≤ n ∧ n ≤ 90 then some (n - 55)
    else none
  value.filter fun v => v < radix

/-- A number of at most `maxDigits` digits below `bound`. -/
def readNumber (radix maxDigits bound : Nat) (allowZeroPrefix : Bool) (t : Text) :
    Option (Nat × Text) :=
  let digits := t.takeWhile fun c => (digitOf radix c).isSome
  let value := digits.foldl (fun v c => v * radix + (digitOf radix c).getD 0) 0
  let zeroPrefix := digits.head? = some '0' ∧ 1 < digits.length
  if digits = [] ∨ maxDigits < digits.length ∨ bound ≤ value ∨ (zeroPrefix ∧ ¬ allowZeroPrefix)
  then none
  else some (value, t.drop digits.length)

/-- What comes after a separator, which the first item has none of. -/
def readSeparated {α : Type} (sep : Char) (index : Nat) (inner : Text → Option (α × Text))
    (t : Text) : Option (α × Text) :=
  if index = 0 then inner t
  else
    match t with
    | c :: rest => if c = sep then inner rest else none
    | [] => none

/-- `n` decimal octets, the next one being number `index`. -/
def readOctets : Nat → Nat → Text → Option (List Nat × Text)
  | 0, _, t => some ([], t)
  | n + 1, index, t =>
      match readSeparated '.' index (readNumber 10 3 256 false) t with
      | none => none
      | some (octet, t) =>
          match readOctets n (index + 1) t with
          | none => none
          | some (octets, t) => some (octet :: octets, t)

def readIpv4 (t : Text) : Option (BitVec 32 × Text) :=
  match readOctets 4 0 t with
  | none => none
  | some (octets, t) => some (BitVec.ofNat 32 (octets.foldl (fun v o => v * 256 + o) 0), t)

/-- Up to `n` groups, the next one being number `index` of `limit`; whether they end in an IPv4
address, and what follows them. -/
def readGroups16 (limit : Nat) : Nat → Nat → Text → List Nat × Bool × Text
  | 0, _, t => ([], false, t)
  | n + 1, index, t =>
      -- an IPv4 tail takes two groups
      match if index + 1 < limit then readSeparated ':' index readIpv4 t else none with
      | some (tail, t) => ([tail.toNat / 2 ^ 16, tail.toNat % 2 ^ 16], true, t)
      | none =>
          match readSeparated ':' index (readNumber 16 4 (2 ^ 16) true) t with
          | none => ([], false, t)
          | some (group, t) =>
              let (groups, ipv4, t) := readGroups16 limit n (index + 1) t
              (group :: groups, ipv4, t)

def ofGroups (groups : List Nat) : BitVec 128 :=
  BitVec.ofNat 128 (groups.foldl (fun v g => v * 2 ^ 16 + g) 0)

def readIpv6 (t : Text) : Option (BitVec 128 × Text) :=
  let (head, ipv4, t) := readGroups16 8 8 0 t
  if head.length = 8 then some (ofGroups head, t)
  else if ipv4 then none
  else
    match t with
    | ':' :: ':' :: t =>
        let limit := 8 - (head.length + 1)
        let (tail, _, t) := readGroups16 limit limit 0 t
        let zeros := List.replicate (8 - head.length - tail.length) 0
        some (ofGroups (head ++ zeros ++ tail), t)
    | _ => none

/-- `str::parse::<IpAddr>`. -/
def parseIp (t : Text) : Option IpAddr :=
  match readIpv4 t with
  | some (bits, []) => some (.v4 bits)
  | some _ => none
  | none =>
      match readIpv6 t with
      | some (bits, []) => some (.v6 bits)
      | _ => none

example : parseIp "::ffff:10.1.2.3".toList = some (.v6 0xffff0a010203#128) := by decide

example : (parseIp "::ffff:10.1.2.3".toList).map IpAddr.unmap = parseIp "10.1.2.3".toList := by
  decide

end FunctionWasm

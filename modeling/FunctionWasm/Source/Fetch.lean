import FunctionWasm.Cache.Store
import FunctionWasm.Foundation.EntryMap
import FunctionWasm.Registry.Layers
import FunctionWasm.Source.Resolver

/-!
# Fetch — the bytes of a module and of its manifest

A resolver gets the bytes that a resolved source stands for: from a file, from the web, from a
registry, or from what it kept of an earlier answer, on disk or in memory.

* `Resolver.fetch` gets the module, `Resolver.manifest` its manifest.
* `cachedManifest` is the manifest where it costs no input or output.
* `verified` goes through the blob store, `manifestByDigest` through the tiers of the manifest cache.

The YAML reader is a library.
-/

namespace FunctionWasm

open RegistryClient (contentDigest)

/-- The digest of a module file, by its size and its modification time. -/
structure FileStamp where
  size : Nat
  mtime : Nat
  digest : Text
  deriving DecidableEq

/-- What a resolver works in and on: the network, the files, the digests of module files and the
memory tier of the manifest cache.  `storeOps` is history: what the stores did, each operation with
the directory of the store. -/
structure World where
  session : Session
  disk : Disk
  files : EntryMap Text FileStamp
  cachedManifests : EntryMap Text Bytes
  storeOps : List (Text × FileOp)

/-- The two stores are opened verifying. -/
structure Resolver where
  maxSize : Nat
  blobs : Option Store
  manifests : Option Store
  blobs_verify : ∀ st ∈ blobs, st.verify = true
  manifests_verify : ∀ st ∈ manifests, st.verify = true

/-- No store is opened otherwise where there is none. -/
theorem Store.verify_of_none : ∀ st ∈ (none : Option Store), st.verify = true := by simp

class ManifestLibrary where
  /-- The JSON of a YAML document. -/
  manifestJson : Bytes → Except Text Bytes

/-- Most manifests that the memory tier holds. -/
def maxCachedManifests : Nat := 4096

/-- `manifest::MAX_SIZE`. -/
def maxModuleManifestSize : Nat := 65536

def sizeError (limit : Nat) : Text :=
  "module exceeds the size limit of ".toList ++ natText limit ++ " bytes".toList

/-- Opens a file and reads at most `limit` bytes of it. -/
def readFile (what full : Text) (limit : Nat) (d : Disk) : Except Text Bytes × Disk :=
  match d.read full with
  | (.error e, d) =>
      (.error ("cannot read ".toList ++ what ++ " file: open ".toList ++ full ++ ": ".toList ++ e), d)
  | (.ok b, d) => if limit < b.length then (.error (sizeError limit), d) else (.ok b, d)

/-- Downloads what is at a URL. -/
def httpGet (url what : Text) (limit : Nat) (s : Session) : Except Text Bytes × Session :=
  match s.ask ⟨url, none⟩ with
  | (.error e, s) => (.error ("cannot download ".toList ++ what ++ ": ".toList ++ e), s)
  | (.ok b, s) => if limit < b.length then (.error (sizeError limit), s) else (.ok b, s)

namespace World

def remembered (w : World) (key : Text) : Option Bytes := w.cachedManifests.lookup key

def remember (w : World) (key : Text) (manifest : Bytes) : World :=
  let cached := if maxCachedManifests ≤ w.cachedManifests.entries.length then ∅ else w.cachedManifests
  { w with cachedManifests := cached.insert key manifest }

/-- What a call of a store leaves. -/
def leave (w : World) (st : Store) (disk : Disk) : World :=
  { w with
    disk := disk
    storeOps := w.storeOps ++ (disk.log.drop w.disk.log.length).map (Prod.mk st.dir) }

section Stores

variable [RegistryLibrary]

/-- What a store that may not be there has under a digest. -/
def lookup (w : World) (store : Option Store) (digest : Text) : Option Bytes × World :=
  match store with
  | none => (none, w)
  | some st =>
      let (found, disk) := st.get digest w.disk
      (found, w.leave st disk)

variable [MacLibrary]

/-- Keeps some bytes in a store that may not be there; a failure is ignored. -/
def save (w : World) (store : Option Store) (digest : Text) (b : Bytes) : World :=
  match store with
  | none => w
  | some st => w.leave st (st.put digest b w.disk).2

end Stores
end World

namespace Resolver

variable [RegistryLibrary] [MacLibrary]

/-- The content with some digest, from the blob store or else fetched and checked. -/
def verified (r : Resolver) (what digest : Text) (fetch : Session → Except Text Bytes × Session)
    (w : World) : Except Text Bytes × World :=
  match w.lookup r.blobs digest with
  | (some b, w) => (.ok b, w)
  | (none, w) =>
      match fetch w.session with
      | (.error e, s) => (.error e, { w with session := s })
      | (.ok b, s) =>
          if contentDigest b = digest then
            (.ok b, World.save { w with session := s } r.blobs digest b)
          else
            (.error (what ++ " content is ".toList ++ contentDigest b ++ ", want ".toList ++ digest),
              { w with session := s })

/-- A module file, checked against the digest that it was resolved to. -/
def fetchPath (r : Resolver) (full digest : Text) (w : World) : Except Text Bytes × World :=
  match readFile "module".toList full r.maxSize w.disk with
  | (.error e, disk) => (.error e, { w with disk := disk })
  | (.ok b, disk) =>
      if contentDigest b = digest then (.ok b, { w with disk := disk })
      else
        -- the stamp lied: the next request hashes the file again
        (.error ("module file changed while being read: content is ".toList ++ contentDigest b ++
            ", expected ".toList ++ digest),
          { w with disk := disk, files := w.files.erase full })

/-- The layer of an artifact's module and its bytes. -/
def fetchLayer (r : Resolver) (reference : OciReference) (w : World) :
    Except Text (Descriptor × Bytes) × World :=
  let client := RegistryClient.new reference
  match client.manifest reference w.session with
  | (.error e, s) => (.error e, { w with session := s })
  | (.ok m, s) =>
      match wasmLayer m with
      | .error e => (.error (reference.location ++ " ".toList ++ e), { w with session := s })
      | .ok layer =>
          let label := "module layer".toList
          match r.verified label layer.digest (client.blob layer.digest r.maxSize label)
              { w with session := s } with
          | (.error e, w) => (.error e, w)
          | (.ok b, w) => (.ok (layer, b), w)

/-- The module that a layer holds. -/
def moduleOf [TarLibrary] (r : Resolver) (layer : Descriptor) (b : Bytes) : Except Text Bytes :=
  if isTarLayer layer.mediaType then extractWasm b r.maxSize else .ok b

/-- The bytes of a module. -/
def fetch [TarLibrary] (r : Resolver) (resolved : Resolved) (w : World) :
    Except Text Bytes × World :=
  match resolved.source with
  | .path full => r.fetchPath full resolved.digest w
  | .http url =>
      r.verified "module".toList resolved.digest (httpGet url "module".toList r.maxSize) w
  | .oci reference =>
      match r.fetchLayer reference w with
      | (.error e, w) => (.error e, w)
      | (.ok (layer, b), w) => (r.moduleOf layer b, w)

/-- The manifest with some digest: from memory, from disk, or else fetched and kept in both. -/
def manifestByDigest (r : Resolver) (digest : Text) (fetch : World → Except Text Bytes × World)
    (w : World) : Except Text Bytes × World :=
  match w.remembered digest with
  | some m => (.ok m, w)
  | none =>
      match w.lookup r.manifests digest with
      | (some m, w) => (.ok m, w.remember digest m)
      | (none, w) =>
          match fetch w with
          | (.error e, w) => (.error e, w)
          | (.ok m, w) => (.ok m, (w.save r.manifests digest m).remember digest m)

/-- The manifest of an artifact, from its layer. -/
def layerManifest (r : Resolver) (reference : OciReference) (w : World) :
    Except Text Bytes × World :=
  match w.remembered reference.digest with
  | some m => (.ok m, w)
  | none =>
      let client := RegistryClient.new reference
      match client.manifest reference w.session with
      | (.error e, s) => (.error e, { w with session := s })
      | (.ok m, s) =>
          match manifestLayer m with
          -- no manifest is remembered as an empty one
          | none => (.ok [], World.remember { w with session := s } reference.digest [])
          | some layer =>
              let label := "manifest layer".toList
              match r.manifestByDigest layer.digest
                  (r.verified label layer.digest
                    (client.blob layer.digest maxModuleManifestSize label))
                  { w with session := s } with
              | (.error e, w) => (.error e, w)
              | (.ok b, w) => (.ok b, w.remember reference.digest b)

variable [ManifestLibrary]

/-- The JSON of a manifest that was read. -/
def jsonOf : Except Text Bytes × World → Except Text Bytes × World
  | (.error e, w) => (.error e, w)
  | (.ok raw, w) => (ManifestLibrary.manifestJson raw, w)

/-- The manifest of a module as JSON, empty where the source names none. -/
def manifest (r : Resolver) (resolved : Resolved) (w : World) : Except Text Bytes × World :=
  match resolved.manifest with
  | .none => (.ok [], w)
  | .pathFile full =>
      let (b, disk) := readFile "manifest".toList full maxModuleManifestSize w.disk
      jsonOf (b, { w with disk := disk })
  | .http url digest =>
      let label := "manifest".toList
      jsonOf (r.manifestByDigest digest
        (r.verified label digest (httpGet url label maxModuleManifestSize)) w)
  | .ociLayer reference => r.layerManifest reference w

end Resolver

/-- The manifest of a module where it is known without input or output. -/
def cachedManifest [ManifestLibrary] (resolved : Resolved) (w : World) : Option Bytes :=
  match resolved.manifest with
  | .none => some []
  | .pathFile _ => none
  | .http _ digest => (w.remembered digest).bind fun raw => (ManifestLibrary.manifestJson raw).toOption
  | .ociLayer reference => w.remembered reference.digest

end FunctionWasm

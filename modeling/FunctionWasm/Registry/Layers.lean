import FunctionWasm.Foundation.Disk
import FunctionWasm.Registry.Oci

/-!
# Layers — from an artifact's manifest to the module

* `RegistryClient.manifest` and `blob` are the requests of a pull.
* `wasmLayer` and `manifestLayer` pick the layer of the module and of its manifest.
* `extractWasm` takes the module out of a tar layer; `extractWasm_ok` says which file it takes.
* `extractWasm_unique` says that the limit does not matter to which module that is.
* `rootModule` is the file that a `FROM scratch` image holds the module in.

The archive reader is a library: `TarLibrary` lists the entries of a possibly compressed archive.
-/

namespace FunctionWasm

/-! ## The layers of a manifest -/

def wasmLayerTypes : List Text :=
  ["application/wasm".toList,
    "application/vnd.wasm.content.layer.v1+wasm".toList,
    "application/vnd.module.wasm.content.layer.v1+wasm".toList]

def manifestLayerType : Text := "application/vnd.guestfn.manifest.v1+json".toList

/-- Whether a text occurs in another. -/
def occursIn (part t : Text) : Bool := (splitOnceText part t).isSome

/-- The layer that holds the module: the first of a wasm type, otherwise the only one that is not
the manifest's. -/
def wasmLayer (m : OciManifest) : Except Text Descriptor :=
  match m.layers.find? fun l => l.mediaType ∈ wasmLayerTypes with
  | some l => .ok l
  | none =>
      match m.layers.filter fun l => l.mediaType ≠ manifestLayerType with
      | [l] => .ok l
      | _ => .error ("has ".toList ++ natText m.layers.length ++
          " layers and none is a wasm layer".toList)

def manifestLayer (m : OciManifest) : Option Descriptor :=
  m.layers.find? fun l => l.mediaType = manifestLayerType

def isTarLayer (mediaType : Text) : Bool := occursIn "tar".toList mediaType

/-! ## The requests of a pull -/

namespace RegistryClient

section Manifest

variable [RegistryLibrary]

/-- No limit but the largest `usize`. -/
def unlimited : Nat := 2 ^ 64 - 1

/-- The manifest that a reference is pinned to; an index is refused. -/
def manifest (c : RegistryClient) (reference : OciReference) (s : Session) :
    Except Text OciManifest × Session :=
  match c.manifestByDigest reference.digest unlimited s with
  | (.error e, s) => (.error e, s)
  | (.ok m, s) =>
      if occursIn "index".toList m.mediaType ∨ occursIn "manifest.list".toList m.mediaType ∨
          m.manifests ≠ [] then
        (.error (reference.location ++ "@".toList ++ reference.digest ++
          " is an image index; reference the manifest holding the module".toList), s)
      else (.ok m, s)

theorem manifest_le {c : RegistryClient} {reference : OciReference} {s s' : Session}
    {r : Except Text OciManifest} (h : c.manifest reference s = (r, s')) : s.le s' := by
  unfold manifest at h
  split at h
  · next hread =>
      cases h
      exact manifestByDigest_le hread
  · next hread => split at h <;> cases h <;> exact manifestByDigest_le hread

/-- A manifest that was read was served, hashes to the pinned digest and parses as it. -/
theorem manifest_ok {c : RegistryClient} {reference : OciReference} {s s' : Session}
    {m : OciManifest} (h : c.manifest reference s = (.ok m, s')) :
    ∃ raw, Served s'.log (c.manifestUrl reference.digest) raw ∧
      contentDigest raw = reference.digest ∧ RegistryLibrary.manifestFromJson raw = .ok m := by
  unfold manifest at h
  split at h
  · cases h
  · next hread =>
      split at h
      · cases h
      · cases h
        exact manifestByDigest_ok hread

end Manifest

/-- One layer, not verified: the caller does that. -/
def blob (c : RegistryClient) (digest : Text) (limit : Nat) (label : Text) (s : Session) :
    Except Text Bytes × Session :=
  match getAs (c.blobUrl digest) none limit "module".toList s with
  | (.error e, s) => (.error ("cannot fetch ".toList ++ label ++ ": ".toList ++ e), s)
  | (.ok b, s) => (.ok b, s)

theorem blob_le {c : RegistryClient} {digest label : Text} {limit : Nat} {s s' : Session}
    {r : Except Text Bytes} (h : c.blob digest limit label s = (r, s')) : s.le s' := by
  unfold blob at h
  split at h
  · next hget =>
      cases h
      exact getAs_le hget
  · next hget =>
      cases h
      exact getAs_le hget

end RegistryClient

/-! ## Archives -/

/-- One entry of an archive; the content is as read, one byte over the limit at most. -/
structure TarEntry where
  isFile : Bool
  name : Text
  content : Except Text Bytes

class TarLibrary where
  /-- The entries of a possibly gzipped archive that is read through a limit. -/
  entries : Bytes → Nat → Except Text (List (Except Text TarEntry))

def scratchModulePath : Text := "/fn.wasm".toList

/-- The name without its leading dots and slashes, under the root. -/
def cleanedName (name : Text) : Text :=
  '/' :: name.dropWhile fun c => c = '.' ∨ c = '/'

/-- Whether an entry is taken for the module. -/
def TarEntry.taken (e : TarEntry) : Bool :=
  e.isFile ∧ cleanedName e.name = scratchModulePath

/-- Whether an entry is the module: the file `fn.wasm` of the root. -/
def TarEntry.atRoot (e : TarEntry) : Bool :=
  e.isFile ∧ components e.name = ["fn.wasm".toList]

def archiveError (e : Text) : Text :=
  "cannot read module layer archive: ".toList ++ e

/-- The loop over the entries of an archive. -/
def takeModule (limit : Nat) : List (Except Text TarEntry) → Except Text Bytes
  | [] =>
      .error ("module layer is a tar archive without /fn.wasm: a FROM scratch image must COPY " ++
        "the module to /fn.wasm").toList
  | .error e :: _ => .error (archiveError e)
  | .ok entry :: rest =>
      if entry.taken then
        match entry.content with
        | .error e => .error (archiveError e)
        | .ok out =>
            if limit < out.length then
              .error ("module exceeds the size limit of ".toList ++ natText limit ++ " bytes".toList)
            else .ok out
      else takeModule limit rest

/-- The first entry of some kind, among those that can be read. -/
def firstEntry (p : TarEntry → Bool) : List (Except Text TarEntry) → Option TarEntry
  | [] => none
  | .error _ :: _ => none
  | .ok entry :: rest => if p entry then some entry else firstEntry p rest

theorem takeModule_ok {limit : Nat} {entries : List (Except Text TarEntry)} {b : Bytes} :
    takeModule limit entries = .ok b ↔
      ∃ e, firstEntry TarEntry.taken entries = some e ∧ e.content = .ok b ∧ b.length ≤ limit := by
  induction entries with
  | nil => simp [takeModule, firstEntry]
  | cons item rest ih =>
      cases item with
      | error e => simp [takeModule, firstEntry]
      | ok entry =>
          by_cases htaken : entry.taken = true
          · cases hcontent : entry.content with
            | error e => simp [takeModule, firstEntry, htaken, hcontent]
            | ok out =>
                by_cases hlimit : limit < out.length
                · simp only [takeModule, firstEntry, htaken, hcontent, hlimit, if_true]
                  constructor
                  · intro h
                    cases h
                  · rintro ⟨e, he, hb, hle⟩
                    cases he
                    rw [hcontent] at hb
                    cases hb
                    exact absurd hlimit (Nat.not_lt.2 hle)
                · simp only [takeModule, firstEntry, htaken, hcontent, hlimit, if_true, if_false]
                  constructor
                  · intro h
                    cases h
                    exact ⟨entry, rfl, hcontent, Nat.not_lt.1 hlimit⟩
                  · rintro ⟨e, he, hb, -⟩
                    cases he
                    rw [← hb, hcontent]
          · simp [takeModule, firstEntry, htaken, ih]

/-- What is read of an archive through a limit, of all that it holds: reading may stop anywhere with an
error, and a file is read to one byte over the limit. -/
inductive ReadsThrough (limit : Nat) :
    List (Except Text TarEntry) → List (Except Text TarEntry) → Prop where
  | done : ReadsThrough limit [] []
  | stopped {held rest : List (Except Text TarEntry)} {e : Text} :
      ReadsThrough limit held (.error e :: rest)
  | entry {whole part : TarEntry} {held rest : List (Except Text TarEntry)} :
      part.isFile = whole.isFile → part.name = whole.name →
      (∀ b, part.content = .ok b →
        ∃ content, whole.content = .ok content ∧ b = content.take (limit + 1)) →
      ReadsThrough limit held rest → ReadsThrough limit (.ok whole :: held) (.ok part :: rest)

/-- What is taken for the module through a limit is a file of the archive, and all of it. -/
theorem ReadsThrough.takeModule_ok {limit : Nat} {held items : List (Except Text TarEntry)}
    {b : Bytes} (h : ReadsThrough limit held items) (hb : takeModule limit items = .ok b) :
    ∃ e, firstEntry TarEntry.taken held = some e ∧ e.content = .ok b := by
  induction h with
  | done => cases hb
  | stopped => cases hb
  | @entry whole part held rest hfile hname hcontent _ ih =>
      have htaken : part.taken = whole.taken := by
        simp [TarEntry.taken, hfile, hname]
      by_cases hwhole : whole.taken = true
      · rcases FunctionWasm.takeModule_ok.1 hb with ⟨e, he, hread, hlength⟩
        simp only [firstEntry, htaken, hwhole, if_true] at he ⊢
        cases he
        rcases hcontent b hread with ⟨content, hall, hcut⟩
        -- a file that is not over the limit was not cut
        have hshort : content.length ≤ limit := by
          rw [hcut, List.length_take] at hlength
          omega
        have hsame : b = content := by
          rw [hcut, List.take_of_length_le (by omega)]
        exact ⟨whole, rfl, by rw [hall, hsame]⟩
      · have hrest : takeModule limit rest = .ok b := by
          simpa [takeModule, htaken, hwhole] using hb
        simpa [firstEntry, hwhole] using ih hrest

section Extract

variable [TarLibrary]

/-- Through every limit the same archive is read. -/
class LawfulTar : Prop where
  reads (archive : Bytes) : ∃ held, ∀ limit items,
    TarLibrary.entries archive limit = .ok items → ReadsThrough limit held items

/-- Takes the module out of a tar layer. -/
def extractWasm (b : Bytes) (limit : Nat) : Except Text Bytes :=
  match TarLibrary.entries b limit with
  | .error e => .error (archiveError e)
  | .ok entries => takeModule limit entries

/-- The module of a tar layer. -/
def rootModule (b : Bytes) (limit : Nat) : Option TarEntry :=
  match TarLibrary.entries b limit with
  | .error _ => none
  | .ok entries => firstEntry TarEntry.atRoot entries

/-- The file that is taken for the module of a tar layer. -/
def takenModule (b : Bytes) (limit : Nat) : Option TarEntry :=
  match TarLibrary.entries b limit with
  | .error _ => none
  | .ok entries => firstEntry TarEntry.taken entries

theorem extractWasm_ok {archive : Bytes} {limit : Nat} {b : Bytes} :
    extractWasm archive limit = .ok b ↔
      ∃ e, takenModule archive limit = some e ∧ e.content = .ok b ∧ b.length ≤ limit := by
  unfold extractWasm takenModule
  split
  · simp
  · exact takeModule_ok

/-- Whatever the limit, an archive has one module. -/
theorem extractWasm_unique [LawfulTar] {archive b b' : Bytes} {limit limit' : Nat}
    (h : extractWasm archive limit = .ok b) (h' : extractWasm archive limit' = .ok b') : b = b' := by
  rcases LawfulTar.reads archive with ⟨held, hreads⟩
  have htaken : ∀ {limit b}, extractWasm archive limit = .ok b →
      ∃ e, firstEntry TarEntry.taken held = some e ∧ e.content = .ok b := by
    intro limit b hextract
    unfold extractWasm at hextract
    split at hextract
    · cases hextract
    · next items hitems => exact (hreads limit items hitems).takeModule_ok hextract
  rcases htaken h with ⟨e, he, hcontent⟩
  rcases htaken h' with ⟨e', he', hcontent'⟩
  cases he.symm.trans he'
  exact Except.ok.inj (hcontent.symm.trans hcontent')

end Extract
end FunctionWasm

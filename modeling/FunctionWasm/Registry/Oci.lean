import FunctionWasm.Source.Location

/-!
# Oci — the registry client

A client asks one registry for manifests, referrers and blobs.  The registry is the adversary: the
answer to each request is whatever it is, also to a request made before.  A `Session` is what one
caller has asked and been told so far.

* `manifestByDigest`, `referrers`, `verifiedBlob` and `blob` are the requests the client makes.
* `Served` says what a session was told, and that is never taken back: `Session.le`.
* `manifestByDigest_ok`, `verifiedBlob_ok` say what stands in the session after a success.

The hash and the JSON readers are libraries: `RegistryLibrary` is what is used of them.
-/

namespace FunctionWasm

def natText (n : Nat) : Text := (toString n).toList

def hexDigit (n : Nat) : Char :=
  if n < 10 then Char.ofNat (48 + n) else Char.ofNat (87 + n)

/-- `hex::encode`. -/
def hexEncode (bs : Bytes) : Text :=
  bs.flatMap fun b => [hexDigit (b.toNat / 16), hexDigit (b.toNat % 16)]

structure Descriptor where
  mediaType : Text
  digest : Text
  size : Int
  deriving DecidableEq

/-- The fields of an artifact's manifest that are read; an entry of `manifests` is its JSON. -/
structure OciManifest where
  mediaType : Text
  layers : List Descriptor
  subject : Option Descriptor
  manifests : List Text
  deriving DecidableEq

class RegistryLibrary where
  sha256 : Bytes → Bytes
  manifestFromJson : Bytes → Except Text OciManifest
  indexFromJson : Bytes → Except Text (List Descriptor)

section Constants

def ociManifestType : Text := "application/vnd.oci.image.manifest.v1+json".toList

def ociIndexType : Text := "application/vnd.oci.image.index.v1+json".toList

def manifestAccept : Text :=
  ("application/vnd.oci.image.manifest.v1+json, " ++
    "application/vnd.docker.distribution.manifest.v2+json, " ++
    "application/vnd.oci.image.index.v1+json, " ++
    "application/vnd.docker.distribution.manifest.list.v2+json").toList

end Constants

/-! ## What a registry was asked and answered -/

structure RegistryRequest where
  url : Text
  accept : Option Text
  deriving DecidableEq

structure Exchange where
  request : RegistryRequest
  answer : Except Text Bytes

/-- The exchanges of one caller, and the answers its next requests will get.  An answer is the body
of a successful response or the text of a failure (the status line where there was a response). -/
structure Session where
  answers : Nat → Except Text Bytes
  log : List Exchange

namespace Session

def ask (request : RegistryRequest) (s : Session) : Except Text Bytes × Session :=
  let answer := s.answers s.log.length
  (answer, { s with log := s.log ++ [⟨request, answer⟩] })

/-- What was exchanged stays exchanged. -/
def le (s s' : Session) : Prop :=
  s.log ⊆ s'.log

theorem le_refl (s : Session) : s.le s :=
  List.Subset.refl _

theorem le_trans {s s' s'' : Session} (h : s.le s') (h' : s'.le s'') : s.le s'' :=
  List.Subset.trans h h'

theorem ask_le (request : RegistryRequest) (s : Session) : s.le (s.ask request).2 :=
  List.subset_append_left _ _

end Session

/-- The body that some request for `url` was answered with. -/
def Served (log : List Exchange) (url : Text) (body : Bytes) : Prop :=
  ∃ accept, ⟨⟨url, accept⟩, .ok body⟩ ∈ log

theorem Served.mono {s s' : Session} {url : Text} {body : Bytes} (h : Served s.log url body)
    (hle : s.le s') : Served s'.log url body := by
  rcases h with ⟨accept, hmem⟩
  exact ⟨accept, hle hmem⟩

/-! ## The client -/

/-- A client for one artifact's registry.  The credential and the token it is exchanged for travel
with the requests and are the registry's to judge. -/
structure RegistryClient where
  base : Text
  repository : Text
  deriving DecidableEq

namespace RegistryClient

def startsWithAny (prefixes : List String) (t : Text) : Bool :=
  prefixes.any fun p => p.toList.isPrefixOf t

def new (reference : OciReference) : RegistryClient :=
  let host :=
    if reference.registry = "index.docker.io".toList then "registry-1.docker.io".toList
    else reference.registry
  -- a local registry speaks plain HTTP
  let scheme := if startsWithAny ["localhost", "127.0.0.1", "[::1]"] host then "http" else "https"
  { base := scheme.toList ++ "://".toList ++ host
    repository := reference.repository }

def manifestUrl (c : RegistryClient) (reference : Text) : Text :=
  c.base ++ "/v2/".toList ++ c.repository ++ "/manifests/".toList ++ reference

def referrersUrl (c : RegistryClient) (digest : Text) : Text :=
  c.base ++ "/v2/".toList ++ c.repository ++ "/referrers/".toList ++ digest

def blobUrl (c : RegistryClient) (digest : Text) : Text :=
  c.base ++ "/v2/".toList ++ c.repository ++ "/blobs/".toList ++ digest

/-- One authenticated GET; a body over `limit` is refused. -/
def getAs (url : Text) (accept : Option Text) (limit : Nat) (what : Text) (s : Session) :
    Except Text Bytes × Session :=
  match s.ask ⟨url, accept⟩ with
  | (.error e, s) => (.error e, s)
  | (.ok body, s) =>
      if limit < body.length then
        (.error (what ++ " exceeds the size limit of ".toList ++ natText limit ++ " bytes".toList), s)
      else (.ok body, s)

theorem getAs_le {url : Text} {accept : Option Text} {limit : Nat} {what : Text} {s s' : Session}
    {r : Except Text Bytes} (h : getAs url accept limit what s = (r, s')) : s.le s' := by
  have hask : s.le (s.ask ⟨url, accept⟩).2 := Session.ask_le ..
  unfold getAs at h
  split at h
  · next heq =>
      cases h
      simpa [heq] using hask
  · next heq =>
      rw [heq] at hask
      split at h <;> cases h <;> exact hask

theorem getAs_ok {url : Text} {accept : Option Text} {limit : Nat} {what : Text} {s s' : Session}
    {body : Bytes} (h : getAs url accept limit what s = (.ok body, s')) :
    Served s'.log url body := by
  have hlog : (⟨⟨url, accept⟩, s.answers s.log.length⟩ : Exchange) ∈ (s.ask ⟨url, accept⟩).2.log := by
    simp [Session.ask]
  unfold getAs at h
  split at h
  · cases h
  · next heq =>
      split at h
      · cases h
      · cases h
        have hanswer : s.answers s.log.length = .ok body := congrArg Prod.fst heq
        exact ⟨accept, by simpa [heq, hanswer] using hlog⟩

/-- The referrers tag schema's tag for a digest: the first `:` is a `-`. -/
def referrersTag (digest : Text) : Text :=
  match splitOnce ':' digest with
  | some (before, after) => before ++ "-".toList ++ after
  | none => digest

variable [RegistryLibrary]

/-- The digest of some content. -/
def contentDigest (raw : Bytes) : Text :=
  "sha256:".toList ++ hexEncode (RegistryLibrary.sha256 raw)

def manifestByDigest (c : RegistryClient) (digest : Text) (limit : Nat) (s : Session) :
    Except Text OciManifest × Session :=
  match getAs (c.manifestUrl digest) (some manifestAccept) limit "manifest".toList s with
  | (.error e, s) => (.error ("cannot fetch manifest ".toList ++ digest ++ ": ".toList ++ e), s)
  | (.ok raw, s) =>
      let got := contentDigest raw
      if got = digest then
        match RegistryLibrary.manifestFromJson raw with
        | .error e => (.error ("cannot parse manifest ".toList ++ digest ++ ": ".toList ++ e), s)
        | .ok m => (.ok m, s)
      else
        (.error ("manifest content is ".toList ++ got ++ ", want ".toList ++ digest), s)

/-- The referrers of a digest, from the referrers API or, where that is a 404, from the index under
the referrers tag. -/
def referrers (c : RegistryClient) (digest : Text) (limit : Nat) (s : Session) :
    Except Text (List Descriptor) × Session :=
  let what := "referrers index".toList
  let failed e := "cannot list the referrers of ".toList ++ digest ++ ": ".toList ++ e
  let parsed raw :=
    match RegistryLibrary.indexFromJson raw with
    | .error e => .error ("cannot parse the referrers of ".toList ++ digest ++ ": ".toList ++ e)
    | .ok manifests => .ok manifests
  match getAs (c.referrersUrl digest) (some ociIndexType) limit what s with
  | (.ok raw, s) => (parsed raw, s)
  | (.error e, s) =>
      if "404".toList.isPrefixOf e then
        match getAs (c.manifestUrl (referrersTag digest)) (some ociIndexType) limit what s with
        | (.ok raw, s) => (parsed raw, s)
        | (.error e, s) =>
            -- no tag, no referrers
            if "404".toList.isPrefixOf e then (.ok [], s) else (.error (failed e), s)
      else (.error (failed e), s)

/-- A small blob, verified against its digest. -/
def verifiedBlob (c : RegistryClient) (digest : Text) (limit : Nat) (label : Text) (s : Session) :
    Except Text Bytes × Session :=
  match getAs (c.blobUrl digest) none limit label s with
  | (.error e, s) =>
      (.error ("cannot fetch ".toList ++ label ++ " ".toList ++ digest ++ ": ".toList ++ e), s)
  | (.ok raw, s) =>
      let got := contentDigest raw
      if got = digest then (.ok raw, s)
      else (.error (label ++ " content is ".toList ++ got ++ ", want ".toList ++ digest), s)

/-! ## What a request leaves in the session -/

theorem manifestByDigest_le {c : RegistryClient} {digest : Text} {limit : Nat} {s s' : Session}
    {r : Except Text OciManifest} (h : c.manifestByDigest digest limit s = (r, s')) : s.le s' := by
  unfold manifestByDigest at h
  split at h
  · next hget =>
      cases h
      exact getAs_le hget
  · next hget =>
      dsimp only at h
      split at h
      · split at h <;> cases h <;> exact getAs_le hget
      · cases h
        exact getAs_le hget

/-- A manifest that was read was served, hashes to the digest asked for and parses as it. -/
theorem manifestByDigest_ok {c : RegistryClient} {digest : Text} {limit : Nat} {s s' : Session}
    {m : OciManifest} (h : c.manifestByDigest digest limit s = (.ok m, s')) :
    ∃ raw, Served s'.log (c.manifestUrl digest) raw ∧ contentDigest raw = digest ∧
      RegistryLibrary.manifestFromJson raw = .ok m := by
  unfold manifestByDigest at h
  split at h
  · cases h
  · next raw _ hget =>
      dsimp only at h
      split at h
      · next hdigest =>
          split at h
          · cases h
          · next hparse =>
              cases h
              exact ⟨raw, getAs_ok hget, hdigest, hparse⟩
      · cases h

theorem verifiedBlob_le {c : RegistryClient} {digest : Text} {limit : Nat} {label : Text}
    {s s' : Session} {r : Except Text Bytes}
    (h : c.verifiedBlob digest limit label s = (r, s')) : s.le s' := by
  unfold verifiedBlob at h
  split at h
  · next hget =>
      cases h
      exact getAs_le hget
  · next hget =>
      dsimp only at h
      split at h <;> cases h <;> exact getAs_le hget

/-- A blob that was read was served and hashes to the digest asked for. -/
theorem verifiedBlob_ok {c : RegistryClient} {digest : Text} {limit : Nat} {label : Text}
    {s s' : Session} {raw : Bytes} (h : c.verifiedBlob digest limit label s = (.ok raw, s')) :
    Served s'.log (c.blobUrl digest) raw ∧ contentDigest raw = digest := by
  unfold verifiedBlob at h
  split at h
  · cases h
  · next hget =>
      dsimp only at h
      split at h
      · next hdigest =>
          cases h
          exact ⟨getAs_ok hget, hdigest⟩
      · cases h

end RegistryClient
end FunctionWasm

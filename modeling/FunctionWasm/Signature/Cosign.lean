import Mathlib.Data.Char
import Mathlib.Data.List.Lex
import Mathlib.Data.Finset.Insert
import FunctionWasm.Foundation.EntryMap
import FunctionWasm.Registry.Oci

/-!
# Cosign — checking the signatures of a module

A module in a registry is vouched for by a Sigstore bundle among the referrers of its manifest: one
signed by a configured key, or a keyless one that verifies against the trusted root and whose signer
the operator's policy trusts for the repository.  Digests found signed are remembered.

* `Verifier.verify` looks a digest up, else examines its referrers and remembers a success.
* `Verifier.checkBundle` checks one bundle; `Voucher` is what it was accepted on, for the history.
* `Verifier.setTrustedRoot` puts another root in use and forgets what was remembered.

What is used of the cryptographic libraries, of the readers of their formats and of the formatting
of a quoted string is `SigstoreLibrary`.
-/

namespace FunctionWasm
namespace Cosign

/-- A keyless signature's signer, as its certificate names it. -/
structure Signer where
  issuer : Text
  identity : Text
  deriving DecidableEq

structure Envelope where
  payload : Text
  payloadType : Text
  /-- The `sig` of each signature. -/
  signatures : List Text
  deriving DecidableEq

/-- A bundle as far as it is read here; the certificate is its JSON. -/
structure Bundle where
  mediaType : Text
  certificate : Option Text
  dsseEnvelope : Option Envelope
  deriving DecidableEq

/-- An in-toto statement; a subject is its digests by algorithm. -/
structure Statement where
  statementType : Text
  subject : List (Text → Option Text)
  predicateType : Text

/-- What a verified certificate names. -/
structure VerificationResult where
  identity : Option Text
  issuer : Option Text

class SigstoreLibrary extends RegistryLibrary where
  VerificationKey : Type
  BundleVerifier : Type
  TrustedRoot : Type
  SigstoreBundle : Type
  Sha256Hash : Type
  /-- `VerificationKey::verify` on a message and a signature. -/
  keyVerify : VerificationKey → Bytes → Bytes → Bool
  rootFromJson : Text → Except Text TrustedRoot
  newBundleVerifier : TrustedRoot → Except Text BundleVerifier
  sigstoreBundleFromJson : Text → Except Text SigstoreBundle
  hashFromHex : Text → Except Text Sha256Hash
  bundleVerify : BundleVerifier → Sha256Hash → SigstoreBundle → Except Text VerificationResult
  bundleFromSlice : Bytes → Except Text Bundle
  statementFromSlice : Bytes → Except Text Statement
  base64Standard : Text → Option Bytes
  base64UrlSafe : Text → Option Bytes
  debug : Text → Text

open SigstoreLibrary

def bundleMediaType : Text := "application/vnd.dev.sigstore.bundle.v0.3+json".toList

def inTotoPayloadType : Text := "application/vnd.in-toto+json".toList

def inTotoStatement : Text := "https://in-toto.io/Statement/v1".toList

def cosignSignPredicate : Text := "https://sigstore.dev/cosign/sign/v1".toList

def maxBundleSize : Nat := 2 ^ 20

def maxManifestSize : Nat := 4 * 2 ^ 20

def maxReferrers : Nat := 32

variable [SigstoreLibrary]

/-- The keyless half: the trusted root in use, or why there is none. -/
inductive Keyless where
  | off
  | pending (inst : Text) (lastError : Option Text)
  | ready (verifier : BundleVerifier) (rootHash : Option Bytes)

/-- The keys and the policy are fixed; the root and the memo of digests found signed change. -/
structure Verifier where
  keys : List VerificationKey
  policy : Option (Text → Signer → Bool)
  keyless : Keyless
  verified : Finset Text

/-- What a bundle was accepted on. -/
inductive Voucher where
  | key
  | signer (s : Signer)
  deriving DecidableEq

/-! ## One bundle -/

def decodeBase64 (s : Text) : Option Bytes :=
  (base64Standard s).or (base64UrlSafe s)

/-- The encoding that an envelope's signatures sign. -/
def pae (payloadType : Text) (payload : Bytes) : Bytes :=
  textBytes ("DSSEv1 ".toList ++ natText (textBytes payloadType).length ++ " ".toList ++ payloadType ++
    " ".toList ++ natText payload.length ++ " ".toList) ++ payload

/-- The hex part of a digest. -/
def digestHex (digest : Text) : Text :=
  if "sha256:".toList.isPrefixOf digest then digest.drop 7 else digest

/-- The part of the signed statement that makes it a cosign signature of `digest`. -/
def checkStatement (payload : Bytes) (digest : Text) : Except Text Unit :=
  match statementFromSlice payload with
  | .error e => .error ("signed payload is not an in-toto statement: ".toList ++ e)
  | .ok statement =>
      if statement.statementType ≠ inTotoStatement then
        .error ("signed statement type is ".toList ++ debug statement.statementType ++
          ", want ".toList ++ inTotoStatement)
      else if statement.predicateType ≠ cosignSignPredicate then
        .error ("signed statement's predicate type is ".toList ++ debug statement.predicateType ++
          ", not ".toList ++ cosignSignPredicate)
      else if statement.subject.any fun s => s "sha256".toList = some (digestHex digest) then .ok ()
      else .error "signed statement is for another digest".toList

/-- The first half of `check_bundle_content`: a bundle with a DSSE envelope and its payload. -/
def openBundle (raw : Bytes) : Except Text (Bundle × Envelope × Bytes) :=
  match bundleFromSlice raw with
  | .error e => .error ("Sigstore bundle is not valid JSON: ".toList ++ e)
  | .ok bundle =>
      if bundle.mediaType ≠ bundleMediaType then
        .error ("Sigstore bundle media type is ".toList ++ debug bundle.mediaType ++
          ", want ".toList ++ bundleMediaType)
      else
        match bundle.dsseEnvelope with
        | none =>
            .error ("Sigstore bundle carries no DSSE envelope (a message signature signs a blob, " ++
              "not an image)").toList
        | some envelope =>
            if envelope.payloadType ≠ inTotoPayloadType then
              .error ("DSSE payload type is ".toList ++ debug envelope.payloadType ++
                ", want ".toList ++ inTotoPayloadType)
            else
              match decodeBase64 envelope.payload with
              | none => .error "DSSE payload is not base64".toList
              | some payload => .ok (bundle, envelope, payload)

/-- Whether checking the bundle takes the lock that the trusted root is behind. -/
def takesKeylessLock (raw : Bytes) : Bool :=
  match openBundle raw with
  | .error _ => false
  | .ok (bundle, _, _) => bundle.certificate.isSome

namespace Verifier

/-- The rules of the operator's policy; no policy, no trusted signer. -/
def trusts (v : Verifier) (repository : Text) (signer : Signer) : Bool :=
  v.policy.any fun p => p repository signer

def checkKeyless (v : Verifier) (verifier : BundleVerifier) (raw payload : Bytes)
    (digest repository : Text) : Except Text Voucher :=
  match utf8? raw with
  | none => .error "Sigstore bundle is not UTF-8".toList
  | some text =>
  match sigstoreBundleFromJson text with
  | .error e => .error ("Sigstore bundle does not parse as a Sigstore bundle: ".toList ++ e)
  | .ok bundle =>
  match hashFromHex (digestHex digest) with
  | .error e =>
      .error ("module digest ".toList ++ debug digest ++ " is not a sha256 digest: ".toList ++ e)
  | .ok subject =>
  match bundleVerify verifier subject bundle with
  | .error e =>
      .error ("keyless signature does not verify against the trusted root: ".toList ++ e)
  | .ok result =>
  match checkStatement payload digest with
  | .error e => .error e
  | .ok () =>
  match result.identity, result.issuer with
  | some identity, some issuer =>
      let signer : Signer := { issuer := issuer, identity := identity }
      if v.trusts repository signer then .ok (.signer signer)
      else
        .error ("keyless signature by ".toList ++ signer.identity ++ " (issuer ".toList ++
          signer.issuer ++ ") is not trusted for ".toList ++ repository ++
          ": no trustSigner rule in the operator policy permits it".toList)
  | _, _ =>
      .error "keyless signature's certificate names no signer identity or OIDC issuer".toList

/-- Whether one of the signatures verifies with one of the keys. -/
def verifiesWithKeys (v : Verifier) (envelope : Envelope) (payload : Bytes) : Bool :=
  let signed := pae envelope.payloadType payload
  (envelope.signatures.filterMap decodeBase64).any fun sig =>
    v.keys.any fun key => keyVerify key signed sig

def checkBundleContent (v : Verifier) (raw : Bytes) (digest repository : Text) :
    Except Text Voucher :=
  match openBundle raw with
  | .error e => .error e
  | .ok (bundle, envelope, payload) =>
      if bundle.certificate.isSome then
        -- under the read lock
        match v.keyless with
        | .off =>
            .error ("keyless signature cannot be verified: the runtime has neither " ++
              "--cosign-trusted-root nor --cosign-trust-instance").toList
        | .pending inst lastError =>
            .error ("keyless signature cannot be verified: the trusted root of ".toList ++ inst ++
              " has not been fetched yet".toList ++
              match lastError with
              | some e => " (the last attempt failed: ".toList ++ e ++ ")".toList
              | none => [])
        | .ready verifier _ => v.checkKeyless verifier raw payload digest repository
      else if v.keys.isEmpty then
        .error "key-based signature cannot be verified: the runtime has no --cosign-key".toList
      else if v.verifiesWithKeys envelope payload then
        -- only a payload a key vouched for is read any further
        match checkStatement payload digest with
        | .error e => .error e
        | .ok () => .ok .key
      else .error "signature does not verify with the configured keys".toList

/-- The bytes of a bundle layer, bounded and verified against its digest. -/
def fetchBundle (client : RegistryClient) (layer : Descriptor) (s : Session) :
    Except Text Bytes × Session :=
  if 0 ≤ layer.size ∧ layer.size ≤ maxBundleSize then
    client.verifiedBlob layer.digest maxBundleSize "Sigstore bundle".toList s
  else
    (.error ("Sigstore bundle ".toList ++ layer.digest ++ " of ".toList ++
      (toString layer.size).toList ++ " bytes exceeds the size limit of ".toList ++
      natText maxBundleSize ++ " bytes".toList), s)

def checkBundle (v : Verifier) (client : RegistryClient) (layer : Descriptor)
    (digest repository : Text) (s : Session) : Except Text Voucher × Session :=
  match fetchBundle client layer s with
  | (.error e, s) => (.error e, s)
  | (.ok raw, s) => (v.checkBundleContent raw digest repository, s)

end Verifier

/-! ## The referrers of a digest -/

/-- What the loops of `verify` collect: how many bundles were seen, and why they were refused. -/
structure Tally where
  bundles : Nat
  reasons : List Text

def Tally.note (t : Tally) (reason : Text) : Tally :=
  { t with reasons := reason :: t.reasons }

inductive Examination where
  | accepted (voucher : Voucher)
  | refused (tally : Tally)

def isSubject (digest : Text) (m : OciManifest) : Bool :=
  m.subject.any fun s => s.digest = digest

def bundleLayers (m : OciManifest) : List Descriptor :=
  m.layers.filter fun l => l.mediaType = bundleMediaType

/-- Only an image manifest can carry a bundle layer. -/
def imageManifests (referrers : List Descriptor) : List Descriptor :=
  referrers.filter fun d => d.mediaType = ociManifestType

def sepBy (sep : Text) : List Text → Text
  | [] => []
  | [t] => t
  | t :: ts => t ++ sep ++ sepBy sep ts

/-- The refusal of a digest that no bundle vouched for, with its reasons sorted and once each. -/
def noSignature (manifests : Nat) (repository digest : Text) (t : Tally) : Text :=
  let t :=
    if maxReferrers < manifests then
      t.note ("only the first ".toList ++ natText maxReferrers ++ " of its ".toList ++
        natText manifests ++ " referrers were examined".toList)
    else t
  let name := repository ++ "@".toList ++ digest
  if t.bundles = 0 ∧ t.reasons = [] then
    name ++ " carries no cosign signature (no Sigstore bundle among its referrers)".toList
  else
    "no valid cosign signature for ".toList ++ name ++ ": ".toList ++
      sepBy "; ".toList (sortedKeys t.reasons)

namespace Verifier

def examineLayers (v : Verifier) (client : RegistryClient) (digest repository : Text) :
    List Descriptor → Tally → Session → Examination × Session
  | [], t, s => (.refused t, s)
  | layer :: layers, t, s =>
      let t := { t with bundles := t.bundles + 1 }
      match v.checkBundle client layer digest repository s with
      | (.ok voucher, s) => (.accepted voucher, s)
      | (.error reason, s) => examineLayers v client digest repository layers (t.note reason) s

def examineReferrers (v : Verifier) (client : RegistryClient) (digest repository : Text) :
    List Descriptor → Tally → Session → Examination × Session
  | [], t, s => (.refused t, s)
  | descriptor :: descriptors, t, s =>
      match client.manifestByDigest descriptor.digest maxManifestSize s with
      | (.error e, s) => examineReferrers v client digest repository descriptors (t.note e) s
      | (.ok referrer, s) =>
          -- the listing is not pinned: a referrer counts only if it names the manifest
          if isSubject digest referrer then
            match v.examineLayers client digest repository (bundleLayers referrer) t s with
            | (.accepted voucher, s) => (.accepted voucher, s)
            | (.refused t, s) => examineReferrers v client digest repository descriptors t s
          else examineReferrers v client digest repository descriptors t s

/-- What `verify` does with a digest that is not remembered. -/
def examine (v : Verifier) (client : RegistryClient) (reference : OciReference) (s : Session) :
    Except Text Voucher × Session :=
  match client.referrers reference.digest maxManifestSize s with
  | (.error e, s) => (.error e, s)
  | (.ok referrers, s) =>
      let manifests := imageManifests referrers
      match v.examineReferrers client reference.digest reference.location
          (manifests.take maxReferrers) { bundles := 0, reasons := [] } s with
      | (.accepted voucher, s) => (.ok voucher, s)
      | (.refused t, s) =>
          (.error (noSignature manifests.length reference.location reference.digest t), s)

def remember (v : Verifier) (digest : Text) : Verifier :=
  { v with verified := insert digest v.verified }

/-- Checks that the pinned manifest carries a signature this verifier accepts. -/
def verify (v : Verifier) (client : RegistryClient) (reference : OciReference) (s : Session) :
    Except Text Unit × Verifier × Session :=
  if reference.digest ∈ v.verified then (.ok (), v, s)
  else
    match v.examine client reference s with
    | (.ok _, s) => (.ok (), v.remember reference.digest, s)
    | (.error e, s) => (.error e, v, s)

/-- The keys and the policy stay as they were configured. -/
theorem verify_fixed (v : Verifier) (client : RegistryClient) (reference : OciReference)
    (s : Session) :
    (v.verify client reference s).2.1.keys = v.keys ∧
      (v.verify client reference s).2.1.policy = v.policy := by
  unfold verify
  split
  · exact ⟨rfl, rfl⟩
  · split <;> exact ⟨rfl, rfl⟩

/-! ## The trusted root -/

/-- The root read from `raw`, with the hash of its bytes. -/
def readRoot (raw : Bytes) : Except Text (BundleVerifier × Bytes) :=
  match utf8? raw with
  | none => .error "Sigstore trusted root is not UTF-8".toList
  | some text =>
      match rootFromJson text with
      | .error e => .error ("cannot parse Sigstore trusted root: ".toList ++ e)
      | .ok root =>
          match newBundleVerifier root with
          | .error e => .error ("cannot use the Sigstore trusted root: ".toList ++ e)
          | .ok verifier => .ok (verifier, RegistryLibrary.sha256 raw)

/-- Whether the root in use was read from bytes with this hash. -/
def inUse (v : Verifier) (hash : Bytes) : Bool :=
  match v.keyless with
  | .ready _ (some current) => current = hash
  | _ => false

/-- The first half of a change of root, which takes the write lock. -/
def putInUse (v : Verifier) (verifier : BundleVerifier) (hash : Bytes) : Verifier :=
  { v with keyless := .ready verifier (some hash) }

/-- The second half, after which the lock is released. -/
def forget (v : Verifier) : Verifier :=
  { v with verified := ∅ }

def setTrustedRoot (v : Verifier) (raw : Bytes) : Except Text Bool × Verifier :=
  match readRoot raw with
  | .error e => (.error e, v)
  | .ok (verifier, hash) =>
      if v.inUse hash then (.ok false, v)
      else (.ok true, (v.putInUse verifier hash).forget)

def noteUnavailable (v : Verifier) (error : Text) : Verifier :=
  match v.keyless with
  | .pending inst _ => { v with keyless := .pending inst (some error) }
  | _ => v

end Verifier
end Cosign
end FunctionWasm

import FunctionWasm.Signature.PerRepository

/-!
# Soundness — what a fresh verifier accepts

Nothing is remembered yet, so a success stands on what this call was served: every document is the
registry's, and each is tied to the next by a digest, a subject or a signature.

* `SignatureStatement` is the signed statement of a digest, `SignedBundle` a bundle around one.
* `checkBundleContent_signed` says that an accepted bundle is one.
* `verify_fresh_sound` is the whole chain, from the listing to the statement.
-/

namespace FunctionWasm
namespace Cosign

open SigstoreLibrary

section Soundness

variable [SigstoreLibrary]

/-- A statement of the expected types with a subject whose sha256 is the digest. -/
def SignatureStatement (payload : Bytes) (digest : Text) : Prop :=
  ∃ statement subject, statementFromSlice payload = .ok statement ∧
    statement.statementType = inTotoStatement ∧
    statement.predicateType = cosignSignPredicate ∧
    subject ∈ statement.subject ∧
    subject "sha256".toList = some (digestHex digest)

/-- The bytes are a bundle with a DSSE envelope around an in-toto payload. -/
structure DsseBundle (raw : Bytes) (bundle : Bundle) (envelope : Envelope) (payload : Bytes) :
    Prop where
  parsed : bundleFromSlice raw = .ok bundle
  mediaType : bundle.mediaType = bundleMediaType
  opened : bundle.dsseEnvelope = some envelope
  inToto : envelope.payloadType = inTotoPayloadType
  decoded : decodeBase64 envelope.payload = some payload

/-- One of the envelope's signatures is a configured key's, over the encoding of the payload. -/
def SignedByKey (v : Verifier) (envelope : Envelope) (payload : Bytes) : Prop :=
  ∃ sig ∈ envelope.signatures.filterMap decodeBase64, ∃ key ∈ v.keys,
    keyVerify key (pae envelope.payloadType payload) sig = true

/-- The bundle verifies against the root in use, and names a signer trusted for the repository. -/
def SignedKeyless (v : Verifier) (raw : Bytes) (digest repository : Text) : Prop :=
  ∃ verifier rootHash text sigstoreBundle subject result signer,
    v.keyless = .ready verifier rootHash ∧
    utf8? raw = some text ∧
    sigstoreBundleFromJson text = .ok sigstoreBundle ∧
    hashFromHex (digestHex digest) = .ok subject ∧
    bundleVerify verifier subject sigstoreBundle = .ok result ∧
    result.identity = some signer.identity ∧
    result.issuer = some signer.issuer ∧
    v.trusts repository signer = true

/-- A bundle that vouches for the digest in the repository. -/
def SignedBundle (v : Verifier) (raw : Bytes) (digest repository : Text) : Prop :=
  ∃ bundle envelope payload, DsseBundle raw bundle envelope payload ∧
    SignatureStatement payload digest ∧
    (bundle.certificate = none ∧ SignedByKey v envelope payload ∨
      bundle.certificate.isSome = true ∧ SignedKeyless v raw digest repository)

/-! ## One bundle -/

theorem openBundle_ok {raw payload : Bytes} {bundle : Bundle} {envelope : Envelope}
    (h : openBundle raw = .ok (bundle, envelope, payload)) :
    DsseBundle raw bundle envelope payload := by
  unfold openBundle at h
  split at h
  · cases h
  · next bundle' hparsed =>
      split at h
      · cases h
      · next hmedia =>
          split at h
          · cases h
          · next envelope' henvelope =>
              split at h
              · cases h
              · next htype =>
                  split at h
                  · cases h
                  · next payload' hpayload =>
                      cases h
                      exact ⟨hparsed, not_not.1 hmedia, henvelope, not_not.1 htype, hpayload⟩

theorem checkStatement_ok {payload : Bytes} {digest : Text}
    (h : checkStatement payload digest = .ok ()) : SignatureStatement payload digest := by
  unfold checkStatement at h
  split at h
  · cases h
  · next statement hparsed =>
      split at h
      · cases h
      · next htype =>
          split at h
          · cases h
          · next hpredicate =>
              split at h
              · next hsubject =>
                  rcases List.any_eq_true.1 hsubject with ⟨subject, hmem, heq⟩
                  exact ⟨statement, subject, hparsed, not_not.1 htype, not_not.1 hpredicate, hmem,
                    of_decide_eq_true heq⟩
              · cases h

/-- A keyless check answers with the signer. -/
theorem checkKeyless_isKeyless {v : Verifier} {verifier : BundleVerifier} {raw payload : Bytes}
    {digest repository : Text} {voucher : Voucher}
    (h : v.checkKeyless verifier raw payload digest repository = .ok voucher) :
    voucher.isKeyless = true := by
  cases voucher with
  | signer s => rfl
  | key =>
      unfold Verifier.checkKeyless at h
      -- no branch ends in a key
      repeat' first | split at h | dsimp only at h
      all_goals cases h

/-- A certificate decides which of the two ways a bundle is checked. -/
theorem checkBundleContent_certificate {v : Verifier} {raw : Bytes} {digest repository : Text}
    {voucher : Voucher} (h : v.checkBundleContent raw digest repository = .ok voucher) :
    ∃ bundle envelope payload, openBundle raw = .ok (bundle, envelope, payload) ∧
      bundle.certificate.isSome = voucher.isKeyless := by
  unfold Verifier.checkBundleContent at h
  split at h
  · cases h
  · next bundle envelope payload hopen =>
      refine ⟨bundle, envelope, payload, hopen, ?_⟩
      split at h
      · next hcertificate =>
          split at h
          · cases h
          · cases h
          · rw [hcertificate, checkKeyless_isKeyless h]
      · next hcertificate =>
          split at h
          · cases h
          · split at h
            · split at h
              · cases h
              · cases h
                simpa [Voucher.isKeyless] using hcertificate
            · cases h

/-- An accepted bundle vouches for the digest in the repository. -/
theorem checkBundleContent_signed {v : Verifier} {raw : Bytes} {digest repository : Text}
    {voucher : Voucher} (h : v.checkBundleContent raw digest repository = .ok voucher) :
    SignedBundle v raw digest repository := by
  rcases checkBundleContent_certificate h with ⟨bundle, envelope, payload, hopen, hcertificate⟩
  rcases Verifier.checkBundleContent_ok h with ⟨hholds, hstands⟩
  cases voucher with
  | key =>
      rcases hholds with ⟨b, e, p, sig, key, hopen', hsig, hkey, hverify, hstatement⟩
      rw [hopen] at hopen'
      cases hopen'
      refine ⟨bundle, envelope, payload, openBundle_ok hopen, checkStatement_ok hstatement,
        .inl ⟨?_, sig, hsig, key, hkey, hverify⟩⟩
      simpa [Voucher.isKeyless] using hcertificate
  | signer signer =>
      rcases hholds with ⟨verifier, rootHash, b, e, p, text, sigstoreBundle, subject, result,
        hkeyless, hopen', htext, hparse, hhash, hverify, hstatement, hidentity, hissuer⟩
      rw [hopen] at hopen'
      cases hopen'
      exact ⟨bundle, envelope, payload, openBundle_ok hopen, checkStatement_ok hstatement,
        .inr ⟨hcertificate, verifier, rootHash, text, sigstoreBundle, subject, result, signer,
          hkeyless, htext, hparse, hhash, hverify, hidentity, hissuer, hstands⟩⟩

/-! ## The whole chain -/

/-- In the exchanges of `log`, the manifest that `d` lists hashes to its digest and names `digest`
as its subject, and a bundle layer of it hashes to the layer's digest and is `raw`. -/
def ChainTo (client : RegistryClient) (log : List Exchange) (digest : Text) (d : Descriptor)
    (raw : Bytes) : Prop :=
  ∃ document referrer subject layer,
    Served log (client.manifestUrl d.digest) document ∧
    RegistryClient.contentDigest document = d.digest ∧
    RegistryLibrary.manifestFromJson document = .ok referrer ∧
    referrer.subject = some subject ∧ subject.digest = digest ∧
    layer ∈ referrer.layers ∧ layer.mediaType = bundleMediaType ∧
    Served log (client.blobUrl layer.digest) raw ∧
    RegistryClient.contentDigest raw = layer.digest

theorem chainTo_of_attachedBy {client : RegistryClient} {log : List Exchange} {digest : Text}
    {d : Descriptor} {raw : Bytes} (h : AttachedBy client log digest d raw) :
    ChainTo client log digest d raw := by
  rcases h with ⟨document, referrer, layer, hdocument, hdigest, hparse, hsubject, hlayer, hraw,
    hrawDigest⟩
  rcases List.mem_filter.1 hlayer with ⟨hmem, htype⟩
  cases hreferrer : referrer.subject with
  | none => simp [isSubject, hreferrer] at hsubject
  | some subject =>
      have hsame : subject.digest = digest := by simpa [isSubject, hreferrer] using hsubject
      exact ⟨document, referrer, subject, layer, hdocument, hdigest, hparse, hreferrer, hsame, hmem,
        of_decide_eq_true htype, hraw, hrawDigest⟩

/-- A verifier that remembers nothing finds a digest signed only on a chain from one of the first
image manifests of the listing to a bundle that vouches for the digest in the repository. -/
theorem verify_fresh_sound {v v' : Verifier} {client : RegistryClient} {reference : OciReference}
    {s s' : Session} (hfresh : v.verified = ∅)
    (h : v.verify client reference s = (.ok (), v', s')) :
    ∃ referrers s₁, client.referrers reference.digest maxManifestSize s = (.ok referrers, s₁) ∧
      ∃ d ∈ (referrers.filter fun d => d.mediaType = ociManifestType).take maxReferrers, ∃ raw,
        ChainTo client s'.log reference.digest d raw ∧
        SignedBundle v raw reference.digest reference.location := by
  unfold Verifier.verify at h
  rw [if_neg (by simp [hfresh])] at h
  split at h
  · next voucher s₂ hexamine =>
      cases h
      rcases Verifier.examine_listed hexamine with
        ⟨referrers, s₁, hlist, d, hd, raw, hattached, hcheck⟩
      exact ⟨referrers, s₁, hlist, d, hd, raw, chainTo_of_attachedBy hattached,
        checkBundleContent_signed hcheck⟩
  · cases h

end Soundness

section Examples

attribute [local instance] fixtureLibrary

/-- The fixture's repository is verified by a verifier that remembers nothing. -/
theorem fixture_chain :
    ∃ referrers s₁, fixtureCall.client.referrers fixtureCall.reference.digest maxManifestSize
        fixtureCall.session = (.ok referrers, s₁) ∧
      ∃ d ∈ (referrers.filter fun d => d.mediaType = ociManifestType).take maxReferrers, ∃ raw,
        ChainTo fixtureCall.client
          (fixtureStart.verifier.verify fixtureCall.client fixtureCall.reference
            fixtureCall.session).2.2.log fixtureCall.reference.digest d raw ∧
        SignedBundle fixtureStart.verifier raw fixtureCall.reference.digest
          fixtureCall.reference.location := by
  have hok : (fixtureStart.verifier.verify fixtureCall.client fixtureCall.reference
      fixtureCall.session).1 = .ok () := by
    decide +kernel
  rcases hrun : fixtureStart.verifier.verify fixtureCall.client fixtureCall.reference
    fixtureCall.session with ⟨r, v', s'⟩
  rw [hrun] at hok
  cases hok
  exact verify_fresh_sound rfl hrun

end Examples
end Cosign
end FunctionWasm

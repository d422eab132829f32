import FunctionWasm.Signature.Cosign

/-!
# Evidence — what an accepted signature stands on

The checks run in an order and stop at the first failure; what a success stands on is said here
without either.

* `Attached` is a bundle that a registry served as attached to a digest.
* `KeySigned` and `SignedBy` are the two ways a bundle vouches for a digest.
* `checkBundleContent_ok` and `examine_ok` say that every success has such evidence.
-/

namespace FunctionWasm
namespace Cosign

open SigstoreLibrary

variable [SigstoreLibrary]

/-- In the exchanges of `log`, the registry served a referrer of `digest` and, as one of its bundle
layers, `raw`; both are what their digests pin. -/
def Attached (client : RegistryClient) (log : List Exchange) (digest : Text) (raw : Bytes) : Prop :=
  ∃ (listed : Text) (document : Bytes) (referrer : OciManifest) (layer : Descriptor),
    Served log (client.manifestUrl listed) document ∧
    RegistryClient.contentDigest document = listed ∧
    RegistryLibrary.manifestFromJson document = .ok referrer ∧
    isSubject digest referrer = true ∧
    layer ∈ bundleLayers referrer ∧
    Served log (client.blobUrl layer.digest) raw ∧
    RegistryClient.contentDigest raw = layer.digest

/-- The same, of one listed descriptor. -/
def AttachedBy (client : RegistryClient) (log : List Exchange) (digest : Text) (d : Descriptor)
    (raw : Bytes) : Prop :=
  ∃ (document : Bytes) (referrer : OciManifest) (layer : Descriptor),
    Served log (client.manifestUrl d.digest) document ∧
    RegistryClient.contentDigest document = d.digest ∧
    RegistryLibrary.manifestFromJson document = .ok referrer ∧
    isSubject digest referrer = true ∧
    layer ∈ bundleLayers referrer ∧
    Served log (client.blobUrl layer.digest) raw ∧
    RegistryClient.contentDigest raw = layer.digest

theorem AttachedBy.attached {client : RegistryClient} {log : List Exchange} {digest : Text}
    {d : Descriptor} {raw : Bytes} (h : AttachedBy client log digest d raw) :
    Attached client log digest raw := by
  rcases h with ⟨document, referrer, layer, h⟩
  exact ⟨d.digest, document, referrer, layer, h⟩

/-- A configured key signed the envelope, around a signature statement of `digest`. -/
def KeySigned (v : Verifier) (raw : Bytes) (digest : Text) : Prop :=
  ∃ bundle envelope payload sig key,
    openBundle raw = .ok (bundle, envelope, payload) ∧
    sig ∈ envelope.signatures.filterMap decodeBase64 ∧
    key ∈ v.keys ∧
    keyVerify key (pae envelope.payloadType payload) sig = true ∧
    checkStatement payload digest = .ok ()

/-- The bundle verifies against the root in use, for `digest`, around a signature statement of it,
and its certificate names `signer`. -/
def SignedBy (keyless : Keyless) (raw : Bytes) (digest : Text) (signer : Signer) : Prop :=
  ∃ verifier rootHash bundle envelope payload text sigstoreBundle subject result,
    keyless = .ready verifier rootHash ∧
    openBundle raw = .ok (bundle, envelope, payload) ∧
    utf8? raw = some text ∧
    sigstoreBundleFromJson text = .ok sigstoreBundle ∧
    hashFromHex (digestHex digest) = .ok subject ∧
    bundleVerify verifier subject sigstoreBundle = .ok result ∧
    checkStatement payload digest = .ok () ∧
    result.identity = some signer.identity ∧
    result.issuer = some signer.issuer

namespace Voucher

/-- What the voucher says of a bundle is so. -/
def Holds (v : Verifier) (raw : Bytes) (digest : Text) : Voucher → Prop
  | .key => KeySigned v raw digest
  | .signer s => SignedBy v.keyless raw digest s

/-- A key vouches for every repository, a signer where the policy trusts it. -/
def standsFor (v : Verifier) (repository : Text) : Voucher → Bool
  | .key => true
  | .signer s => v.trusts repository s

def isKeyless : Voucher → Bool
  | .key => false
  | .signer _ => true

end Voucher

/-! ## One bundle -/

namespace Verifier

theorem checkKeyless_ok {v : Verifier} {verifier : BundleVerifier} {rootHash : Option Bytes}
    {raw payload : Bytes} {digest repository : Text} {bundle : Bundle} {envelope : Envelope}
    {voucher : Voucher} (hkeyless : v.keyless = .ready verifier rootHash)
    (hopen : openBundle raw = .ok (bundle, envelope, payload))
    (h : v.checkKeyless verifier raw payload digest repository = .ok voucher) :
    voucher.Holds v raw digest ∧ voucher.standsFor v repository = true := by
  unfold checkKeyless at h
  split at h
  · cases h
  next text htext =>
    split at h
    · cases h
    next sigstoreBundle hparse =>
      split at h
      · cases h
      next subject hhash =>
        split at h
        · cases h
        next result hverify =>
          split at h
          · cases h
          next hstatement =>
            split at h
            · next identity issuer hidentity hissuer =>
                dsimp only at h
                split at h
                · next htrusts =>
                    cases h
                    exact ⟨⟨verifier, rootHash, bundle, envelope, payload, text, sigstoreBundle,
                      subject, result, hkeyless, hopen, htext, hparse, hhash, hverify, hstatement,
                      hidentity, hissuer⟩, htrusts⟩
                · cases h
            · cases h

theorem verifiesWithKeys_iff {v : Verifier} {envelope : Envelope} {payload : Bytes} :
    v.verifiesWithKeys envelope payload = true ↔
      ∃ sig ∈ envelope.signatures.filterMap decodeBase64, ∃ key ∈ v.keys,
        keyVerify key (pae envelope.payloadType payload) sig = true := by
  simp only [verifiesWithKeys, List.any_eq_true]

/-- An accepted bundle vouches for the digest, by a key or by a signer trusted for the
repository. -/
theorem checkBundleContent_ok {v : Verifier} {raw : Bytes} {digest repository : Text}
    {voucher : Voucher} (h : v.checkBundleContent raw digest repository = .ok voucher) :
    voucher.Holds v raw digest ∧ voucher.standsFor v repository = true := by
  unfold checkBundleContent at h
  split at h
  · cases h
  next bundle envelope payload hopen =>
    split at h
    · split at h
      · cases h
      · cases h
      next verifier rootHash hkeyless =>
        exact checkKeyless_ok hkeyless hopen h
    · split at h
      · cases h
      · split at h
        · next hkeys =>
            rcases verifiesWithKeys_iff.1 hkeys with ⟨sig, hsig, key, hkey, hverify⟩
            split at h
            · cases h
            next hstatement =>
              cases h
              exact ⟨⟨bundle, envelope, payload, sig, key, hopen, hsig, hkey, hverify,
                hstatement⟩, rfl⟩
        · cases h

theorem fetchBundle_le {client : RegistryClient} {layer : Descriptor} {s s' : Session}
    {r : Except Text Bytes} (h : fetchBundle client layer s = (r, s')) : s.le s' := by
  unfold fetchBundle at h
  split at h
  · exact RegistryClient.verifiedBlob_le h
  · cases h
    exact Session.le_refl s

theorem fetchBundle_ok {client : RegistryClient} {layer : Descriptor} {s s' : Session}
    {raw : Bytes} (h : fetchBundle client layer s = (.ok raw, s')) :
    Served s'.log (client.blobUrl layer.digest) raw ∧
      RegistryClient.contentDigest raw = layer.digest := by
  unfold fetchBundle at h
  split at h
  · exact RegistryClient.verifiedBlob_ok h
  · cases h

theorem checkBundle_le {v : Verifier} {client : RegistryClient} {layer : Descriptor}
    {digest repository : Text} {s s' : Session} {r : Except Text Voucher}
    (h : v.checkBundle client layer digest repository s = (r, s')) : s.le s' := by
  unfold checkBundle at h
  split at h <;> next hfetch =>
    cases h
    exact fetchBundle_le hfetch

/-! ## The referrers -/

theorem examineLayers_le {v : Verifier} {client : RegistryClient} {digest repository : Text}
    {layers : List Descriptor} :
    ∀ {t : Tally} {s s' : Session} {e : Examination},
      v.examineLayers client digest repository layers t s = (e, s') → s.le s' := by
  induction layers with
  | nil =>
      intro t s s' e h
      cases h
      exact Session.le_refl s
  | cons layer layers ih =>
      intro t s s' e h
      simp only [examineLayers] at h
      split at h
      · next hcheck =>
          cases h
          exact checkBundle_le hcheck
      · next hcheck => exact Session.le_trans (checkBundle_le hcheck) (ih h)

/-- A layer of the list was fetched, and its content accepted. -/
theorem examineLayers_accepted {v : Verifier} {client : RegistryClient} {digest repository : Text}
    {layers : List Descriptor} :
    ∀ {t : Tally} {s s' : Session} {voucher : Voucher},
      v.examineLayers client digest repository layers t s = (.accepted voucher, s') →
        ∃ layer ∈ layers, ∃ raw, Served s'.log (client.blobUrl layer.digest) raw ∧
          RegistryClient.contentDigest raw = layer.digest ∧
          v.checkBundleContent raw digest repository = .ok voucher := by
  induction layers with
  | nil =>
      intro t s s' voucher h
      cases h
  | cons layer layers ih =>
      intro t s s' voucher h
      simp only [examineLayers] at h
      split at h
      · next hcheck =>
          cases h
          unfold checkBundle at hcheck
          split at hcheck
          · cases hcheck
          next raw s'' hfetch =>
            have hserved := fetchBundle_ok hfetch
            injection hcheck with hcontent hsession
            subst hsession
            exact ⟨layer, List.mem_cons_self .., raw, hserved.1, hserved.2, hcontent⟩
      · rcases ih h with ⟨l, hl, hfound⟩
        exact ⟨l, List.mem_cons_of_mem _ hl, hfound⟩

/-- A bundle attached to the digest by one of the listed manifests was accepted. -/
theorem examineReferrers_accepted {v : Verifier} {client : RegistryClient}
    {digest repository : Text} {descriptors : List Descriptor} :
    ∀ {t : Tally} {s s' : Session} {voucher : Voucher},
      v.examineReferrers client digest repository descriptors t s = (.accepted voucher, s') →
        ∃ d ∈ descriptors, ∃ raw, AttachedBy client s'.log digest d raw ∧
          v.checkBundleContent raw digest repository = .ok voucher := by
  induction descriptors with
  | nil =>
      intro t s s' voucher h
      cases h
  | cons d ds ih =>
      intro t s s' voucher h
      have hlater : ∀ {t : Tally} {s : Session},
          v.examineReferrers client digest repository ds t s = (.accepted voucher, s') →
            ∃ d' ∈ d :: ds, ∃ raw, AttachedBy client s'.log digest d' raw ∧
              v.checkBundleContent raw digest repository = .ok voucher := by
        intro t s h
        rcases ih h with ⟨d', hd', hfound⟩
        exact ⟨d', List.mem_cons_of_mem _ hd', hfound⟩
      simp only [examineReferrers] at h
      split at h
      · exact hlater h
      · next referrer s₁ hget =>
          split at h
          · next hsubject =>
              split at h
              · next hlayers =>
                  -- the referrer was read first: its exchange is among the later ones
                  cases h
                  rcases RegistryClient.manifestByDigest_ok hget with
                    ⟨document, hdocument, hdigest, hparse⟩
                  rcases examineLayers_accepted hlayers with
                    ⟨layer, hlayer, raw, hraw, hrawDigest, hcheck⟩
                  have hdocument' := hdocument.mono (examineLayers_le hlayers)
                  exact ⟨d, List.mem_cons_self .., raw, ⟨document, referrer, layer, hdocument',
                    hdigest, hparse, hsubject, hlayer, hraw, hrawDigest⟩, hcheck⟩
              · exact hlater h
          · exact hlater h

/-- An examination that succeeds found its bundle among the first of the listed manifests. -/
theorem examine_listed {v : Verifier} {client : RegistryClient} {reference : OciReference}
    {s s' : Session} {voucher : Voucher} (h : v.examine client reference s = (.ok voucher, s')) :
    ∃ referrers s₁, client.referrers reference.digest maxManifestSize s = (.ok referrers, s₁) ∧
      ∃ d ∈ (imageManifests referrers).take maxReferrers, ∃ raw,
        AttachedBy client s'.log reference.digest d raw ∧
        v.checkBundleContent raw reference.digest reference.location = .ok voucher := by
  unfold examine at h
  split at h
  · cases h
  · next referrers s₁ hlist =>
      dsimp only at h
      split at h
      · next hexamine =>
          cases h
          exact ⟨referrers, s₁, hlist, examineReferrers_accepted hexamine⟩
      · cases h

/-- An examination that succeeds has a bundle attached to the digest that vouches for it, by a key
or by a signer trusted for the reference's repository. -/
theorem examine_ok {v : Verifier} {client : RegistryClient} {reference : OciReference}
    {s s' : Session} {voucher : Voucher} (h : v.examine client reference s = (.ok voucher, s')) :
    voucher.standsFor v reference.location = true ∧
      ∃ raw, Attached client s'.log reference.digest raw ∧ voucher.Holds v raw reference.digest := by
  rcases examine_listed h with ⟨-, -, -, d, -, raw, hattached, hcheck⟩
  rcases checkBundleContent_ok hcheck with ⟨hholds, hstands⟩
  exact ⟨hstands, raw, hattached.attached, hholds⟩

end Verifier
end Cosign
end FunctionWasm

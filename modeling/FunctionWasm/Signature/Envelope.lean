import FunctionWasm.Foundation.Framing
import FunctionWasm.Signature.Soundness

/-!
# Envelope — what a signature over an envelope covers

A key signs the pre-authentication encoding of an envelope, not the envelope.  Both of its fields
are the sender's, and either may hold the digits and the spaces that the encoding is made with.

* `pae_eq_frames` says that the encoding is a header and two fields after their lengths.
* `pae_inj` says that it is the encoding of one envelope.
* `pae_binds` adds what follows for a bundle: signatures over one envelope are none over another.
-/

namespace FunctionWasm
namespace Cosign

open SigstoreLibrary

section Encoding

/-- The encoding is two fields after their lengths. -/
theorem pae_eq_frames (payloadType : Text) (payload : Bytes) :
    pae payloadType payload =
      textBytes "DSSEv1 ".toList ++ (frame (textBytes payloadType) ++ (0x20 :: frame payload)) := by
  have hspace : textBytes " ".toList = [0x20] := by decide
  have hnumber : ∀ n, natText n = decimalText n := toString_decimal
  simp only [pae, frame, textBytes_append, hspace, hnumber, List.append_assoc, List.cons_append,
    List.nil_append]

theorem pae_inj {t t' : Text} {p p' : Bytes} (h : pae t p = pae t' p') : t = t' ∧ p = p' := by
  rw [pae_eq_frames, pae_eq_frames] at h
  have hframes := List.append_cancel_left h
  obtain ⟨htype, hrest⟩ := frame_append_inj hframes
  have hpayload : frame p ++ [] = frame p' ++ [] := by rw [(List.cons.inj hrest).2]
  exact ⟨textBytes_inj.1 htype, (frame_append_inj hpayload).1⟩

end Encoding

section Signatures

variable [SigstoreLibrary]

/-- `sig` is a signature over this envelope: no key takes it for another message than the envelope's
encoding. -/
def SignsOnly (keys : List VerificationKey) (payloadType : Text) (payload sig : Bytes) : Prop :=
  ∀ key ∈ keys, ∀ signed, keyVerify key signed sig = true → signed = pae payloadType payload

/-- Signatures over an envelope verify for an envelope with its fields. -/
theorem SignedByKey.fields {v : Verifier} {envelope : Envelope} {payload : Bytes}
    (h : SignedByKey v envelope payload) {t : Text} {p : Bytes}
    (hsigs : ∀ sig ∈ envelope.signatures.filterMap decodeBase64, SignsOnly v.keys t p sig) :
    envelope.payloadType = t ∧ payload = p := by
  obtain ⟨sig, hsig, key, hkey, hverify⟩ := h
  have hsigned : pae envelope.payloadType payload = pae t p := hsigs sig hsig key hkey _ hverify
  exact pae_inj hsigned

/-- The encoding is that of one envelope, and so a bundle that a key vouches for holds the envelope
that its signatures are over. -/
theorem pae_binds :
    (∀ t t' p p', pae t p = pae t' p' → t = t' ∧ p = p') ∧
      ∀ (v : Verifier) (raw : Bytes) (digest repository : Text) (bundle : Bundle)
        (envelope : Envelope) (payload : Bytes) (t : Text) (p : Bytes),
        openBundle raw = .ok (bundle, envelope, payload) →
        (∀ sig ∈ envelope.signatures.filterMap decodeBase64, SignsOnly v.keys t p sig) →
        v.checkBundleContent raw digest repository = .ok .key →
        envelope.payloadType = t ∧ payload = p := by
  refine ⟨fun t t' p p' h => pae_inj h, ?_⟩
  intro v raw digest repository bundle envelope payload t p hopen hsigs hok
  obtain ⟨hholds, -⟩ := Verifier.checkBundleContent_ok hok
  obtain ⟨bundle', envelope', payload', sig, key, hopen', hsig, hkey, hverify, -⟩ := hholds
  rw [hopen] at hopen'
  cases hopen'
  have hsigned : SignedByKey v envelope payload := ⟨sig, hsig, key, hkey, hverify⟩
  exact hsigned.fields hsigs

end Signatures

/-! ## A bundle signed with a key -/

section Sample

/-- The fixture's libraries with a bundle 5 that is signed with a key; the signature of a message is
the message itself. -/
@[reducible] def keyLibrary : SigstoreLibrary :=
  { fixtureLibrary with
    VerificationKey := Unit
    keyVerify := fun _ signed sig => signed = sig
    bundleFromSlice := fun raw =>
      if raw = [5] then
        .ok
          { mediaType := bundleMediaType
            certificate := none
            dsseEnvelope :=
              some
                { payload := "BA==".toList
                  payloadType := inTotoPayloadType
                  signatures :=
                    ["RFNTRXYxIDI4IGFwcGxpY2F0aW9uL3ZuZC5pbi10b3RvK2pzb24gMSAE".toList] } }
      else .error "expected value at line 1 column 1".toList
    base64Standard := fun text =>
      if text = "BA==".toList then some [4]
      else if text = "RFNTRXYxIDI4IGFwcGxpY2F0aW9uL3ZuZC5pbi10b3RvK2pzb24gMSAE".toList then
        some (pae inTotoPayloadType [4])
      else none }

attribute [local instance] keyLibrary

def keyVerifier : Verifier where
  keys := [()]
  policy := none
  keyless := .off
  verified := ∅

def keyEnvelope : Envelope where
  payload := "BA==".toList
  payloadType := inTotoPayloadType
  signatures := ["RFNTRXYxIDI4IGFwcGxpY2F0aW9uL3ZuZC5pbi10b3RvK2pzb24gMSAE".toList]

/-- The bundle is accepted, and for the one envelope. -/
theorem key_bundle_binds :
    keyVerifier.checkBundleContent [5] fixtureDigest [] = .ok .key ∧
      keyEnvelope.payloadType = inTotoPayloadType ∧ ([4] : Bytes) = [4] := by
  have hok : keyVerifier.checkBundleContent [5] fixtureDigest [] = .ok .key := by decide +kernel
  refine ⟨hok, pae_binds.2 keyVerifier [5] fixtureDigest [] ⟨bundleMediaType, none, some keyEnvelope⟩
    keyEnvelope [4] inTotoPayloadType [4] rfl ?_ hok⟩
  intro sig hsig key _ signed hverify
  have hsame : signed = sig := of_decide_eq_true hverify
  have hdecoded : keyEnvelope.signatures.filterMap decodeBase64 = [pae inTotoPayloadType [4]] := rfl
  have hone : sig = pae inTotoPayloadType [4] := List.mem_singleton.1 (hdecoded ▸ hsig)
  exact hsame.trans hone

end Sample

end Cosign
end FunctionWasm

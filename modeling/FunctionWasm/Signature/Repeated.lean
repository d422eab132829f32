import FunctionWasm.Registry.Faithful
import FunctionWasm.Signature.Cosign

/-!
# Repeated — two verifications of one digest

The memo of a verifier saves requests.  What it is configured with and what the registry answers
decide the rest.

* `Verifier.settles_examine` says that an examination against faithful answers settles.
* `Verifier.SameButMemo` are the verifiers that differ in what they remember.
* `Verifier.verify_again`: what one of them found signed by asking, every other one accepts.
-/

namespace FunctionWasm
namespace Cosign

open RegistryClient

variable [SigstoreLibrary] {answer : RegistryRequest → Except Text Bytes}

namespace Verifier

theorem settles_checkBundle (v : Verifier) (client : RegistryClient) (layer : Descriptor)
    (digest repository : Text) :
    Settles (Faithful answer) (v.checkBundle client layer digest repository) := by
  have hfetch : Settles (Faithful answer) (fetchBundle client layer) := by
    unfold fetchBundle
    by_cases hsize : 0 ≤ layer.size ∧ layer.size ≤ maxBundleSize
    · simp only [if_pos hsize]
      exact settles_verifiedBlob _ _ _ _
    · simp only [if_neg hsize]
      exact .pure _
  apply hfetch.bind antitone_faithful
  unfold checkBundle
  rintro (e | raw)
  · exact ⟨_, .pure _, fun s t h => by rw [h]⟩
  · exact ⟨_, .pure _, fun s t h => by rw [h]⟩

theorem settles_examineLayers (v : Verifier) (client : RegistryClient) (digest repository : Text)
    (layers : List Descriptor) (tally : Tally) :
    Settles (Faithful answer) (v.examineLayers client digest repository layers tally) := by
  induction layers generalizing tally with
  | nil => exact .pure _
  | cons layer layers ih =>
      apply (v.settles_checkBundle client layer digest repository).bind antitone_faithful
      unfold examineLayers
      dsimp only
      rintro (reason | voucher)
      · exact ⟨_, ih _, fun s t h => by rw [h]⟩
      · exact ⟨_, .pure _, fun s t h => by rw [h]⟩

theorem settles_examineReferrers (v : Verifier) (client : RegistryClient)
    (digest repository : Text) (descriptors : List Descriptor) (tally : Tally) :
    Settles (Faithful answer) (v.examineReferrers client digest repository descriptors tally) := by
  induction descriptors generalizing tally with
  | nil => exact .pure _
  | cons descriptor descriptors ih =>
      apply (client.settles_manifestByDigest descriptor.digest maxManifestSize).bind
        antitone_faithful
      unfold examineReferrers
      rintro (e | referrer)
      · exact ⟨_, ih _, fun s t h => by rw [h]⟩
      · by_cases hsubject : isSubject digest referrer
        · refine ⟨_, ?_, fun s t h => by simp only [h, hsubject, if_true]; rfl⟩
          apply (v.settles_examineLayers client digest repository (bundleLayers referrer)
            tally).bind antitone_faithful
          rintro (voucher | tally)
          · exact ⟨_, .pure _, fun s t h => by rw [h]⟩
          · exact ⟨_, ih _, fun s t h => by rw [h]⟩
        · exact ⟨_, ih _, fun s t h => by rw [h]; exact if_neg hsubject⟩

/-- What an examination comes to does not depend on when it is made. -/
theorem settles_examine (v : Verifier) (client : RegistryClient) (reference : OciReference) :
    Settles (Faithful answer) (v.examine client reference) := by
  apply (client.settles_referrers reference.digest maxManifestSize).bind antitone_faithful
  unfold examine
  rintro (e | referrers)
  · exact ⟨_, .pure _, fun s t h => by rw [h]⟩
  · refine ⟨_, ?_, fun s t h => by simp only [h]; rfl⟩
    apply (v.settles_examineReferrers client reference.digest reference.location
      ((imageManifests referrers).take maxReferrers) { bundles := 0, reasons := [] }).bind
      antitone_faithful
    rintro (voucher | tally)
    · exact ⟨_, .pure _, fun s t h => by rw [h]⟩
    · exact ⟨_, .pure _, fun s t h => by rw [h]⟩

/-! ## The memo -/

/-- Two verifiers of one configuration. -/
def SameButMemo (v v' : Verifier) : Prop :=
  v' = { v with verified := v'.verified }

theorem examineLayers_memo (v : Verifier) (memo : Finset Text) (client : RegistryClient)
    (digest repository : Text) (layers : List Descriptor) (tally : Tally) (s : Session) :
    examineLayers { v with verified := memo } client digest repository layers tally s =
      v.examineLayers client digest repository layers tally s := by
  induction layers generalizing tally s with
  | nil => rfl
  | cons layer layers ih =>
      have hbundle : checkBundle { v with verified := memo } client layer digest repository s =
          v.checkBundle client layer digest repository s := rfl
      unfold examineLayers
      dsimp only
      rw [hbundle]
      split
      · rfl
      · exact ih _ _

theorem examineReferrers_memo (v : Verifier) (memo : Finset Text) (client : RegistryClient)
    (digest repository : Text) (descriptors : List Descriptor) (tally : Tally) (s : Session) :
    examineReferrers { v with verified := memo } client digest repository descriptors tally s =
      v.examineReferrers client digest repository descriptors tally s := by
  induction descriptors generalizing tally s with
  | nil => rfl
  | cons descriptor descriptors ih =>
      unfold examineReferrers
      split
      · exact ih _ _
      · split
        · rw [examineLayers_memo]
          split
          · rfl
          · exact ih _ _
        · exact ih _ _

/-- An examination has no use for the memo. -/
theorem examine_memo (v : Verifier) (memo : Finset Text) (client : RegistryClient)
    (reference : OciReference) (s : Session) :
    examine { v with verified := memo } client reference s = v.examine client reference s := by
  unfold examine
  simp only [examineReferrers_memo]

/-- What a verifier without a memory of the digest found signed, one of the same configuration
accepts. -/
theorem verify_again {v v' : Verifier} {client : RegistryClient} {reference : OciReference}
    {s s' : Session} (hsame : SameButMemo v v') (hnew : reference.digest ∉ v.verified)
    (h : (v.verify client reference s).1 = .ok ())
    (hs : Faithful answer (v.verify client reference s).2.2)
    (hs' : Faithful answer (v'.verify client reference s').2.2) :
    (v'.verify client reference s').1 = .ok () := by
  unfold verify at h hs hs' ⊢
  by_cases hknown : reference.digest ∈ v'.verified
  · rw [if_pos hknown]
  · rw [if_neg hnew] at h hs
    rw [if_neg hknown] at hs' ⊢
    have hexamine : v'.examine client reference s' = v.examine client reference s' := by
      unfold SameButMemo at hsame
      rw [hsame]
      exact examine_memo v _ client reference s'
    rw [hexamine] at hs' ⊢
    have hone : Faithful answer (v.examine client reference s).2 →
        Faithful answer (v.examine client reference s').2 →
        (v.examine client reference s).1 = (v.examine client reference s').1 :=
      (v.settles_examine client reference).same s s'
    rcases hrun : v.examine client reference s with ⟨_ | voucher, t⟩
    · rw [hrun] at h
      cases h
    · rcases hrun' : v.examine client reference s' with ⟨e | voucher', t'⟩
      · rw [hrun] at hs hone
        rw [hrun'] at hs' hone
        have hdiffer := hone hs hs'
        cases hdiffer
      · rfl

end Verifier
end Cosign
end FunctionWasm

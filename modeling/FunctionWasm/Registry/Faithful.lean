import FunctionWasm.Foundation.Replay
import FunctionWasm.Registry.Layers

/-!
# Faithful — a registry that answers a request the same whenever it is asked

* `Faithful` says that every answer in a session is the one that belongs to its request.
* Against faithful answers the requests of the client settle: `settles_getAs` and what is built of it.
-/

namespace FunctionWasm

instance : Preorder Session where
  le := Session.le
  le_refl := Session.le_refl
  le_trans := fun _ _ _ => Session.le_trans

/-- Every request was answered as `answer` says. -/
def Faithful (answer : RegistryRequest → Except Text Bytes) (s : Session) : Prop :=
  ∀ x ∈ s.log, x.answer = answer x.request

section Requests

variable {answer : RegistryRequest → Except Text Bytes}

theorem antitone_faithful : Antitone (Faithful answer) := by
  intro s s' hle h x hx
  exact h x (hle hx)

/-- The answer to the next request is the one that belongs to it. -/
theorem Faithful.ask {request : RegistryRequest} {s : Session}
    (h : Faithful answer (s.ask request).2) : (s.ask request).1 = answer request := by
  have hmem : (⟨request, s.answers s.log.length⟩ : Exchange) ∈ (s.ask request).2.log := by
    simp [Session.ask]
  exact h _ hmem

theorem settles_ask (request : RegistryRequest) :
    Settles (Faithful answer) (Session.ask request) where
  grows := Session.ask_le request
  same := fun _ _ hs hs' => hs.ask.trans hs'.ask.symm

namespace RegistryClient

/-- The requests of the client ask once, and what they return is read off the answer. -/
theorem settles_getAs (url : Text) (accept : Option Text) (limit : Nat) (what : Text) :
    Settles (Faithful answer) (getAs url accept limit what) := by
  apply (settles_ask ⟨url, accept⟩).bind antitone_faithful
  unfold getAs
  rintro (e | body)
  · exact ⟨_, .pure _, fun s t h => by rw [h]⟩
  · by_cases hlimit : limit < body.length
    · exact ⟨_, .pure _, fun s t h => by rw [h]; exact if_pos hlimit⟩
    · exact ⟨_, .pure _, fun s t h => by rw [h]; exact if_neg hlimit⟩

theorem settles_blob (c : RegistryClient) (digest : Text) (limit : Nat) (label : Text) :
    Settles (Faithful answer) (c.blob digest limit label) := by
  apply (settles_getAs (c.blobUrl digest) none limit "module".toList).bind antitone_faithful
  unfold blob
  rintro (e | body)
  · exact ⟨_, .pure _, fun s t h => by rw [h]⟩
  · exact ⟨_, .pure _, fun s t h => by rw [h]⟩

section Documents

variable [RegistryLibrary]

theorem settles_manifestByDigest (c : RegistryClient) (digest : Text) (limit : Nat) :
    Settles (Faithful answer) (c.manifestByDigest digest limit) := by
  apply (settles_getAs (c.manifestUrl digest) (some manifestAccept) limit
    "manifest".toList).bind antitone_faithful
  unfold manifestByDigest
  rintro (e | raw)
  · exact ⟨_, .pure _, fun s t h => by rw [h]⟩
  · by_cases hdigest : contentDigest raw = digest
    · cases hparse : RegistryLibrary.manifestFromJson raw with
      | error e => exact ⟨_, .pure _, fun s t h => by simp only [h, hdigest, hparse, if_true]; rfl⟩
      | ok m => exact ⟨_, .pure _, fun s t h => by simp only [h, hdigest, hparse, if_true]; rfl⟩
    · exact ⟨_, .pure _, fun s t h => by rw [h]; exact if_neg hdigest⟩

theorem settles_verifiedBlob (c : RegistryClient) (digest : Text) (limit : Nat) (label : Text) :
    Settles (Faithful answer) (c.verifiedBlob digest limit label) := by
  apply (settles_getAs (c.blobUrl digest) none limit label).bind antitone_faithful
  unfold verifiedBlob
  rintro (e | raw)
  · exact ⟨_, .pure _, fun s t h => by rw [h]⟩
  · by_cases hdigest : contentDigest raw = digest
    · exact ⟨_, .pure _, fun s t h => by rw [h]; exact if_pos hdigest⟩
    · exact ⟨_, .pure _, fun s t h => by rw [h]; exact if_neg hdigest⟩

theorem settles_manifest (c : RegistryClient) (reference : OciReference) :
    Settles (Faithful answer) (c.manifest reference) := by
  apply (c.settles_manifestByDigest reference.digest unlimited).bind antitone_faithful
  unfold manifest
  rintro (e | m)
  · exact ⟨_, .pure _, fun s t h => by rw [h]⟩
  · by_cases hindex : occursIn "index".toList m.mediaType ∨
        occursIn "manifest.list".toList m.mediaType ∨ m.manifests ≠ []
    · exact ⟨_, .pure _, fun s t h => by rw [h]; exact if_pos hindex⟩
    · exact ⟨_, .pure _, fun s t h => by rw [h]; exact if_neg hindex⟩

theorem settles_referrers (c : RegistryClient) (digest : Text) (limit : Nat) :
    Settles (Faithful answer) (c.referrers digest limit) := by
  apply (settles_getAs (c.referrersUrl digest) (some ociIndexType) limit
    "referrers index".toList).bind antitone_faithful
  unfold referrers
  dsimp only
  rintro (e | raw)
  · by_cases hmissing : "404".toList.isPrefixOf e
    · -- the index under the tag is asked for next
      refine ⟨_, ?_, fun s t h => by simp only [h, hmissing, if_true]; rfl⟩
      apply (settles_getAs (c.manifestUrl (referrersTag digest)) (some ociIndexType) limit
        "referrers index".toList).bind antitone_faithful
      rintro (e | raw)
      · by_cases hnone : "404".toList.isPrefixOf e
        · exact ⟨_, .pure _, fun s t h => by rw [h]; exact if_pos hnone⟩
        · exact ⟨_, .pure _, fun s t h => by rw [h]; exact if_neg hnone⟩
      · exact ⟨_, .pure _, fun s t h => by rw [h]⟩
    · exact ⟨_, .pure _, fun s t h => by rw [h]; exact if_neg hmissing⟩
  · exact ⟨_, .pure _, fun s t h => by rw [h]⟩

end Documents
end RegistryClient
end Requests
end FunctionWasm

import FunctionWasm.Source.Confinement
import FunctionWasm.Source.Remembered

/-!
# Transparency — a warm manifest cache answers as a cold one

A cold resolver has no stores and nothing in memory: it asks the registry or the web for every
manifest, and its requests are those that the warm one makes, and maybe more.

* `Resolver.cold` and `World.cold` are the resolver and the world without tiers.
* `manifestByDigest_answers` compares the tiers with what a cold resolver is told.
* `manifest_cache_transparent` says which histories leave the cache transparent.
* `marker_answers` is a history that does not: an artifact without a manifest answers for a manifest.
-/

namespace FunctionWasm

open RegistryClient (contentDigest)

namespace Resolver

/-- A resolver without stores. -/
def cold (r : Resolver) : Resolver where
  maxSize := r.maxSize
  blobs := none
  manifests := none
  blobs_verify := Store.verify_of_none
  manifests_verify := Store.verify_of_none

/-- A world with nothing in memory. -/
def coldWorld (w : World) : World :=
  { w with cachedManifests := ∅ }

theorem remembered_coldWorld (w : World) (key : Text) : (coldWorld w).remembered key = none :=
  AList.lookup_empty key

section Collisions

variable [RegistryLibrary]

/-- Two digests that are equal are of the same bytes, among those that two worlds have seen. -/
def NoCollision (w w' : World) : Prop :=
  ∀ b b', (Occurs w b ∨ Occurs w' b) → (Occurs w b' ∨ Occurs w' b') →
    contentDigest b = contentDigest b' → b = b'

theorem NoCollision.mono {w₁ w₂ wc : World} (h : NoCollision w₂ wc) (hle : w₁.le w₂) :
    NoCollision w₁ wc := by
  have hup : ∀ b, Occurs w₁ b ∨ Occurs wc b → Occurs w₂ b ∨ Occurs wc b := by
    rintro b (hb | hb)
    · exact .inl (hb.mono hle)
    · exact .inr hb
  intro b b' hb hb' heq
  exact h b b' (hup b hb) (hup b' hb') heq

end Collisions

section Answers

variable [RegistryLibrary] [MacLibrary] {r : Resolver}

/-- What a cold resolver verifies it was told just then. -/
theorem cold_verified {what digest : Text} {fetch : Session → Except Text Bytes × Session}
    {w w' : World} {b : Bytes} (h : r.cold.verified what digest fetch w = (.ok b, w')) :
    fetch w.session = (.ok b, w'.session) ∧ contentDigest b = digest := by
  unfold verified at h
  have hnone : w.lookup r.cold.blobs digest = (none, w) := rfl
  rw [hnone] at h
  dsimp only at h
  split at h
  · cases h
  · next hfetch =>
      split at h
      · next hdigest =>
          cases h
          exact ⟨hfetch, hdigest⟩
      · cases h

theorem cold_manifestByDigest {what digest : Text}
    {fetch : Session → Except Text Bytes × Session} {w w' : World} {b : Bytes}
    (hmemory : w.remembered digest = none)
    (h : r.cold.manifestByDigest digest (r.cold.verified what digest fetch) w = (.ok b, w')) :
    fetch w.session = (.ok b, w'.session) ∧ contentDigest b = digest := by
  unfold manifestByDigest at h
  have hnone : w.lookup r.cold.manifests digest = (none, w) := rfl
  rw [hmemory, hnone] at h
  dsimp only at h
  split at h
  · cases h
  · next hverified =>
      cases h
      -- remembering the manifest asks no one
      have hasked := cold_verified hverified
      exact hasked

/-- Through the blob store comes what the fetch would have returned. -/
theorem verified_answers {what digest : Text} {fetch : Session → Except Text Bytes × Session}
    (hfetch : Reports fetch) {w wc : World} {b : Bytes} (hb : (fetch w.session).1 = .ok b)
    (hdigest : contentDigest b = digest) (hseen : Occurs wc b)
    (hcollision : NoCollision (r.verified what digest fetch w).2 wc) :
    (r.verified what digest fetch w).1 = .ok b := by
  have hspec := (verified_spec (r := r) what digest hfetch w).2.2
  cases hanswer : (r.verified what digest fetch w).1 with
  | ok b' =>
      rcases hspec b' hanswer with ⟨hseen', hdigest'⟩
      rw [hcollision b' b (.inl hseen') (.inr hseen) (hdigest'.trans hdigest.symm)]
  | error e =>
      -- the fetch succeeds here too, with content of the digest
      have hsession := w.lookup_session r.blobs digest
      unfold verified at hanswer
      rcases hfound : w.lookup r.blobs digest with ⟨_ | b', w₁⟩
      · rw [hfound] at hanswer hsession
        dsimp only at hanswer hsession
        rw [hsession] at hanswer
        rcases hasked : fetch w.session with ⟨e' | b', s⟩
        · rw [hasked] at hb
          cases hb
        · rw [hasked] at hb hanswer
          cases hb
          simp [hdigest] at hanswer
      · rw [hfound] at hanswer
        cases hanswer

/-- Through the tiers of the manifest cache comes what the fetch would have returned, where the digest
is not in memory in the other use. -/
theorem manifestByDigest_answers (what digest : Text)
    {fetch : Session → Except Text Bytes × Session} (hfetch : Reports fetch) {w wc : World} {b : Bytes}
    (hfiled : Filed w) (hown : Own w digest) (hb : (fetch w.session).1 = .ok b)
    (hdigest : contentDigest b = digest) (hseen : Occurs wc b)
    (hcollision :
      NoCollision (r.manifestByDigest digest (r.verified what digest fetch) w).2 wc) :
    (r.manifestByDigest digest (r.verified what digest fetch) w).1 = .ok b := by
  have hspec := (manifestByDigest_spec (r := r) what digest hfetch hfiled).2.2
  cases hanswer : (r.manifestByDigest digest (r.verified what digest fetch) w).1 with
  | ok b' =>
      rcases hspec b' hanswer hown with ⟨hseen', hdigest'⟩
      rw [hcollision b' b (.inl hseen') (.inr hseen) (hdigest'.trans hdigest.symm)]
  | error e =>
      have hsession := w.lookup_session r.manifests digest
      unfold manifestByDigest at hanswer hcollision
      cases hmemory : w.remembered digest with
      | some v => simp [hmemory] at hanswer
      | none =>
          rw [hmemory] at hanswer hcollision
          rcases hfound : w.lookup r.manifests digest with ⟨_ | v, w₁⟩
          · rw [hfound] at hanswer hcollision hsession
            dsimp only at hanswer hcollision hsession
            have hverified : (r.verified what digest fetch w₁).1 = .ok b := by
              rcases hv : r.verified what digest fetch w₁ with ⟨e' | v, w₂⟩
              · rw [hv] at hcollision
                rw [← hv]
                apply verified_answers hfetch (hsession ▸ hb) hdigest hseen
                rw [hv]
                exact hcollision
              · rw [hv] at hanswer
                cases hanswer
            rcases hv : r.verified what digest fetch w₁ with ⟨e' | v, w₂⟩
            · rw [hv] at hverified
              cases hverified
            · rw [hv] at hanswer
              cases hanswer
          · rw [hfound] at hanswer
            cases hanswer

/-- What a cold resolver reads for an artifact it was told just then: the manifest, and the layer. -/
theorem cold_layerManifest {reference : OciReference} {w wc : World} {b : Bytes}
    (h : r.cold.layerManifest reference (coldWorld w) = (.ok b, wc)) :
    ∃ m s, (RegistryClient.new reference).manifest reference w.session = (.ok m, s) ∧
      s.le wc.session ∧
      match manifestLayer m with
      | none => b = []
      | some layer =>
          (RegistryClient.new reference).blob layer.digest maxModuleManifestSize
              "manifest layer".toList s = (.ok b, wc.session) ∧ contentDigest b = layer.digest := by
  have hsession : (coldWorld w).session = w.session := rfl
  unfold layerManifest at h
  rw [remembered_coldWorld, hsession] at h
  dsimp only at h
  rcases hmanifest : (RegistryClient.new reference).manifest reference w.session with ⟨e | m, s⟩
  · rw [hmanifest] at h
    cases h
  · rw [hmanifest] at h
    dsimp only at h
    refine ⟨m, s, rfl, ?_⟩
    cases hlayer : manifestLayer m with
    | none =>
        rw [hlayer] at h
        cases h
        exact ⟨Session.le_refl _, rfl⟩
    | some layer =>
        rw [hlayer] at h
        dsimp only at h
        split at h
        · cases h
        · next w₂ hread =>
            cases h
            have hempty : World.remembered { coldWorld w with session := s } layer.digest = none :=
              AList.lookup_empty _
            have hasked := cold_manifestByDigest hempty hread
            exact ⟨RegistryClient.blob_le hasked.1, hasked⟩

/-- What is read for an artifact is what a cold resolver reads. -/
theorem layerManifest_answers {reference : OciReference} {w wc : World} {b : Bytes} (hfiled : Filed w)
    (hpin : ∀ v, w.remembered reference.digest = some v → contentDigest v ≠ reference.digest)
    (hown : w.remembered reference.digest = none →
      ∀ m layer, ((RegistryClient.new reference).manifest reference w.session).1 = .ok m →
        manifestLayer m = some layer → Own w layer.digest)
    (h : r.cold.layerManifest reference (coldWorld w) = (.ok b, wc))
    (hcollision : NoCollision (r.layerManifest reference w).2 wc) :
    (r.layerManifest reference w).1 = .ok b := by
  -- the document that the cold resolver reads, and the manifest layer in it
  rcases cold_layerManifest h with ⟨m, s, hmanifest, hle, hlayer⟩
  rcases RegistryClient.manifest_ok hmanifest with ⟨raw, hserved, hdigest, hparse⟩
  have hraw : Occurs wc raw := .inr (.inl ⟨_, hserved.mono hle⟩)
  unfold layerManifest at hcollision ⊢
  cases hmemory : w.remembered reference.digest with
  | some v =>
      rw [hmemory] at hcollision
      rcases hfiled _ _ hmemory with ⟨-, hcontent⟩ | ⟨raw', m', hraw', hdigest', hparse', hlayer'⟩
      · exact absurd hcontent (hpin v hmemory)
      · -- the artifact's document was the same then
        have hsame : raw' = raw :=
          hcollision raw' raw (.inl hraw') (.inr hraw) (hdigest'.trans hdigest.symm)
        have hm : m' = m := by
          rw [hsame, hparse] at hparse'
          cases hparse'
          rfl
        subst hm
        cases hl : manifestLayer m' with
        | none =>
            rw [hl] at hlayer hlayer'
            rw [hlayer, hlayer']
        | some layer =>
            rw [hl] at hlayer hlayer'
            have hseen : Occurs wc b := by
              rcases (reports_blob (RegistryClient.new reference) layer.digest
                "manifest layer".toList maxModuleManifestSize s).2 b (by rw [hlayer.1]) with
                ⟨url, hblob⟩
              rw [hlayer.1] at hblob
              exact .inr (.inl ⟨url, hblob⟩)
            -- both are what the layer's digest is of
            have hv : v = b := hcollision v b (.inl hlayer'.1) (.inr hseen)
              (hlayer'.2.trans hlayer.2.symm)
            rw [hv]
  | none =>
      rw [hmemory] at hcollision
      dsimp only at hcollision ⊢
      rw [hmanifest] at hown hcollision ⊢
      dsimp only at hcollision ⊢
      cases hl : manifestLayer m with
      | none =>
          rw [hl] at hlayer
          rw [hlayer]
      | some layer =>
          rw [hl] at hlayer hcollision
          dsimp only at hcollision ⊢
          have hreports := reports_blob (RegistryClient.new reference) layer.digest
            "manifest layer".toList maxModuleManifestSize
          have hseen : Occurs wc b := by
            rcases (hreports s).2 b (by rw [hlayer.1]) with ⟨url, hblob⟩
            rw [hlayer.1] at hblob
            exact .inr (.inl ⟨url, hblob⟩)
          have hfiled' : Filed { w with session := s } :=
            hfiled.mono ⟨RegistryClient.manifest_le hmanifest, List.Subset.refl _⟩ rfl
          have hown' : Own { w with session := s } layer.digest := hown hmemory m layer rfl hl
          -- nothing is remembered of the artifact: its layer is read by digest
          have hanswer := manifestByDigest_answers (r := r) "manifest layer".toList _
            hreports hfiled' hown' (by rw [hlayer.1]) hlayer.2 hseen
          rcases hread : r.manifestByDigest layer.digest
              (r.verified "manifest layer".toList layer.digest
                ((RegistryClient.new reference).blob layer.digest maxModuleManifestSize
                  "manifest layer".toList)) { w with session := s } with ⟨e | b', w₂⟩
          · rw [hread] at hcollision hanswer
            exact absurd (hanswer hcollision) (by simp)
          · rw [hread] at hcollision hanswer
            exact hanswer (hcollision.mono (w₂.remember_le _ _))

/-- A document that a cold resolver reads by its stated digest is the one that the warm one reads. -/
theorem statedManifest_answers {w wc : World} {url digest : Text} {raw : Bytes}
    (hfiled : Filed w) (hown : Own w digest)
    (hread : r.cold.manifestByDigest digest (r.cold.verified "manifest".toList digest
      (httpGet url "manifest".toList maxModuleManifestSize)) (coldWorld w) = (.ok raw, wc))
    (hcollision : NoCollision (r.manifestByDigest digest (r.verified "manifest".toList digest
      (httpGet url "manifest".toList maxModuleManifestSize)) w).2 wc) :
    (r.manifestByDigest digest (r.verified "manifest".toList digest
      (httpGet url "manifest".toList maxModuleManifestSize)) w).1 = .ok raw := by
  have hasked := cold_manifestByDigest (remembered_coldWorld w digest) hread
  have hreports := reports_httpGet url "manifest".toList maxModuleManifestSize
  have hfetch : (httpGet url "manifest".toList maxModuleManifestSize w.session).1 = .ok raw :=
    congrArg Prod.fst hasked.1
  have hseen : Occurs wc raw := by
    rcases (hreports w.session).2 raw hfetch with ⟨url', hserved⟩
    have hsession : (httpGet url "manifest".toList maxModuleManifestSize w.session).2 =
        wc.session := congrArg Prod.snd hasked.1
    exact .inr (.inl ⟨url', hsession ▸ hserved⟩)
  exact manifestByDigest_answers "manifest".toList _ hreports hfiled hown hfetch hasked.2 hseen
    hcollision

end Answers

/-! ## The theorem -/

/-- A JSON that was written is that of what was read. -/
theorem jsonOf_ok [ManifestLibrary] {x : Except Text Bytes × World} {b : Bytes} {w : World}
    (h : jsonOf x = (.ok b, w)) :
    ∃ raw, x = (.ok raw, w) ∧ ManifestLibrary.manifestJson raw = .ok b := by
  rcases x with ⟨e | raw, w'⟩
  · cases h
  · exact ⟨raw, by rw [(Prod.mk.inj h).2], (Prod.mk.inj h).1⟩

section Transparency

variable [RegistryLibrary] [MacLibrary] [TarLibrary] [ManifestLibrary]

/-- What is known of a manifest without asking, and what a read of it returns, is what a cold resolver
would get. -/
def Transparent (r : Resolver) (resolved : Resolved) (w : World) (b : Bytes) : Prop :=
  (∀ b', cachedManifest resolved w = some b' → b' = b) ∧ (r.manifest resolved w).1 = .ok b

/-- Where no lookup finds its digest in the other use, every manifest that a cold resolver would get
is what the warm one knows and returns. -/
theorem manifest_cache_transparent (r : Resolver) {w wc : World} {resolved : Resolved} {b : Bytes}
    (hreach : ((cacheSystem r).restrict CallApart).Reachable w) (hapart : Apart resolved w)
    (hcold : r.cold.manifest resolved (coldWorld w) = (.ok b, wc))
    (hcollision : NoCollision (r.manifest resolved w).2 wc) : r.Transparent resolved w b := by
  have hfiled := filed_reachable hreach
  unfold Apart at hapart
  unfold manifest at hcold
  cases hsource : resolved.manifest with
  | none =>
      rw [hsource] at hcold
      cases hcold
      simp [Transparent, cachedManifest, manifest, hsource]
  | pathFile full =>
      rw [hsource] at hcold
      rcases jsonOf_ok hcold with ⟨raw, hread, hjson⟩
      -- a file is read fresh, and both read the same
      have hraw : (readFile "manifest".toList full maxModuleManifestSize w.disk).1 = .ok raw :=
        congrArg Prod.fst hread
      refine ⟨by simp [cachedManifest, hsource], ?_⟩
      unfold manifest
      rw [hsource]
      dsimp only
      rw [hraw]
      exact hjson
  | http url digest =>
      rw [hsource] at hcold hapart
      rcases jsonOf_ok hcold with ⟨raw, hread, hjson⟩
      have hworld : (r.manifest resolved w).2 = (r.manifestByDigest digest
          (r.verified "manifest".toList digest
            (httpGet url "manifest".toList maxModuleManifestSize)) w).2 := by
        unfold manifest
        rw [hsource]
        dsimp only
        rcases r.manifestByDigest digest _ w with ⟨_ | _, _⟩ <;> rfl
      have hanswer := statedManifest_answers hfiled hapart hread (hworld ▸ hcollision)
      constructor
      · intro b' hb'
        simp only [cachedManifest, hsource] at hb'
        rcases Option.bind_eq_some_iff.1 hb' with ⟨v, hv, hjson'⟩
        -- what is in memory is what the read returns
        have hraw : v = raw := by
          unfold manifestByDigest at hanswer
          rw [hv] at hanswer
          exact Except.ok.inj hanswer
        rw [hraw, hjson] at hjson'
        exact (Option.some.inj hjson').symm
      · unfold manifest
        rw [hsource]
        dsimp only
        rcases hfound : r.manifestByDigest digest (r.verified "manifest".toList digest
            (httpGet url "manifest".toList maxModuleManifestSize)) w with ⟨e | v, w'⟩
        · rw [hfound] at hanswer
          cases hanswer
        · rw [hfound] at hanswer
          cases hanswer
          exact hjson
  | ociLayer reference =>
      rw [hsource] at hcold hapart
      have hworld : (r.manifest resolved w).2 = (r.layerManifest reference w).2 := by
        unfold manifest
        rw [hsource]
      have hanswer := layerManifest_answers (r := r) hfiled hapart.1 hapart.2 hcold
        (hworld ▸ hcollision)
      constructor
      · intro b' hb'
        simp only [cachedManifest, hsource] at hb'
        unfold layerManifest at hanswer
        rw [hb'] at hanswer
        exact Except.ok.inj hanswer
      · unfold manifest
        rw [hsource]
        exact hanswer

end Transparency

/-! ## An artifact without a manifest -/

section Examples

/-- A reader for which no document at all is `null`. -/
@[reducible] def nullManifests : ManifestLibrary where
  manifestJson raw := if raw = [] then .ok (textBytes "null".toList) else .ok raw

attribute [local instance] hiddenRegistry untouchedMac hiddenFile nullManifests

/-- Everything is answered with the one document. -/
def answeringWorld : World :=
  { hiddenWorld with session := { answers := fun _ => .ok [1], log := [] } }

/-- A module whose manifest is stated by the digest of the document. -/
def statedResolved : Resolved where
  digest := zeroModule
  description := "http https://a.b/m".toList
  source := .http "https://a.b/m".toList
  manifest := .http "https://a.b/y".toList hiddenReference.digest

/-- The world after one call. -/
def afterCall (resolved : Resolved) : World :=
  (bareResolver.manifest resolved answeringWorld).2

/-- Where every answer was the one document, nothing else was seen. -/
structure Answering (w : World) : Prop where
  disk : w.disk.log = []
  answers : ∀ x ∈ w.session.log, x.answer = .ok [1]

theorem Answering.occurs {w : World} {b : Bytes} (hw : Answering w) (h : Occurs w b) :
    b = [] ∨ b = [1] := by
  rcases h with hnil | ⟨url, accept, hmem⟩ | ⟨path, hpath⟩
  · exact .inl hnil
  · exact .inr (Except.ok.inj (hw.answers _ hmem))
  · rw [hw.disk] at hpath
    cases hpath

theorem Answering.noCollision {w w' : World} (hw : Answering w) (hw' : Answering w') :
    NoCollision w w' := by
  have hne : contentDigest [] ≠ contentDigest [1] := by decide +kernel
  have hone : ∀ b, Occurs w b ∨ Occurs w' b → b = [] ∨ b = [1] := by
    rintro b (hb | hb)
    · exact hw.occurs hb
    · exact hw'.occurs hb
  intro b b' hb hb' heq
  rcases hone b hb with rfl | rfl <;> rcases hone b' hb' with rfl | rfl
  · rfl
  · exact absurd heq hne
  · exact absurd heq.symm hne
  · rfl

/-- A stated manifest that was read once is known, and what it was. -/
theorem stated_manifest_transparent :
    bareResolver.Transparent statedResolved (afterCall statedResolved) [1] := by
  have hdigest : contentDigest [1] = hiddenReference.digest := by decide +kernel
  have hreach : ((cacheSystem bareResolver).restrict CallApart).Reachable
      (afterCall statedResolved) := by
    refine .step (.manifest statedResolved) (.init (s := answeringWorld) rfl) ⟨?_, rfl⟩
    intro v hv
    cases hv
  have hmemory : (afterCall statedResolved).remembered hiddenReference.digest = some [1] := by
    decide +kernel
  have hapart : Apart statedResolved (afterCall statedResolved) := by
    intro v hv
    rw [hmemory] at hv
    cases hv
    exact hdigest
  have hcold : (bareResolver.cold.manifest statedResolved
      (coldWorld (afterCall statedResolved))).1 = .ok [1] := by decide +kernel
  exact manifest_cache_transparent bareResolver hreach hapart (Prod.ext hcold rfl)
    (Answering.noCollision ⟨by rfl, by decide +kernel⟩ ⟨by rfl, by decide +kernel⟩)

/-- An artifact without a manifest is remembered under its digest, and that answers for the manifest
that another source states by this digest. -/
theorem marker_answers :
    ∃ w wc b, (cacheSystem bareResolver).Reachable w ∧
      bareResolver.cold.manifest statedResolved (coldWorld w) = (.ok b, wc) ∧
      NoCollision (bareResolver.manifest statedResolved w).2 wc ∧
      ¬ bareResolver.Transparent statedResolved w b := by
  have hcold : (bareResolver.cold.manifest statedResolved
      (coldWorld (afterCall hiddenResolved))).1 = .ok [1] := by decide +kernel
  have hwarm : (bareResolver.manifest statedResolved (afterCall hiddenResolved)).1 =
      .ok (textBytes "null".toList) := by decide +kernel
  refine ⟨afterCall hiddenResolved, _, [1], .step (.manifest hiddenResolved) (.init (s := answeringWorld) rfl) rfl,
    Prod.ext hcold rfl, ?_, ?_⟩
  · exact Answering.noCollision ⟨by rfl, by decide +kernel⟩ ⟨by rfl, by decide +kernel⟩
  · rintro ⟨-, hanswer⟩
    rw [hwarm] at hanswer
    exact absurd (Except.ok.inj hanswer) (by decide)

end Examples
end Resolver
end FunctionWasm

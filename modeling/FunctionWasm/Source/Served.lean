import FunctionWasm.Registry.Faithful
import FunctionWasm.Source.Transparency

/-!
# Served — what two processes are served of one source

Two processes resolve a source alike and read the module and its manifest, each at a moment of its
own: from the network and the files that both have, or from what it kept.

* `FetchesAfresh` and `ReadsAfresh` say that a process has kept nothing of what it reads.
* `fetch_served` and `manifest_served`: what such a process reads, the other one reads, too, and the
  same.
-/

namespace FunctionWasm
namespace Resolver

open RegistryClient (contentDigest)

theorem settles_httpGet {answer : RegistryRequest → Except Text Bytes} (url what : Text)
    (limit : Nat) : Settles (Faithful answer) (httpGet url what limit) := by
  apply (settles_ask ⟨url, none⟩).bind antitone_faithful
  unfold httpGet
  rintro (e | b)
  · exact ⟨_, .pure _, fun s t h => by rw [h]⟩
  · by_cases hlimit : limit < b.length
    · exact ⟨_, .pure _, fun s t h => by rw [h]; exact if_pos hlimit⟩
    · exact ⟨_, .pure _, fun s t h => by rw [h]; exact if_neg hlimit⟩

section Served

variable [RegistryLibrary] [MacLibrary]

/-! ## The blob store -/

/-- The blob store has nothing under a digest. -/
def Misses (r : Resolver) (w : World) (digest : Text) : Prop :=
  (w.lookup r.blobs digest).1 = none

variable {r r' : Resolver} {w w' : World} {answer : RegistryRequest → Except Text Bytes}

section Verified

variable {what digest : Text} {fetch : Session → Except Text Bytes × Session}

/-- What the blob store does not have is fetched. -/
theorem verified_misses (what : Text) (fetch : Session → Except Text Bytes × Session)
    (h : r.Misses w digest) :
    (r.verified what digest fetch w).2.session = (fetch w.session).2 ∧
      ∀ b, (r.verified what digest fetch w).1 = .ok b ↔
        (fetch w.session).1 = .ok b ∧ contentDigest b = digest := by
  have hsession := w.lookup_session r.blobs digest
  unfold Misses at h
  unfold verified
  rcases hfound : w.lookup r.blobs digest with ⟨found, w₁⟩
  rw [hfound] at h hsession
  subst h
  dsimp only at hsession ⊢
  rw [hsession]
  rcases fetch w.session with ⟨e | b, s⟩
  · exact ⟨rfl, by simp⟩
  · dsimp only
    by_cases hdigest : contentDigest b = digest
    · rw [if_pos hdigest]
      refine ⟨World.save_session .., ?_⟩
      intro b'
      constructor
      · intro heq
        cases heq
        exact ⟨rfl, hdigest⟩
      · rintro ⟨heq, -⟩
        exact heq
    · rw [if_neg hdigest]
      refine ⟨rfl, ?_⟩
      rintro b'
      constructor
      · intro heq
        cases heq
      · rintro ⟨heq, hdigest'⟩
        cases heq
        exact absurd hdigest' hdigest

/-- What one process verified without its blob store, another one gets. -/
theorem verified_served (hfetch : Settles (Faithful answer) fetch) {b : Bytes}
    (hmiss : r.Misses w digest) (h : (r.verified what digest fetch w).1 = .ok b)
    (hw : Faithful answer (r.verified what digest fetch w).2.session)
    (hw' : Faithful answer (r'.verified what digest fetch w').2.session) :
    ∃ b', (r'.verified what digest fetch w').1 = .ok b' := by
  rcases verified_misses what fetch hmiss with ⟨hsession, hok⟩
  rcases (hok b).1 h with ⟨hfetched, hdigest⟩
  rw [hsession] at hw
  cases hfound : (w'.lookup r'.blobs digest).1 with
  | none =>
      rcases verified_misses what fetch (r := r') hfound with ⟨hsession', hok'⟩
      rw [hsession'] at hw'
      have hsame := hfetch.same w.session w'.session hw hw'
      exact ⟨b, (hok' b).2 ⟨hsame.symm.trans hfetched, hdigest⟩⟩
  | some b' =>
      refine ⟨b', ?_⟩
      unfold verified
      rcases hlookup : w'.lookup r'.blobs digest with ⟨found, w₁⟩
      rw [hlookup] at hfound
      subst hfound
      rfl

/-- What two processes verified under one digest is the same. -/
theorem verified_unique (hfetch : Reports fetch) {b b' : Bytes}
    (h : (r.verified what digest fetch w).1 = .ok b)
    (h' : (r'.verified what digest fetch w').1 = .ok b')
    (hcollision : NoCollision (r.verified what digest fetch w).2
      (r'.verified what digest fetch w').2) : b = b' := by
  rcases (verified_spec what digest hfetch w).2.2 b h with ⟨hseen, hdigest⟩
  rcases (verified_spec what digest hfetch w').2.2 b' h' with ⟨hseen', hdigest'⟩
  exact hcollision b b' (.inl hseen) (.inr hseen') (hdigest.trans hdigest'.symm)

end Verified

/-! ## The module -/

/-- What is asked for on the way to a layer, and what comes of it. -/
theorem fetchLayer_steps {reference : OciReference} {x : Except Text OciManifest} {s : Session}
    (hmanifest : (RegistryClient.new reference).manifest reference w.session = (x, s)) :
    s ≤ (r.fetchLayer reference w).2.session ∧
      ∀ m layer, x = .ok m → wasmLayer m = .ok layer →
        (r.fetchLayer reference w).2 = (r.verified "module layer".toList layer.digest
            ((RegistryClient.new reference).blob layer.digest r.maxSize "module layer".toList)
            { w with session := s }).2 ∧
          ∀ b, (r.fetchLayer reference w).1 = .ok (layer, b) ↔
            (r.verified "module layer".toList layer.digest
              ((RegistryClient.new reference).blob layer.digest r.maxSize "module layer".toList)
              { w with session := s }).1 = .ok b := by
  unfold fetchLayer
  dsimp only
  rw [hmanifest]
  cases x with
  | error e => exact ⟨le_refl _, by simp⟩
  | ok m =>
      dsimp only
      -- a document without one module layer asks for nothing more
      cases hlayer : wasmLayer m with
      | error e =>
          refine ⟨le_refl _, ?_⟩
          intro m' layer hm hlayer'
          cases hm
          rw [hlayer] at hlayer'
          cases hlayer'
      | ok layer =>
          have hreports := reports_blob (RegistryClient.new reference) layer.digest
            "module layer".toList r.maxSize
          have hspec := verified_spec (r := r) "module layer".toList layer.digest hreports
            { w with session := s }
          dsimp only
          rcases hverified : r.verified "module layer".toList layer.digest
              ((RegistryClient.new reference).blob layer.digest r.maxSize "module layer".toList)
              { w with session := s } with ⟨e | b, w₁⟩
          · rw [hverified] at hspec
            refine ⟨hspec.1.session, ?_⟩
            intro m' layer' hm hlayer'
            cases hm
            rw [hlayer] at hlayer'
            cases hlayer'
            rw [hverified]
            exact ⟨rfl, by simp⟩
          · rw [hverified] at hspec
            refine ⟨hspec.1.session, ?_⟩
            intro m' layer' hm hlayer'
            cases hm
            rw [hlayer] at hlayer'
            cases hlayer'
            rw [hverified]
            exact ⟨rfl, by simp⟩

/-- A layer that was fetched is the one that the artifact's manifest names. -/
theorem fetchLayer_ok {reference : OciReference} {layer : Descriptor} {b : Bytes}
    (h : (r.fetchLayer reference w).1 = .ok (layer, b)) :
    ∃ m s, (RegistryClient.new reference).manifest reference w.session = (.ok m, s) ∧
      wasmLayer m = .ok layer := by
  unfold fetchLayer at h
  dsimp only at h
  split at h
  · cases h
  · next m s hmanifest =>
      split at h
      · cases h
      · next layer' hlayer =>
          split at h
          · cases h
          · cases h
            exact ⟨m, s, hmanifest, hlayer⟩

omit [MacLibrary] in
theorem misses_session {digest : Text} {s : Session} :
    r.Misses { w with session := s } digest ↔ r.Misses w digest := by
  unfold Misses World.lookup
  cases r.blobs <;> exact Iff.rfl

/-- The blob store has nothing of an artifact's layer. -/
def LayerAfresh (r : Resolver) (reference : OciReference) (w : World) : Prop :=
  ∀ m layer, ((RegistryClient.new reference).manifest reference w.session).1 = .ok m →
    wasmLayer m = .ok layer → r.Misses w layer.digest

theorem fetchLayer_served {reference : OciReference} {layer : Descriptor} {b : Bytes}
    (hsize : r'.maxSize = r.maxSize) (hafresh : r.LayerAfresh reference w)
    (h : (r.fetchLayer reference w).1 = .ok (layer, b))
    (hw : Faithful answer (r.fetchLayer reference w).2.session)
    (hw' : Faithful answer (r'.fetchLayer reference w').2.session) :
    ∃ b', (r'.fetchLayer reference w').1 = .ok (layer, b') := by
  rcases fetchLayer_ok h with ⟨m, s, hmanifest, hlayer⟩
  rcases hmanifest' : (RegistryClient.new reference).manifest reference w'.session with ⟨x, s'⟩
  rcases fetchLayer_steps (r := r) hmanifest with ⟨hgrows, hsteps⟩
  rcases fetchLayer_steps (r := r') hmanifest' with ⟨hgrows', hsteps'⟩
  -- both were told of the same artifact
  have hx : x = .ok m := by
    have hsame := ((RegistryClient.new reference).settles_manifest reference).same w.session
      w'.session (by rw [hmanifest]; exact antitone_faithful hgrows hw)
      (by rw [hmanifest']; exact antitone_faithful hgrows' hw')
    rw [hmanifest, hmanifest'] at hsame
    exact hsame.symm
  rcases hsteps m layer rfl hlayer with ⟨hworld, hok⟩
  rcases hsteps' m layer hx hlayer with ⟨hworld', hok'⟩
  rw [hworld] at hw
  rw [hworld', hsize] at hw'
  have hmiss : r.Misses { w with session := s } layer.digest :=
    misses_session.2 (hafresh m layer (by rw [hmanifest]) hlayer)
  rcases verified_served (RegistryClient.settles_blob _ _ _ _) hmiss ((hok b).1 h) hw hw' with
    ⟨b', hb'⟩
  exact ⟨b', (hok' b').2 (by rw [hsize]; exact hb')⟩

theorem fetchLayer_unique {reference : OciReference} {layer : Descriptor} {b b' : Bytes}
    (h : (r.fetchLayer reference w).1 = .ok (layer, b))
    (h' : (r'.fetchLayer reference w').1 = .ok (layer, b'))
    (hcollision : NoCollision (r.fetchLayer reference w).2 (r'.fetchLayer reference w').2) :
    b = b' := by
  have hfetched : r.fetchLayer reference w = (.ok (layer, b), (r.fetchLayer reference w).2) :=
    Prod.ext h rfl
  have hfetched' : r'.fetchLayer reference w' = (.ok (layer, b'), (r'.fetchLayer reference w').2) :=
    Prod.ext h' rfl
  exact hcollision b b' (.inl (fetchLayer_occurs hfetched)) (.inr (fetchLayer_occurs hfetched'))
    ((fetchLayer_chain hfetched).layer.trans (fetchLayer_chain hfetched').layer.symm)

omit [RegistryLibrary] [MacLibrary] in
/-- A read of a file depends on its content. -/
theorem readFile_ok {what full : Text} {limit : Nat} {d : Disk} {b : Bytes} :
    (readFile what full limit d).1 = .ok b ↔ d.content full = some b ∧ b.length ≤ limit := by
  unfold readFile Disk.read
  cases hcontent : d.content full with
  | none => simp
  | some content =>
      dsimp only
      by_cases hlimit : limit < content.length
      · rw [if_pos hlimit]
        constructor
        · intro h
          cases h
        · rintro ⟨heq, hle⟩
          cases heq
          exact absurd hlimit (Nat.not_lt.2 hle)
      · rw [if_neg hlimit]
        constructor
        · intro h
          cases h
          exact ⟨rfl, Nat.not_lt.1 hlimit⟩
        · rintro ⟨heq, -⟩
          cases heq
          rfl

omit [MacLibrary] in
theorem fetchPath_ok_iff {full digest : Text} {b : Bytes} :
    (r.fetchPath full digest w).1 = .ok b ↔
      w.disk.content full = some b ∧ b.length ≤ r.maxSize ∧ contentDigest b = digest := by
  rw [← and_assoc, ← @readFile_ok "module".toList]
  unfold fetchPath
  rcases readFile "module".toList full r.maxSize w.disk with ⟨e | content, disk⟩
  · simp
  · dsimp only
    by_cases hdigest : contentDigest content = digest
    · rw [if_pos hdigest]
      constructor
      · intro h
        cases h
        exact ⟨rfl, hdigest⟩
      · rintro ⟨h, -⟩
        exact h
    · rw [if_neg hdigest]
      constructor
      · intro h
        cases h
      · rintro ⟨h, hdigest'⟩
        cases h
        exact absurd hdigest' hdigest

variable [TarLibrary]

/-- Nothing of the module is kept: its bytes are asked for, or read from its file. -/
def FetchesAfresh (r : Resolver) (resolved : Resolved) (w : World) : Prop :=
  match resolved.source with
  | .path _ => True
  | .http _ => r.Misses w resolved.digest
  | .oci reference => r.LayerAfresh reference w

/-- A module file is the same for two processes. -/
def SameModuleFile (resolved : Resolved) (w w' : World) : Prop :=
  ∀ full, resolved.source = .path full → w.disk.content full = w'.disk.content full

/-- A module that one process fetches afresh is the one that another one gets. -/
theorem fetch_served {resolved : Resolved} {b : Bytes} (hsize : r'.maxSize = r.maxSize)
    (hfile : SameModuleFile resolved w w') (hafresh : r.FetchesAfresh resolved w)
    (h : (r.fetch resolved w).1 = .ok b)
    (hw : Faithful answer (r.fetch resolved w).2.session)
    (hw' : Faithful answer (r'.fetch resolved w').2.session)
    (hcollision : NoCollision (r.fetch resolved w).2 (r'.fetch resolved w').2) :
    (r'.fetch resolved w').1 = .ok b := by
  unfold FetchesAfresh at hafresh
  cases hsource : resolved.source with
  | path full =>
      unfold fetch at h ⊢
      rw [hsource] at h ⊢
      dsimp only at h ⊢
      rw [fetchPath_ok_iff] at h ⊢
      rw [← hfile full hsource, hsize]
      exact h
  | http url =>
      rw [hsource] at hafresh
      have hreports := reports_httpGet url "module".toList r.maxSize
      unfold fetch at h hw hw' hcollision ⊢
      rw [hsource] at h hw hw' hcollision ⊢
      dsimp only at h hw hw' hcollision hafresh ⊢
      rw [hsize] at hw' hcollision ⊢
      rcases verified_served (settles_httpGet _ _ _) hafresh h hw hw' with ⟨b', hb'⟩
      rw [verified_unique hreports h hb' hcollision]
      exact hb'
  | oci reference =>
      rw [hsource] at hafresh
      rw [fetch_world hsource] at hw hw' hcollision
      rw [fetch_world hsource] at hcollision
      rcases (fetch_oci hsource).1 h with ⟨layer, archive, hlayer, hmodule⟩
      rcases fetchLayer_served hsize hafresh hlayer hw hw' with ⟨archive', hlayer'⟩
      have hsame := fetchLayer_unique hlayer hlayer' hcollision
      subst hsame
      refine (fetch_oci hsource).2 ⟨layer, archive, hlayer', ?_⟩
      unfold moduleOf at hmodule ⊢
      rw [hsize]
      exact hmodule

/-! ## The manifest -/

section Manifests

omit [TarLibrary]

/-- No tier has a manifest under a digest. -/
structure MissesManifest (r : Resolver) (w : World) (digest : Text) : Prop where
  memory : w.remembered digest = none
  store : (w.lookup r.manifests digest).1 = none
  blobs : r.Misses (w.lookup r.manifests digest).2 digest

/-- What the tiers of the manifest cache do not have is fetched. -/
theorem manifestByDigest_misses {digest : Text} (fetch : World → Except Text Bytes × World)
    (hmemory : w.remembered digest = none) (hstore : (w.lookup r.manifests digest).1 = none) :
    (r.manifestByDigest digest fetch w).1 = (fetch (w.lookup r.manifests digest).2).1 ∧
      (r.manifestByDigest digest fetch w).2.session =
        (fetch (w.lookup r.manifests digest).2).2.session := by
  unfold manifestByDigest
  rw [hmemory]
  dsimp only
  rcases hfound : w.lookup r.manifests digest with ⟨found, w₁⟩
  rw [hfound] at hstore
  subst hstore
  dsimp only
  rcases fetch w₁ with ⟨e | m, w₂⟩
  · exact ⟨rfl, rfl⟩
  · exact ⟨rfl, w₂.save_session r.manifests digest m⟩

/-- A manifest that one process reads afresh by its digest, another one gets. -/
theorem manifestByDigest_served {what digest : Text}
    {fetch : Session → Except Text Bytes × Session} {b : Bytes}
    (hfetch : Settles (Faithful answer) fetch) (hmiss : r.MissesManifest w digest)
    (h : (r.manifestByDigest digest (r.verified what digest fetch) w).1 = .ok b)
    (hw : Faithful answer (r.manifestByDigest digest (r.verified what digest fetch) w).2.session)
    (hw' : Faithful answer
      (r'.manifestByDigest digest (r'.verified what digest fetch) w').2.session) :
    ∃ b', (r'.manifestByDigest digest (r'.verified what digest fetch) w').1 = .ok b' := by
  cases hmemory : w'.remembered digest with
  | some v => exact ⟨v, by simp [manifestByDigest, hmemory]⟩
  | none =>
      cases hstore : (w'.lookup r'.manifests digest).1 with
      | some v =>
          refine ⟨v, ?_⟩
          unfold manifestByDigest
          rw [hmemory]
          rcases hlookup : w'.lookup r'.manifests digest with ⟨found, w₁⟩
          rw [hlookup] at hstore
          subst hstore
          rfl
      | none =>
          -- both ask
          have hsteps := manifestByDigest_misses (r.verified what digest fetch) hmiss.memory
            hmiss.store
          have hsteps' := manifestByDigest_misses (r'.verified what digest fetch) hmemory hstore
          rw [hsteps.1] at h
          rw [hsteps.2] at hw
          rw [hsteps'.2] at hw'
          rw [hsteps'.1]
          exact verified_served hfetch hmiss.blobs h hw hw'

omit [MacLibrary] in
theorem MissesManifest.own {digest : Text} (h : r.MissesManifest w digest) : Own w digest := by
  intro v hv
  rw [h.memory] at hv
  cases hv

/-- What two processes read under one digest is the same, where neither has it in memory in the other
use. -/
theorem manifestByDigest_unique {what digest : Text}
    {fetch : Session → Except Text Bytes × Session} (hreports : Reports fetch) {b b' : Bytes}
    (hfiled : Filed w) (hfiled' : Filed w') (hown : Own w digest) (hown' : Own w' digest)
    (h : (r.manifestByDigest digest (r.verified what digest fetch) w).1 = .ok b)
    (h' : (r'.manifestByDigest digest (r'.verified what digest fetch) w').1 = .ok b')
    (hcollision : NoCollision (r.manifestByDigest digest (r.verified what digest fetch) w).2
      (r'.manifestByDigest digest (r'.verified what digest fetch) w').2) : b = b' := by
  have hspec := manifestByDigest_spec (r := r) what digest hreports hfiled
  have hspec' := manifestByDigest_spec (r := r') what digest hreports hfiled'
  rcases hspec.2.2 b h hown with ⟨hseen, hdigest⟩
  rcases hspec'.2.2 b' h' hown' with ⟨hseen', hdigest'⟩
  exact hcollision b b' (.inl hseen) (.inr hseen') (hdigest.trans hdigest'.symm)

omit [MacLibrary] in
/-- The manifest of an artifact is one, where no two contents have one digest. -/
theorem artifactManifest_unique {digest : Text} {v v' : Bytes} (h : ArtifactManifest w digest v)
    (h' : ArtifactManifest w' digest v') (hcollision : NoCollision w w') : v = v' := by
  rcases h with ⟨raw, m, hraw, hdigest, hparse, hlayer⟩
  rcases h' with ⟨raw', m', hraw', hdigest', hparse', hlayer'⟩
  have hsame : raw = raw' :=
    hcollision raw raw' (.inl hraw) (.inr hraw') (hdigest.trans hdigest'.symm)
  subst hsame
  cases hparse.symm.trans hparse'
  cases hl : manifestLayer m with
  | none =>
      rw [hl] at hlayer hlayer'
      exact hlayer.trans hlayer'.symm
  | some layer =>
      rw [hl] at hlayer hlayer'
      exact hcollision v v' (.inl hlayer.1) (.inr hlayer'.1) (hlayer.2.trans hlayer'.2.symm)

/-- The read of an artifact's manifest that memory does not save. -/
theorem layerManifest_steps {reference : OciReference} {x : Except Text OciManifest} {s : Session}
    (hfiled : Filed w) (hmemory : w.remembered reference.digest = none)
    (hmanifest : (RegistryClient.new reference).manifest reference w.session = (x, s)) :
    s ≤ (r.layerManifest reference w).2.session ∧
      ((∃ b, (r.layerManifest reference w).1 = .ok b) → ∃ m, x = .ok m) ∧
      (∀ m, x = .ok m → manifestLayer m = none → (r.layerManifest reference w).1 = .ok []) ∧
      ∀ m layer, x = .ok m → manifestLayer m = some layer →
        (r.layerManifest reference w).1 = (r.manifestByDigest layer.digest
            (r.verified "manifest layer".toList layer.digest
              ((RegistryClient.new reference).blob layer.digest maxModuleManifestSize
                "manifest layer".toList)) { w with session := s }).1 ∧
          (r.layerManifest reference w).2.session = (r.manifestByDigest layer.digest
            (r.verified "manifest layer".toList layer.digest
              ((RegistryClient.new reference).blob layer.digest maxModuleManifestSize
                "manifest layer".toList)) { w with session := s }).2.session := by
  unfold layerManifest
  rw [hmemory]
  dsimp only
  rw [hmanifest]
  cases x with
  | error e => exact ⟨le_refl _, by simp, by simp, by simp⟩
  | ok m =>
      dsimp only
      cases hlayer : manifestLayer m with
      | none =>
          refine ⟨le_refl _, fun _ => ⟨m, rfl⟩, by simp, ?_⟩
          intro m' layer hm hsome
          cases hm
          rw [hlayer] at hsome
          cases hsome
      | some layer =>
          have hle : w.le { w with session := s } :=
            ⟨RegistryClient.manifest_le hmanifest, List.Subset.refl _⟩
          have hspec := manifestByDigest_spec (r := r) "manifest layer".toList layer.digest
            (reports_blob (RegistryClient.new reference) layer.digest "manifest layer".toList
              maxModuleManifestSize) (hfiled.mono hle rfl)
          dsimp only
          rcases hread : r.manifestByDigest layer.digest
              (r.verified "manifest layer".toList layer.digest
                ((RegistryClient.new reference).blob layer.digest maxModuleManifestSize
                  "manifest layer".toList)) { w with session := s } with ⟨e | b, w₁⟩
          -- the answer of the layer's read is the artifact's, an error or not
          all_goals
            rw [hread] at hspec
            refine ⟨hspec.1.session, fun _ => ⟨m, rfl⟩, ?_, ?_⟩
            · intro m' hm hnone
              cases hm
              rw [hlayer] at hnone
              cases hnone
            · intro m' layer' hm hlayer'
              cases hm
              rw [hlayer] at hlayer'
              cases hlayer'
              rw [hread]
              exact ⟨rfl, rfl⟩

omit [MacLibrary] in
theorem missesManifest_session {digest : Text} {s : Session} (h : r.MissesManifest w digest) :
    r.MissesManifest { w with session := s } digest := by
  have hworld : ({ w with session := s }.lookup r.manifests digest).2 =
      { (w.lookup r.manifests digest).2 with session := s } := by
    unfold World.lookup
    cases r.manifests <;> rfl
  refine ⟨h.memory, ?_, ?_⟩
  · rw [← h.store]
    unfold World.lookup
    cases r.manifests <;> rfl
  · rw [hworld, misses_session]
    exact h.blobs

/-- No tier has anything of an artifact's manifest. -/
structure LayerManifestAfresh (r : Resolver) (reference : OciReference) (w : World) : Prop where
  memory : w.remembered reference.digest = none
  layer : ∀ m layer, ((RegistryClient.new reference).manifest reference w.session).1 = .ok m →
    manifestLayer m = some layer → r.MissesManifest w layer.digest

theorem layerManifest_served {reference : OciReference} {b : Bytes} (hfiled : Filed w)
    (hfiled' : Filed w') (hafresh : r.LayerManifestAfresh reference w)
    (h : (r.layerManifest reference w).1 = .ok b)
    (hw : Faithful answer (r.layerManifest reference w).2.session)
    (hw' : Faithful answer (r'.layerManifest reference w').2.session) :
    ∃ b', (r'.layerManifest reference w').1 = .ok b' := by
  cases hmemory' : w'.remembered reference.digest with
  | some v => exact ⟨v, by simp [layerManifest, hmemory']⟩
  | none =>
      rcases hmanifest : (RegistryClient.new reference).manifest reference w.session with ⟨x, s⟩
      rcases hmanifest' : (RegistryClient.new reference).manifest reference w'.session with ⟨x', s'⟩
      rcases layerManifest_steps (r := r) hfiled hafresh.memory hmanifest with
        ⟨hgrows, hread, -, hlayer⟩
      rcases layerManifest_steps (r := r') hfiled' hmemory' hmanifest' with
        ⟨hgrows', -, hnone', hlayer'⟩
      -- both were told of the same artifact
      have hsame := ((RegistryClient.new reference).settles_manifest reference).same w.session
        w'.session (by rw [hmanifest]; exact antitone_faithful hgrows hw)
        (by rw [hmanifest']; exact antitone_faithful hgrows' hw')
      rw [hmanifest, hmanifest'] at hsame
      rcases hread ⟨b, h⟩ with ⟨m, hm⟩
      have hm' : x' = .ok m := hsame.symm.trans hm
      cases hpicked : manifestLayer m with
      | none => exact ⟨[], hnone' m hm' hpicked⟩
      | some layer =>
          rcases hlayer m layer hm hpicked with ⟨hresult, hsession⟩
          rcases hlayer' m layer hm' hpicked with ⟨hresult', hsession'⟩
          have hmiss : r.MissesManifest { w with session := s } layer.digest :=
            missesManifest_session (hafresh.layer m layer (by rw [hmanifest]; exact hm) hpicked)
          rw [hresult] at h
          rw [hsession] at hw
          rw [hsession'] at hw'
          rw [hresult']
          exact manifestByDigest_served (RegistryClient.settles_blob _ _ _ _) hmiss h hw hw'

end Manifests

section Json

omit [TarLibrary]

variable [ManifestLibrary]

/-- Nothing of the manifest is kept: it is asked for, or read from its file. -/
def ReadsAfresh (r : Resolver) (resolved : Resolved) (w : World) : Prop :=
  match resolved.manifest with
  | .none => True
  | .pathFile _ => True
  | .http _ digest => r.MissesManifest w digest
  | .ociLayer reference => r.LayerManifestAfresh reference w

/-- A manifest file is the same for two processes. -/
def SameManifestFile (resolved : Resolved) (w w' : World) : Prop :=
  ∀ full, resolved.manifest = .pathFile full → w.disk.content full = w'.disk.content full

omit [RegistryLibrary] [MacLibrary] in
theorem jsonOf_world (x : Except Text Bytes × World) : (jsonOf x).2 = x.2 := by
  rcases x with ⟨_ | _, _⟩ <;> rfl

omit [RegistryLibrary] [MacLibrary] in
theorem jsonOf_fst {x : Except Text Bytes × World} {b : Bytes} :
    (jsonOf x).1 = .ok b ↔ ∃ raw, x.1 = .ok raw ∧ ManifestLibrary.manifestJson raw = .ok b := by
  rcases x with ⟨e | raw, w⟩
  · simp [jsonOf]
  · simp [jsonOf]

/-- A manifest that one process reads afresh is the one that another one gets, where neither looks a
digest up that is in memory in the other use. -/
theorem manifest_served {resolved : Resolved} {b : Bytes} (hfiled : Filed w) (hfiled' : Filed w')
    (hapart' : Apart resolved w') (hfile : SameManifestFile resolved w w')
    (hafresh : r.ReadsAfresh resolved w) (h : (r.manifest resolved w).1 = .ok b)
    (hw : Faithful answer (r.manifest resolved w).2.session)
    (hw' : Faithful answer (r'.manifest resolved w').2.session)
    (hcollision : NoCollision (r.manifest resolved w).2 (r'.manifest resolved w').2) :
    (r'.manifest resolved w').1 = .ok b := by
  unfold ReadsAfresh at hafresh
  unfold Apart at hapart'
  unfold manifest at h hw hw' hcollision ⊢
  cases hsource : resolved.manifest with
  | none =>
      rw [hsource] at h
      exact h
  | pathFile full =>
      rw [hsource] at h
      dsimp only at h ⊢
      rcases jsonOf_fst.1 h with ⟨raw, hread, hjson⟩
      refine jsonOf_fst.2 ⟨raw, ?_, hjson⟩
      rw [readFile_ok] at hread ⊢
      rw [← hfile full hsource]
      exact hread
  | http url digest =>
      rw [hsource] at h hw hw' hcollision hafresh hapart'
      dsimp only at h hw hw' hcollision hafresh hapart' ⊢
      rw [jsonOf_world] at hw hw' hcollision
      rw [jsonOf_world] at hcollision
      rcases jsonOf_fst.1 h with ⟨raw, hread, hjson⟩
      have hreports := reports_httpGet url "manifest".toList maxModuleManifestSize
      rcases manifestByDigest_served (settles_httpGet _ _ _) hafresh hread hw hw' with ⟨raw', hraw'⟩
      have hsame := manifestByDigest_unique hreports hfiled hfiled' hafresh.own hapart' hread hraw'
        hcollision
      subst hsame
      exact jsonOf_fst.2 ⟨raw, hraw', hjson⟩
  | ociLayer reference =>
      rw [hsource] at h hw hw' hcollision hafresh hapart'
      dsimp only at h hw hw' hcollision hafresh hapart' ⊢
      rcases layerManifest_served hfiled hfiled' hafresh h hw hw' with ⟨b', hb'⟩
      have hspec := @layerManifest_spec _ _ r reference _ hfiled
        fun _ m layer hm hl => (hafresh.layer m layer hm hl).own
      have hspec' := @layerManifest_spec _ _ r' reference _ hfiled' hapart'.2
      have hartifact := hspec.2 b h (by
        intro v hv
        rw [hafresh.memory] at hv
        cases hv)
      have hartifact' := hspec'.2 b' hb' hapart'.1
      rw [artifactManifest_unique hartifact hartifact' hcollision]
      exact hb'

end Json

end Served
end Resolver
end FunctionWasm

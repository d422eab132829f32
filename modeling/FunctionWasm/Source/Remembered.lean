import FunctionWasm.Cache.Confinement
import FunctionWasm.Foundation.Transition
import FunctionWasm.Source.Pinned

/-!
# Remembered — what the memory tier of the manifest cache holds

The memory tier is one map with two uses: a digest may be there for the manifest that has it, or for
the artifact that it pins.  Nothing in the map says which.

* `Occurs` says that some bytes were served or read, and that is never taken back: `World.le`.
* `Filed` is what the map holds, in either use, and `filed_reachable` that it always does.
* `Apart` says that no lookup of a call finds its digest in the other use.
-/

namespace FunctionWasm

open RegistryClient (contentDigest)

/-! ## What was seen -/

/-- Some bytes came from the network or from a file, or are none at all. -/
def Occurs (w : World) (b : Bytes) : Prop :=
  b = [] ∨ (∃ url, Served w.session.log url b) ∨ ∃ path, FileOp.read path (some b) ∈ w.disk.log

/-- What was exchanged and read stays so. -/
structure World.le (w w' : World) : Prop where
  session : w.session.le w'.session
  disk : w.disk.log ⊆ w'.disk.log

theorem World.le.refl (w : World) : w.le w :=
  ⟨Session.le_refl _, List.Subset.refl _⟩

theorem World.le.trans {w w' w'' : World} (h : w.le w') (h' : w'.le w'') : w.le w'' :=
  ⟨Session.le_trans h.session h'.session, List.Subset.trans h.disk h'.disk⟩

theorem Occurs.mono {w w' : World} {b : Bytes} (h : Occurs w b) (hle : w.le w') : Occurs w' b := by
  rcases h with hnil | ⟨url, hserved⟩ | ⟨path, hread⟩
  · exact .inl hnil
  · exact .inr (.inl ⟨url, hserved.mono hle.session⟩)
  · exact .inr (.inr ⟨path, hle.disk hread⟩)

/-- A fetch that only asks, and returns what it was told. -/
def Reports (fetch : Session → Except Text Bytes × Session) : Prop :=
  ∀ s, s.le (fetch s).2 ∧
    ∀ b, (fetch s).1 = .ok b → ∃ url, Served (fetch s).2.log url b

theorem reports_httpGet (url what : Text) (limit : Nat) : Reports (httpGet url what limit) := by
  intro s
  have hle : s.le (s.ask ⟨url, none⟩).2 := Session.ask_le ..
  have hlog : (⟨⟨url, none⟩, s.answers s.log.length⟩ : Exchange) ∈ (s.ask ⟨url, none⟩).2.log := by
    simp [Session.ask]
  unfold httpGet
  rcases hask : s.ask ⟨url, none⟩ with ⟨e | b, s'⟩
  · rw [hask] at hle
    exact ⟨hle, by simp⟩
  · rw [hask] at hle hlog
    have hanswer : s.answers s.log.length = .ok b := congrArg Prod.fst hask
    rw [hanswer] at hlog
    dsimp only
    split
    · exact ⟨hle, by simp⟩
    · refine ⟨hle, ?_⟩
      intro b' hb
      cases hb
      exact ⟨url, none, hlog⟩

theorem reports_blob (client : RegistryClient) (digest label : Text) (limit : Nat) :
    Reports (client.blob digest limit label) := by
  intro s
  refine ⟨RegistryClient.blob_le rfl, ?_⟩
  unfold RegistryClient.blob
  rcases hget : RegistryClient.getAs (client.blobUrl digest) none limit "module".toList s with
    ⟨e | b, s'⟩
  · simp
  · intro b' hb
    cases hb
    exact ⟨_, RegistryClient.getAs_ok hget⟩

theorem readFile_log (what full : Text) (limit : Nat) (d : Disk) :
    d.log ⊆ (readFile what full limit d).2.log := by
  have hread : d.log ⊆ (d.read full).2.log := by
    rw [Disk.read_log]
    exact List.subset_append_left _ _
  unfold readFile
  rcases hfound : d.read full with ⟨e | b, d'⟩
  · rw [hfound] at hread
    exact hread
  · rw [hfound] at hread
    dsimp only
    split <;> exact hread

section Seen

variable [RegistryLibrary]

theorem World.lookup_le (w : World) (store : Option Store) (digest : Text) :
    w.le (w.lookup store digest).2 := by
  cases store with
  | none => exact .refl w
  | some st =>
      rcases get_log st digest w.disk with ⟨content, rest, hlog, -⟩
      have hsub : w.disk.log ⊆ (st.get digest w.disk).2.log := by
        rw [hlog]
        exact List.subset_append_left _ _
      exact ⟨Session.le_refl _, hsub⟩

/-- What a store returned was read. -/
theorem World.lookup_occurs {w w' : World} {store : Option Store} {digest : Text} {b : Bytes}
    (h : w.lookup store digest = (some b, w')) : Occurs w' b := by
  cases store with
  | none => cases h
  | some st =>
      unfold lookup Store.get Disk.read at h
      dsimp only at h
      cases hcontent : w.disk.content (st.entryPath digest) with
      | none => simp [hcontent] at h
      | some content =>
          simp only [hcontent] at h
          split at h
          · cases h
          · cases h
            exact .inr (.inr ⟨st.entryPath digest, by simp [World.leave]⟩)

variable [MacLibrary]

theorem World.save_le (w : World) (store : Option Store) {digest : Text} {b : Bytes}
    (hdigest : contentDigest b = digest) : w.le (w.save store digest b) := by
  cases store with
  | none => exact .refl w
  | some st =>
      rcases put_within st w.disk hdigest with ⟨ops, hops, -⟩
      have hsub : w.disk.log ⊆ (st.put digest b w.disk).2.log := by
        rw [hops]
        exact List.subset_append_left _ _
      exact ⟨Session.le_refl _, hsub⟩

end Seen

/-! ## The map -/

theorem World.remember_le (w : World) (key : Text) (m : Bytes) : w.le (w.remember key m) :=
  ⟨Session.le_refl _, List.Subset.refl _⟩

theorem World.remembered_remember (w : World) (key : Text) (m : Bytes) :
    (w.remember key m).remembered key = some m := by
  unfold remembered remember
  exact AList.lookup_insert _

/-- What is under another digest was there before; it may be gone when the map was full. -/
theorem World.remembered_of_remember {w : World} {key other : Text} {m v : Bytes}
    (h : (w.remember key m).remembered other = some v) (hne : other ≠ key) :
    w.remembered other = some v := by
  unfold remembered remember at h
  rw [AList.lookup_insert_ne hne] at h
  split at h
  · rw [AList.lookup_empty] at h
    cases h
  · exact h

section Map

variable [RegistryLibrary]

/-- The manifest of some artifact that was served and hashes to a digest. -/
def ArtifactManifest (w : World) (digest : Text) (v : Bytes) : Prop :=
  ∃ raw m, Occurs w raw ∧ contentDigest raw = digest ∧
    RegistryLibrary.manifestFromJson raw = .ok m ∧
    match manifestLayer m with
    | none => v = []
    | some layer => Occurs w v ∧ contentDigest v = layer.digest

theorem ArtifactManifest.mono {w w' : World} {digest : Text} {v : Bytes}
    (h : ArtifactManifest w digest v) (hle : w.le w') : ArtifactManifest w' digest v := by
  rcases h with ⟨raw, m, hraw, hdigest, hparse, hlayer⟩
  refine ⟨raw, m, hraw.mono hle, hdigest, hparse, ?_⟩
  split at hlayer
  · exact hlayer
  · exact ⟨hlayer.1.mono hle, hlayer.2⟩

/-- Under a digest there is the manifest that has it, or the one of the artifact that it pins. -/
def FiledAs (w : World) (digest : Text) (v : Bytes) : Prop :=
  (Occurs w v ∧ contentDigest v = digest) ∨ ArtifactManifest w digest v

theorem FiledAs.mono {w w' : World} {digest : Text} {v : Bytes} (h : FiledAs w digest v)
    (hle : w.le w') : FiledAs w' digest v := by
  rcases h with ⟨hseen, hdigest⟩ | hartifact
  · exact .inl ⟨hseen.mono hle, hdigest⟩
  · exact .inr (hartifact.mono hle)

theorem FiledAs.occurs {w : World} {digest : Text} {v : Bytes} (h : FiledAs w digest v) :
    Occurs w v := by
  rcases h with ⟨hseen, -⟩ | ⟨raw, m, -, -, -, hlayer⟩
  · exact hseen
  · split at hlayer
    · exact .inl hlayer
    · exact hlayer.1

/-- Everything in the map is filed in one of the two uses. -/
def Filed (w : World) : Prop :=
  ∀ digest v, w.remembered digest = some v → FiledAs w digest v

theorem Filed.mono {w w' : World} (h : Filed w) (hle : w.le w')
    (hmap : w'.cachedManifests = w.cachedManifests) : Filed w' := by
  intro digest v hv
  have hv' : w.remembered digest = some v := by
    rw [← hv, World.remembered, World.remembered, hmap]
  exact (h digest v hv').mono hle

theorem Filed.remember {w : World} {digest : Text} {v : Bytes} (h : Filed w)
    (hfiled : FiledAs w digest v) : Filed (w.remember digest v) := by
  intro other v' hv'
  by_cases hother : other = digest
  · subst hother
    rw [World.remembered_remember] at hv'
    cases hv'
    exact hfiled.mono (w.remember_le other v)
  · exact (h other v' (World.remembered_of_remember hv' hother)).mono (w.remember_le digest v)

/-- What is under a digest is there for the content that has it. -/
def Own (w : World) (digest : Text) : Prop :=
  ∀ v, w.remembered digest = some v → contentDigest v = digest

/-- No lookup of a call finds its digest in the other use. -/
def Apart (resolved : Resolved) (w : World) : Prop :=
  match resolved.manifest with
  | .none => True
  | .pathFile _ => True
  | .http _ digest => Own w digest
  | .ociLayer reference =>
      (∀ v, w.remembered reference.digest = some v → contentDigest v ≠ reference.digest) ∧
      (w.remembered reference.digest = none →
        ∀ m layer, ((RegistryClient.new reference).manifest reference w.session).1 = .ok m →
          manifestLayer m = some layer → Own w layer.digest)

end Map

/-! ## What the calls leave in the map -/

namespace Resolver

section Calls

variable [RegistryLibrary] [MacLibrary] {r : Resolver}

/-- What was verified was seen and has the digest; the map has no part in it. -/
theorem verified_spec (what digest : Text) {fetch : Session → Except Text Bytes × Session}
    (hfetch : Reports fetch) (w : World) :
    w.le (r.verified what digest fetch w).2 ∧
      (r.verified what digest fetch w).2.cachedManifests = w.cachedManifests ∧
      ∀ b, (r.verified what digest fetch w).1 = .ok b →
        Occurs (r.verified what digest fetch w).2 b ∧ contentDigest b = digest := by
  have hle := w.lookup_le r.blobs digest
  have hmap : (w.lookup r.blobs digest).2.cachedManifests = w.cachedManifests := by
    cases r.blobs <;> rfl
  unfold verified
  rcases hfound : w.lookup r.blobs digest with ⟨_ | b, w₁⟩
  · rw [hfound] at hle hmap
    dsimp only at hle hmap ⊢
    have hreport := hfetch w₁.session
    rcases hasked : fetch w₁.session with ⟨e | b, s⟩
    · rw [hasked] at hreport
      exact ⟨hle.trans ⟨hreport.1, List.Subset.refl _⟩, hmap, by simp⟩
    · rw [hasked] at hreport
      have hasked' : w.le { w₁ with session := s } := hle.trans ⟨hreport.1, List.Subset.refl _⟩
      dsimp only
      split
      · next hdigest =>
          have hsave := World.save_le { w₁ with session := s } r.blobs hdigest
          refine ⟨hasked'.trans hsave, ?_, ?_⟩
          · rw [← hmap]
            cases r.blobs <;> rfl
          · intro b' hb
            cases hb
            have hseen : Occurs { w₁ with session := s } b := .inr (.inl (hreport.2 b rfl))
            exact ⟨hseen.mono hsave, hdigest⟩
      · exact ⟨hasked', hmap, by simp⟩
  · rw [hfound] at hle hmap
    refine ⟨hle, hmap, ?_⟩
    intro b' hb
    cases hb
    exact ⟨World.lookup_occurs hfound,
      World.lookup_sound r.blobs_verify (congrArg Prod.fst hfound)⟩

/-- The tiers keep everything filed, and return what has the digest where the digest is not there in
the other use. -/
theorem manifestByDigest_spec (what digest : Text)
    {fetch : Session → Except Text Bytes × Session} (hfetch : Reports fetch) {w : World}
    (h : Filed w) :
    w.le (r.manifestByDigest digest (r.verified what digest fetch) w).2 ∧
      Filed (r.manifestByDigest digest (r.verified what digest fetch) w).2 ∧
      ∀ b, (r.manifestByDigest digest (r.verified what digest fetch) w).1 = .ok b →
        Own w digest →
          Occurs (r.manifestByDigest digest (r.verified what digest fetch) w).2 b ∧
            contentDigest b = digest := by
  have hle := w.lookup_le r.manifests digest
  have hmap : (w.lookup r.manifests digest).2.cachedManifests = w.cachedManifests := by
    cases r.manifests <;> rfl
  unfold manifestByDigest
  cases hmemory : w.remembered digest with
  | some v =>
      refine ⟨.refl w, h, ?_⟩
      intro b hb hown
      cases hb
      exact ⟨(h digest v hmemory).occurs, hown v hmemory⟩
  | none =>
      dsimp only
      -- not in memory: the disk tier first, the registry after it
      rcases hfound : w.lookup r.manifests digest with ⟨_ | v, w₁⟩
      · rw [hfound] at hle hmap
        dsimp only at hle hmap ⊢
        have hverified := verified_spec (r := r) what digest hfetch w₁
        rcases hanswer : r.verified what digest fetch w₁ with ⟨e | v, w₂⟩
        · rw [hanswer] at hverified
          have hle' := hle.trans hverified.1
          exact ⟨hle', h.mono hle' (hverified.2.1.trans hmap), by simp⟩
        · rw [hanswer] at hverified
          rcases hverified with ⟨hle₂, hmap₂, hspec⟩
          rcases hspec v rfl with ⟨hseen, hdigest⟩
          -- what was fetched is saved and then remembered
          have hsave : w₂.le (w₂.save r.manifests digest v) := w₂.save_le r.manifests hdigest
          have hsaved : (w₂.save r.manifests digest v).cachedManifests = w.cachedManifests := by
            rw [← hmap, ← hmap₂]
            cases r.manifests <;> rfl
          have hle' := (hle.trans hle₂).trans hsave
          have hremember := (w₂.save r.manifests digest v).remember_le digest v
          refine ⟨hle'.trans hremember, ?_, ?_⟩
          · exact (h.mono hle' hsaved).remember (.inl ⟨hseen.mono hsave, hdigest⟩)
          · intro b hb _
            cases hb
            exact ⟨(hseen.mono hsave).mono hremember, hdigest⟩
      · rw [hfound] at hle hmap
        have hseen := World.lookup_occurs hfound
        have hdigest : contentDigest v = digest :=
          World.lookup_sound r.manifests_verify (congrArg Prod.fst hfound)
        have hremember := w₁.remember_le digest v
        refine ⟨hle.trans hremember, (h.mono hle hmap).remember (.inl ⟨hseen, hdigest⟩), ?_⟩
        intro b hb _
        cases hb
        exact ⟨hseen.mono hremember, hdigest⟩

/-- Reading the manifest of an artifact keeps everything filed where the layer's digest is not there
in the other use, and returns the artifact's manifest where its own is not either. -/
theorem layerManifest_spec {reference : OciReference} {w : World} (h : Filed w)
    (hown : w.remembered reference.digest = none →
      ∀ m layer, ((RegistryClient.new reference).manifest reference w.session).1 = .ok m →
        manifestLayer m = some layer → Own w layer.digest) :
    Filed (r.layerManifest reference w).2 ∧
      ∀ b, (r.layerManifest reference w).1 = .ok b →
        (∀ v, w.remembered reference.digest = some v → contentDigest v ≠ reference.digest) →
          ArtifactManifest (r.layerManifest reference w).2 reference.digest b := by
  unfold layerManifest
  cases hmemory : w.remembered reference.digest with
  | some v =>
      refine ⟨h, ?_⟩
      intro b hb hpin
      cases hb
      rcases h _ _ hmemory with ⟨-, hcontent⟩ | hartifact
      · -- filed by content, which the pin rules out
        exact absurd hcontent (hpin v rfl)
      · exact hartifact
  | none =>
      dsimp only
      rcases hmanifest : (RegistryClient.new reference).manifest reference w.session with ⟨e | m, s⟩
      · -- no document was answered, so nothing is remembered
        exact ⟨h.mono ⟨RegistryClient.manifest_le hmanifest, List.Subset.refl _⟩ rfl, by simp⟩
      · rw [hmanifest] at hown
        have hle : w.le { w with session := s } :=
          ⟨RegistryClient.manifest_le hmanifest, List.Subset.refl _⟩
        have hfiled : Filed { w with session := s } := h.mono hle rfl
        rcases RegistryClient.manifest_ok hmanifest with ⟨raw, hserved, hdigest, hparse⟩
        have hraw : Occurs { w with session := s } raw := .inr (.inl ⟨_, hserved⟩)
        dsimp only
        cases hlayer : manifestLayer m with
        | none =>
            -- the artifact has no manifest: the empty one is filed under it
            have hartifact : ArtifactManifest { w with session := s } reference.digest [] :=
              ⟨raw, m, hraw, hdigest, hparse, by simp [hlayer]⟩
            refine ⟨hfiled.remember (.inr hartifact), ?_⟩
            intro b hb _
            cases hb
            exact hartifact.mono (World.remember_le _ _ _)
        | some layer =>
            have hread := manifestByDigest_spec (r := r) "manifest layer".toList layer.digest
              (reports_blob (RegistryClient.new reference) layer.digest "manifest layer".toList
                maxModuleManifestSize) hfiled
            dsimp only
            rcases hanswer : r.manifestByDigest layer.digest
                (r.verified "manifest layer".toList layer.digest
                  ((RegistryClient.new reference).blob layer.digest maxModuleManifestSize
                    "manifest layer".toList)) { w with session := s } with ⟨e | b, w₂⟩
            · rw [hanswer] at hread
              exact ⟨hread.2.1, by simp⟩
            · rw [hanswer] at hread
              rcases hread with ⟨hle₂, hfiled₂, hspec⟩
              rcases hspec b rfl (hown hmemory m layer rfl hlayer) with ⟨hseen, hcontent⟩
              have hartifact : ArtifactManifest w₂ reference.digest b :=
                ⟨raw, m, hraw.mono hle₂, hdigest, hparse, by simp [hlayer, hseen, hcontent]⟩
              refine ⟨hfiled₂.remember (.inr hartifact), ?_⟩
              intro b' hb' _
              cases hb'
              exact hartifact.mono (World.remember_le _ _ _)

/-- A read of a manifest keeps everything filed where none of its digests is there in the other
use. -/
theorem manifest_filed [ManifestLibrary] {resolved : Resolved} {w : World} (h : Filed w)
    (hapart : Apart resolved w) : Filed (r.manifest resolved w).2 := by
  have hjson : ∀ x : Except Text Bytes × World, (jsonOf x).2 = x.2 := by
    rintro ⟨_ | _, _⟩ <;> rfl
  unfold Apart at hapart
  unfold manifest
  cases hsource : resolved.manifest with
  | none => exact h
  | pathFile full =>
      dsimp only
      rw [hjson]
      have hlog : w.disk.log ⊆ (readFile "manifest".toList full maxModuleManifestSize w.disk).2.log :=
        readFile_log ..
      exact h.mono ⟨Session.le_refl _, hlog⟩ rfl
  | http url digest =>
      dsimp only
      rw [hjson]
      exact (manifestByDigest_spec _ _ (reports_httpGet _ _ _) h).2.1
  | ociLayer reference =>
      rw [hsource] at hapart
      exact (layerManifest_spec h hapart.2).1

/-- A fetch leaves the map as it is. -/
theorem fetch_filed [TarLibrary] {resolved : Resolved} {w : World} (h : Filed w) :
    Filed (r.fetch resolved w).2 := by
  cases hsource : resolved.source with
  | path full =>
      -- the bytes of a file are checked, but filed nowhere
      have hlog := readFile_log "module".toList full r.maxSize w.disk
      unfold fetch fetchPath
      rw [hsource]
      dsimp only
      rcases hread : readFile "module".toList full r.maxSize w.disk with ⟨e | b, disk⟩
      · rw [hread] at hlog
        exact h.mono ⟨Session.le_refl _, hlog⟩ rfl
      · rw [hread] at hlog
        dsimp only
        split
        · exact h.mono ⟨Session.le_refl _, hlog⟩ rfl
        · exact h.mono ⟨Session.le_refl _, hlog⟩ rfl
  | http url =>
      have hverified := verified_spec (r := r) "module".toList resolved.digest
        (reports_httpGet url "module".toList r.maxSize) w
      unfold fetch
      rw [hsource]
      exact h.mono hverified.1 hverified.2.1
  | oci reference =>
      rw [fetch_world hsource]
      unfold fetchLayer
      dsimp only
      rcases hmanifest : (RegistryClient.new reference).manifest reference w.session with ⟨e | m, s⟩
      · exact h.mono ⟨RegistryClient.manifest_le hmanifest, List.Subset.refl _⟩ rfl
      · have hle : w.le { w with session := s } :=
          ⟨RegistryClient.manifest_le hmanifest, List.Subset.refl _⟩
        dsimp only
        split
        · exact h.mono hle rfl
        · next layer _ =>
            have hverified := verified_spec (r := r) "module layer".toList layer.digest
              (reports_blob (RegistryClient.new reference) layer.digest "module layer".toList
                r.maxSize) { w with session := s }
            have hfiled := h.mono (hle.trans hverified.1) hverified.2.1
            split
            · next heq =>
                rw [heq] at hfiled
                exact hfiled
            · next heq =>
                rw [heq] at hfiled
                exact hfiled

/-- What a layer was fetched as was seen. -/
theorem fetchLayer_occurs {reference : OciReference} {w w' : World} {layer : Descriptor} {b : Bytes}
    (h : r.fetchLayer reference w = (.ok (layer, b), w')) : Occurs w' b := by
  unfold fetchLayer at h
  dsimp only at h
  split at h
  · cases h
  · next m s hmanifest =>
      split at h
      · cases h
      · next layer' _ =>
          have hverified := verified_spec (r := r) "module layer".toList layer'.digest
            (reports_blob (RegistryClient.new reference) layer'.digest "module layer".toList
              r.maxSize) { w with session := s }
          split at h
          · cases h
          · next heq =>
              cases h
              rw [heq] at hverified
              exact (hverified.2.2 b rfl).1

end Calls

/-! ## Histories -/

/-- A call of a resolver. -/
inductive Call where
  | fetch (resolved : Resolved)
  | manifest (resolved : Resolved)

section Histories

variable [RegistryLibrary] [MacLibrary] [TarLibrary] [ManifestLibrary] (r : Resolver)

def after (w : World) : Call → World
  | .fetch resolved => (r.fetch resolved w).2
  | .manifest resolved => (r.manifest resolved w).2

/-- A process starts with nothing in memory, and with any files. -/
def cacheSystem : TransitionSystem World Call where
  init w := w.cachedManifests = ∅
  step w a w' := w' = r.after w a

/-- A fetch looks nothing up in memory. -/
def CallApart (w : World) : Call → Prop
  | .fetch _ => True
  | .manifest resolved => Apart resolved w

variable {r}

/-- Where no lookup finds its digest in the other use, everything is always filed. -/
theorem filed_reachable {w : World} (h : ((cacheSystem r).restrict CallApart).Reachable w) :
    Filed w := by
  apply h.invariant
  · intro w hempty digest v hv
    have hempty' : w.cachedManifests = ∅ := hempty
    rw [World.remembered, hempty', AList.lookup_empty] at hv
    cases hv
  · rintro w a w' - hfiled ⟨hapart, rfl⟩
    cases a with
    | fetch resolved => exact fetch_filed hfiled
    | manifest resolved => exact manifest_filed hfiled hapart

end Histories
end Resolver
end FunctionWasm

import FunctionWasm.Source.Fetch

/-!
# Pinned — what a fetch returns is what the digest stands for

A file or a download is the content with the resolved digest.  A pull is a chain: the digest pins the
artifact's manifest, the manifest its layer, and the layer is the module or a tar archive that holds
it.  Network, files and registry are arbitrary, also between the operations of one call.

* `Store.get_sound` says what a verifying store returns, whatever is in its directory.
* `fetchLayer_chain` is the chain from a pinned digest to the bytes of a layer.
* `fetch_pinned` says exactly when every fetch returns what is pinned.
* `hidden_file_fetched` is a fetch that does not: the archive holds no `/fn.wasm`.
-/

namespace FunctionWasm

open RegistryClient (contentDigest)

/-! ## Content under its digest -/

section Stores

variable [RegistryLibrary]

/-- A verifying store returns nothing that does not hash to the digest asked for. -/
theorem Store.get_sound {st : Store} {digest : Text} {d : Disk} {b : Bytes}
    (hverify : st.verify = true) (h : (st.get digest d).1 = some b) : contentDigest b = digest := by
  unfold Store.get at h
  dsimp only at h
  split at h
  · cases h
  · split at h
    · cases h
    · next hmatch =>
        cases h
        simpa [hverify] using hmatch

theorem World.lookup_sound {w : World} {store : Option Store} {digest : Text} {b : Bytes}
    (hverify : ∀ st ∈ store, st.verify = true) (h : (w.lookup store digest).1 = some b) :
    contentDigest b = digest := by
  cases store with
  | none => cases h
  | some st => exact Store.get_sound (hverify st rfl) h

/-- A lookup asks no one. -/
theorem World.lookup_session (w : World) (store : Option Store) (digest : Text) :
    (w.lookup store digest).2.session = w.session := by
  cases store <;> rfl

variable [MacLibrary]

theorem World.save_session (w : World) (store : Option Store) (digest : Text) (b : Bytes) :
    (w.save store digest b).session = w.session := by
  cases store <;> rfl

end Stores

namespace Resolver

/-- A file that was fetched has the digest it was resolved to. -/
theorem fetchPath_ok [RegistryLibrary] {r : Resolver} {full digest : Text} {w w' : World} {b : Bytes}
    (h : r.fetchPath full digest w = (.ok b, w')) : contentDigest b = digest := by
  unfold fetchPath at h
  split at h
  · cases h
  · split at h
    · next hdigest =>
        cases h
        exact hdigest
    · cases h

section Chain

variable [RegistryLibrary] [MacLibrary] {r : Resolver}

/-- What was verified has the digest, and only the fetch asked anyone. -/
theorem verified_ok {what digest : Text} {fetch : Session → Except Text Bytes × Session}
    {w w' : World} {b : Bytes} (h : r.verified what digest fetch w = (.ok b, w')) :
    contentDigest b = digest ∧
      (w'.session = w.session ∨ w'.session = (fetch w.session).2) := by
  have hlookup := w.lookup_session r.blobs digest
  unfold verified at h
  split at h
  · next found w₁ hfound =>
      cases h
      rw [hfound] at hlookup
      exact ⟨World.lookup_sound r.blobs_verify (congrArg Prod.fst hfound), .inl hlookup⟩
  · next w₁ hfound =>
      rw [hfound] at hlookup
      rw [hlookup] at h
      split at h
      · cases h
      · next s hfetch =>
          split at h
          · next hdigest =>
              cases h
              exact ⟨hdigest, .inr (by rw [World.save_session, hfetch])⟩
          · cases h

/-- A manifest that the registry served hashes to the pinned digest and states the layer, and the
bytes hash to the layer's digest. -/
structure Chain (reference : OciReference) (log : List Exchange) (layer : Descriptor)
    (archive : Bytes) : Prop where
  manifest : ∃ raw m,
    Served log ((RegistryClient.new reference).manifestUrl reference.digest) raw ∧
      contentDigest raw = reference.digest ∧ RegistryLibrary.manifestFromJson raw = .ok m ∧
      wasmLayer m = .ok layer
  layer : contentDigest archive = layer.digest

theorem fetchLayer_chain {reference : OciReference} {w w' : World} {layer : Descriptor}
    {archive : Bytes} (h : r.fetchLayer reference w = (.ok (layer, archive), w')) :
    Chain reference w'.session.log layer archive := by
  unfold fetchLayer at h
  dsimp only at h
  split at h
  · cases h
  · next m s hmanifest =>
      rcases RegistryClient.manifest_ok hmanifest with ⟨raw, hserved, hdigest, hparse⟩
      split at h
      · cases h
      · next hlayer =>
          split at h
          · cases h
          · next hverified =>
              cases h
              rcases verified_ok hverified with ⟨hcontent, hsession⟩
              refine ⟨⟨raw, m, ?_, hdigest, hparse, hlayer⟩, hcontent⟩
              -- the layer's request comes after the manifest's
              rcases hsession with hsame | hasked
              · rw [hsame]
                exact hserved
              · rw [hasked]
                exact hserved.mono (RegistryClient.blob_le rfl)

end Chain

section Layers

variable [TarLibrary]

/-- Whether some bytes are the module that a layer holds: the layer itself, or the file `fn.wasm` of
the root of its archive. -/
def HoldsModule (r : Resolver) (layer : Descriptor) (archive b : Bytes) : Prop :=
  if isTarLayer layer.mediaType then
    ∃ e, rootModule archive r.maxSize = some e ∧ e.content = .ok b
  else b = archive

theorem HoldsModule.isSome {r : Resolver} {layer : Descriptor} {archive b : Bytes}
    (h : r.HoldsModule layer archive b) (htar : isTarLayer layer.mediaType = true) :
    (rootModule archive r.maxSize).isSome = true := by
  unfold HoldsModule at h
  rw [if_pos htar] at h
  rcases h with ⟨e, he, -⟩
  rw [he, Option.isSome_some]

/-- What is taken for the module of a layer is its module unless a decoy is taken. -/
theorem moduleOf_holds {r : Resolver} {layer : Descriptor} {archive : Bytes} :
    (∀ b, r.moduleOf layer archive = .ok b → r.HoldsModule layer archive b) ↔
      (isTarLayer layer.mediaType = true →
        ∀ e b, takenModule archive r.maxSize = some e → e.content = .ok b → b.length ≤ r.maxSize →
          ∃ root, rootModule archive r.maxSize = some root ∧ root.content = .ok b) := by
  unfold moduleOf HoldsModule
  by_cases htar : isTarLayer layer.mediaType = true
  · simp only [htar, if_true, forall_const]
    constructor
    · intro h e b htaken hcontent hsize
      exact h b (extractWasm_ok.2 ⟨e, htaken, hcontent, hsize⟩)
    · intro h b hb
      rcases extractWasm_ok.1 hb with ⟨e, htaken, hcontent, hsize⟩
      exact h e b htaken hcontent hsize
  · simp [htar, eq_comm]

end Layers

section Modules

variable [RegistryLibrary] [MacLibrary] [TarLibrary]

/-- The bytes that a resolved source is pinned to. -/
def Pinned (r : Resolver) (resolved : Resolved) (w : World) (b : Bytes) : Prop :=
  match resolved.source with
  | .path _ => contentDigest b = resolved.digest
  | .http _ => contentDigest b = resolved.digest
  | .oci reference =>
      ∃ layer archive, (r.fetchLayer reference w).1 = .ok (layer, archive) ∧
        Chain reference (r.fetch resolved w).2.session.log layer archive ∧
        r.HoldsModule layer archive b

/-- No archive that is pulled has, as its first regular file named `fn.wasm` after leading dots and
slashes, one that can be read but is not the root's `fn.wasm` nor a copy of it. -/
def NoDecoy (r : Resolver) (resolved : Resolved) (w : World) : Prop :=
  ∀ reference layer archive, resolved.source = .oci reference →
    (r.fetchLayer reference w).1 = .ok (layer, archive) → isTarLayer layer.mediaType = true →
      ∀ e b, takenModule archive r.maxSize = some e → e.content = .ok b → b.length ≤ r.maxSize →
        ∃ root, rootModule archive r.maxSize = some root ∧ root.content = .ok b

variable {r : Resolver}

/-- A pull succeeds with what is taken for the module of the layer that it gets. -/
theorem fetch_oci {resolved : Resolved} {reference : OciReference} {w : World} {b : Bytes}
    (hsource : resolved.source = .oci reference) :
    (r.fetch resolved w).1 = .ok b ↔
      ∃ layer archive, (r.fetchLayer reference w).1 = .ok (layer, archive) ∧
        r.moduleOf layer archive = .ok b := by
  unfold fetch
  rw [hsource]
  dsimp only
  rcases r.fetchLayer reference w with ⟨_ | ⟨layer, archive⟩, w'⟩ <;> simp

/-- Taking the module out of a layer leaves the world as it is. -/
theorem fetch_world {resolved : Resolved} {reference : OciReference} {w : World}
    (hsource : resolved.source = .oci reference) :
    (r.fetch resolved w).2 = (r.fetchLayer reference w).2 := by
  unfold fetch
  rw [hsource]
  dsimp only
  rcases r.fetchLayer reference w with ⟨_ | ⟨layer, archive⟩, w'⟩ <;> rfl

theorem fetch_pinned_iff (resolved : Resolved) (w : World) :
    (∀ b, (r.fetch resolved w).1 = .ok b → r.Pinned resolved w b) ↔ r.NoDecoy resolved w := by
  cases hsource : resolved.source with
  | path full =>
      simp only [NoDecoy, hsource, reduceCtorEq, false_implies, implies_true, iff_true]
      intro b h
      simp only [Pinned, hsource]
      have hfetch : r.fetch resolved w = r.fetchPath full resolved.digest w := by
        unfold fetch
        rw [hsource]
      rw [hfetch] at h
      exact fetchPath_ok (Prod.ext h rfl)
  | http url =>
      simp only [NoDecoy, hsource, reduceCtorEq, false_implies, implies_true, iff_true]
      intro b h
      simp only [Pinned, hsource]
      have hfetch : r.fetch resolved w =
          r.verified "module".toList resolved.digest (httpGet url "module".toList r.maxSize) w := by
        unfold fetch
        rw [hsource]
      rw [hfetch] at h
      have hverified : r.verified "module".toList resolved.digest
          (httpGet url "module".toList r.maxSize) w = (.ok b, _) := Prod.ext h rfl
      exact (verified_ok hverified).1
  | oci reference =>
      simp only [Pinned, hsource]
      constructor
      · intro h reference' layer archive hsource' hlayer
        have hreference : reference = reference' := by
          rw [hsource] at hsource'
          injection hsource'
        subst hreference
        apply moduleOf_holds.1
        intro b hb
        rcases h b ((fetch_oci hsource).2 ⟨layer, archive, hlayer, hb⟩) with
          ⟨layer', archive', hlayer', -, hholds⟩
        -- a call gets one layer
        rw [hlayer] at hlayer'
        cases hlayer'
        exact hholds
      · intro h b hb
        rcases (fetch_oci hsource).1 hb with ⟨layer, archive, hlayer, hmodule⟩
        have hfetched : r.fetchLayer reference w =
            (.ok (layer, archive), (r.fetchLayer reference w).2) := Prod.ext hlayer rfl
        refine ⟨layer, archive, hlayer, ?_, ?_⟩
        · rw [fetch_world hsource]
          exact fetchLayer_chain hfetched
        · exact moduleOf_holds.2 (h reference layer archive hsource hlayer) b hmodule

/-- Every fetch returns what its source is pinned to exactly where no decoy is taken from an
archive, and a verifying store returns nothing that does not hash to the name it is kept under. -/
theorem fetch_pinned :
    (∀ (r : Resolver) (resolved : Resolved) (w : World),
      (∀ b, (r.fetch resolved w).1 = .ok b → r.Pinned resolved w b) ↔ r.NoDecoy resolved w) ∧
    ∀ (st : Store) (digest : Text) (d : Disk) (b : Bytes), st.verify = true →
      (st.get digest d).1 = some b → contentDigest b = digest :=
  ⟨fun _ => fetch_pinned_iff, fun _ _ _ _ => Store.get_sound⟩

end Modules

/-! ## A hidden file -/

section Examples

def hiddenLayer : Descriptor where
  mediaType := "application/vnd.oci.image.layer.v1.tar".toList
  digest := "sha256:02".toList ++ List.replicate 62 '0'
  size := 1

/-- A hash that fills the content up with zeros, and one manifest, of one layer. -/
@[reducible] def hiddenRegistry : RegistryLibrary where
  sha256 b := b ++ List.replicate (32 - b.length) 0
  manifestFromJson raw :=
    if raw = [1] then
      .ok { mediaType := ociManifestType
            layers := [hiddenLayer]
            subject := none
            manifests := [] }
    else .error []
  indexFromJson _ := .error []

@[reducible] def untouchedMac : MacLibrary where
  mac _ b := b

/-- An archive with one file, which is hidden. -/
@[reducible] def hiddenFile : TarLibrary where
  entries _ _ := .ok [.ok ⟨true, ".fn.wasm".toList, .ok [3]⟩]

attribute [local instance] asciiTables hiddenRegistry untouchedMac hiddenFile

def hiddenSource : ModuleSource where
  type := typeOci
  oci := some ⟨"r.io/m@sha256:01".toList ++ List.replicate 62 '0', []⟩
  http := none
  path := []
  manifestPath := []
  fromField := []
  allowEmpty := false

def bareResolver : Resolver where
  maxSize := 10
  blobs := none
  manifests := none
  blobs_verify := Store.verify_of_none
  manifests_verify := Store.verify_of_none

def hiddenWorld : World where
  session := { answers := fun n => if n = 0 then .ok [1] else .ok [2], log := [] }
  disk :=
    { files := fun _ => none, others := fun _ files => files, fails := fun _ => true
      errors := fun _ => [], random := fun _ => [], log := [] }
  files := ∅
  cachedManifests := ∅
  storeOps := []

def hiddenReference : OciReference where
  registry := "r.io".toList
  repository := "m".toList
  digest := "sha256:01".toList ++ List.replicate 62 '0'

def hiddenResolved : Resolved where
  digest := hiddenReference.digest
  description := "oci r.io/m@sha256:01".toList ++ List.replicate 62 '0'
  source := .oci hiddenReference
  manifest := .ociLayer hiddenReference

/-- The archive holds `.fn.wasm` only, and that is fetched as the module. -/
theorem hidden_file_fetched :
    validateSource hiddenSource = .ok () ∧
      resolve (fun _ _ => .error []) hiddenSource = .ok hiddenResolved ∧
      ∃ b, (bareResolver.fetch hiddenResolved hiddenWorld).1 = .ok b ∧
        ¬ bareResolver.Pinned hiddenResolved hiddenWorld b := by
  have hvalid : validateSource hiddenSource = .ok () := by decide +kernel
  have hresolve : resolve (fun _ _ => .error []) hiddenSource = .ok hiddenResolved := by
    decide +kernel
  have hfetch : (bareResolver.fetch hiddenResolved hiddenWorld).1 = .ok [3] := by decide +kernel
  refine ⟨hvalid, hresolve, [3], hfetch, ?_⟩
  rintro ⟨layer, archive, hlayer, -, hholds⟩
  -- the call gets the one layer, and no file of its archive is the module
  have hfetched : (bareResolver.fetchLayer hiddenReference hiddenWorld).1 =
      .ok (hiddenLayer, [2]) := by decide +kernel
  have hpair : (hiddenLayer, [2]) = (layer, archive) :=
    Except.ok.inj (hfetched.symm.trans hlayer)
  have htar : isTarLayer hiddenLayer.mediaType = true := by decide +kernel
  have hnone : (rootModule [2] bareResolver.maxSize).isSome = false := by decide +kernel
  rcases Prod.mk.inj hpair with ⟨rfl, rfl⟩
  have hsome := hholds.isSome htar
  rw [hnone] at hsome
  cases hsome

end Examples
end Resolver
end FunctionWasm

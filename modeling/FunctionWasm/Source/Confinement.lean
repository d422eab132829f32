import FunctionWasm.Cache.Confinement
import FunctionWasm.Source.Pinned

/-!
# Confinement — the stores of a resolver keep to their directories

Before it asks anyone, a resolver looks a digest up in its stores, and this digest is stated by the
source or by an artifact's manifest.  The digest of a module is checked with its source; that of a
manifest, or of a layer, is not.

* `Confined` says that the stores named direct children of their directories only.
* `Resolver.moduleDigest` and `manifestDigest` are the digests that are looked up.
* `store_confined_iff` says exactly when a fetch, and a read of the manifest, are confined.
* `traversal_removes` is a source whose manifest is looked up elsewhere.
-/

namespace FunctionWasm

open RegistryClient (contentDigest)

/-! ## What the stores did on the way -/

/-- From one world to a later one, each store named direct children of its directory only. -/
def Confined (w w' : World) : Prop :=
  ∃ new, w'.storeOps = w.storeOps ++ new ∧ ∀ e ∈ new, ∀ p ∈ e.2.paths, DirectChild e.1 p

/-- The history of the stores goes on. -/
def Continues (w w' : World) : Prop := w.storeOps <+: w'.storeOps

theorem Confined.of_eq {w w' : World} (h : w'.storeOps = w.storeOps) : Confined w w' :=
  ⟨[], by simp [h], by simp⟩

theorem Continues.of_eq {w w' : World} (h : w'.storeOps = w.storeOps) : Continues w w' :=
  ⟨[], by simp [h]⟩

theorem Confined.continues {w w' : World} (h : Confined w w') : Continues w w' := by
  rcases h with ⟨new, hops, -⟩
  exact ⟨new, hops.symm⟩

/-- A way through a third world is confined exactly when both parts are. -/
theorem confined_iff {w w' w'' : World} (h : Continues w w') (h' : Continues w' w'') :
    Confined w w'' ↔ Confined w w' ∧ Confined w' w'' := by
  rcases h with ⟨ops, hops⟩
  rcases h' with ⟨ops', hops'⟩
  constructor
  · rintro ⟨new, hnew, hall⟩
    have heq : new = ops ++ ops' := by
      refine @List.append_cancel_left _ w.storeOps _ _ ?_
      rw [← hnew, ← hops', ← hops, List.append_assoc]
    subst heq
    exact ⟨⟨ops, hops.symm, fun e he => hall e (List.mem_append_left _ he)⟩,
      ⟨ops', hops'.symm, fun e he => hall e (List.mem_append_right _ he)⟩⟩
  · rintro ⟨⟨new, hnew, hall⟩, ⟨new', hnew', hall'⟩⟩
    refine ⟨new ++ new', by rw [hnew', hnew, List.append_assoc], ?_⟩
    intro e he
    rcases List.mem_append.1 he with he | he
    · exact hall e he
    · exact hall' e he

/-- A call of one store is confined exactly when it names direct children of its directory. -/
theorem confined_leave {w : World} {st : Store} {disk : Disk} (hlog : w.disk.log <+: disk.log) :
    Confined w (w.leave st disk) ↔ Disk.Within (DirectChild st.dir) w.disk disk := by
  rcases hlog with ⟨ops, hops⟩
  have hdrop : disk.log.drop w.disk.log.length = ops := by simp [← hops]
  constructor
  · rintro ⟨new, hnew, hall⟩
    have heq : new = ops.map (Prod.mk st.dir) := by
      refine @List.append_cancel_left _ w.storeOps _ _ ?_
      rw [← hnew, World.leave, hdrop]
    subst heq
    refine ⟨ops, hops.symm, ?_⟩
    intro op hop p hp
    exact hall (st.dir, op) (List.mem_map_of_mem hop) p hp
  · rintro ⟨ops', hops', hall⟩
    have heq : ops' = ops := List.append_cancel_left (hops'.symm.trans hops.symm)
    subst heq
    refine ⟨ops'.map (Prod.mk st.dir), by rw [World.leave, hdrop], ?_⟩
    intro e he p hp
    rcases List.mem_map.1 he with ⟨op, hop, rfl⟩
    exact hall op hop p hp

section Stores

variable [RegistryLibrary]

theorem World.lookup_continues (w : World) (store : Option Store) (digest : Text) :
    Continues w (w.lookup store digest).2 := by
  cases store with
  | none => exact .of_eq rfl
  | some st => exact List.prefix_append _ _

/-- A lookup is confined exactly when the digest names a direct child of the store's directory. -/
theorem World.lookup_confined (w : World) (store : Option Store) (digest : Text) :
    Confined w (w.lookup store digest).2 ↔ ∀ st ∈ store, NamesChild st.dir digest := by
  cases store with
  | none => exact iff_of_true (.of_eq rfl) (by simp)
  | some st =>
      have hlog : w.disk.log <+: (st.get digest w.disk).2.log := by
        rcases get_log st digest w.disk with ⟨content, rest, hlog, -⟩
        exact ⟨_, hlog.symm⟩
      calc
        Confined w (w.lookup (some st) digest).2
            ↔ Disk.Within (DirectChild st.dir) w.disk (st.get digest w.disk).2 :=
              confined_leave hlog
        _ ↔ DirectChild st.dir (st.entryPath digest) := get_within_iff
        _ ↔ NamesChild st.dir digest := directChild_entryPath st
        _ ↔ ∀ st' ∈ some st, NamesChild st'.dir digest := by simp

variable [MacLibrary]

/-- What is saved under its own digest is confined. -/
theorem World.save_confined (w : World) (store : Option Store) {digest : Text} {b : Bytes}
    (hdigest : contentDigest b = digest) : Confined w (w.save store digest b) := by
  cases store with
  | none => exact .of_eq rfl
  | some st =>
      have hput := put_within st w.disk hdigest
      have hlog : w.disk.log <+: (st.put digest b w.disk).2.log := by
        rcases hput with ⟨ops, hops, -⟩
        exact ⟨ops, hops.symm⟩
      exact (confined_leave hlog).2 hput

end Stores

namespace Resolver

/-! ## The digests that are looked up -/

section Digests

variable [RegistryLibrary]

/-- The digest under which a module is looked up: that of the source, or that of the layer which the
registry's document states. -/
def moduleDigest (resolved : Resolved) (w : World) : Option Text :=
  match resolved.source with
  | .path _ => none
  | .http _ => some resolved.digest
  | .oci reference =>
      match ((RegistryClient.new reference).manifest reference w.session).1 with
      | .error _ => none
      | .ok m => (wasmLayer m).toOption.map Descriptor.digest

/-- The digest under which a manifest that is not in memory is looked up: the one that the source
states, or that of the layer which the registry's document states. -/
def manifestDigest (resolved : Resolved) (w : World) : Option Text :=
  match resolved.manifest with
  | .none => none
  | .pathFile _ => none
  | .http _ digest => if (w.remembered digest).isSome then none else some digest
  | .ociLayer reference =>
      if (w.remembered reference.digest).isSome then none
      else
        match ((RegistryClient.new reference).manifest reference w.session).1 with
        | .error _ => none
        | .ok m =>
            ((manifestLayer m).map Descriptor.digest).filter fun digest =>
              (w.remembered digest).isNone

end Digests

section Calls

variable [RegistryLibrary] [MacLibrary] {r : Resolver}

/-- Going through the blob store is confined exactly when the digest names a direct child of its
directory: what is saved was verified. -/
theorem verified_confined (what digest : Text) (fetch : Session → Except Text Bytes × Session)
    (w : World) :
    Continues w (r.verified what digest fetch w).2 ∧
      (Confined w (r.verified what digest fetch w).2 ↔
        ∀ st ∈ r.blobs, NamesChild st.dir digest) := by
  have hcontinues := w.lookup_continues r.blobs digest
  have hconfined := w.lookup_confined r.blobs digest
  unfold verified
  rcases hfound : w.lookup r.blobs digest with ⟨_ | b, w₁⟩
  · rw [hfound] at hcontinues hconfined
    dsimp only at hcontinues hconfined ⊢
    -- whatever the fetch does, the stores do nothing in it
    have hafter : ∀ w₂ : World, Confined w₁ w₂ →
        Continues w w₂ ∧ (Confined w w₂ ↔ ∀ st ∈ r.blobs, NamesChild st.dir digest) := by
      intro w₂ hrest
      refine ⟨hcontinues.trans hrest.continues, ?_⟩
      rw [confined_iff hcontinues hrest.continues, hconfined]
      exact and_iff_left hrest
    split
    · exact hafter _ (.of_eq rfl)
    · split
      · next b s hfetch hdigest =>
          have hsave := World.save_confined { w₁ with session := s } r.blobs hdigest
          exact hafter _ hsave
      · exact hafter _ (.of_eq rfl)
  · rw [hfound] at hcontinues hconfined
    exact ⟨hcontinues, hconfined⟩

/-- So is going through the manifest cache: where the disk tier has the manifest, the digest is that
of some content. -/
theorem manifestByDigest_confined (what digest : Text)
    (fetch : Session → Except Text Bytes × Session) (w : World) :
    Continues w (r.manifestByDigest digest (r.verified what digest fetch) w).2 ∧
      (Confined w (r.manifestByDigest digest (r.verified what digest fetch) w).2 ↔
        (w.remembered digest).isSome = true ∨
          ∀ st, st ∈ r.manifests ∨ st ∈ r.blobs → NamesChild st.dir digest) := by
  have hcontinues := w.lookup_continues r.manifests digest
  have hconfined := w.lookup_confined r.manifests digest
  unfold manifestByDigest
  rcases hmemory : w.remembered digest with _ | m
  · dsimp only
    simp only [Option.isSome_none, Bool.false_eq_true, false_or, or_imp, forall_and]
    rcases hfound : w.lookup r.manifests digest with ⟨_ | m, w₁⟩
    · rw [hfound] at hcontinues hconfined
      dsimp only at hcontinues hconfined ⊢
      have hverified := verified_confined (r := r) what digest fetch w₁
      rcases hfetched : r.verified what digest fetch w₁ with ⟨_ | m, w₂⟩
      · rw [hfetched] at hverified
        refine ⟨hcontinues.trans hverified.1, ?_⟩
        rw [confined_iff hcontinues hverified.1, hconfined, hverified.2]
      · rw [hfetched] at hverified
        have hsave : Confined w₂ ((w₂.save r.manifests digest m).remember digest m) :=
          World.save_confined _ r.manifests (verified_ok hfetched).1
        refine ⟨(hcontinues.trans hverified.1).trans hsave.continues, ?_⟩
        rw [confined_iff (hcontinues.trans hverified.1) hsave.continues,
          confined_iff hcontinues hverified.1, hconfined, hverified.2]
        exact and_iff_left hsave
    · rw [hfound] at hcontinues hconfined
      refine ⟨hcontinues, hconfined.trans (iff_self_and.2 ?_)⟩
      intro _ st _
      have hdigest : contentDigest m = digest :=
        World.lookup_sound r.manifests_verify (congrArg Prod.fst hfound)
      exact hdigest ▸ namesChild_contentDigest m st.dir
  · exact ⟨.of_eq rfl, by simpa [hmemory] using Confined.of_eq rfl⟩

/-- Getting a layer is confined exactly when the digest that the manifest states for it names a
direct child. -/
theorem fetchLayer_confined {reference : OciReference} {w : World} :
    Confined w (r.fetchLayer reference w).2 ↔
      ∀ m, ((RegistryClient.new reference).manifest reference w.session).1 = .ok m →
        ∀ layer, wasmLayer m = .ok layer → ∀ st ∈ r.blobs, NamesChild st.dir layer.digest := by
  unfold fetchLayer
  dsimp only
  rcases (RegistryClient.new reference).manifest reference w.session with ⟨e | m, s⟩
  · exact iff_of_true (.of_eq rfl) (by simp)
  · simp only [Except.ok.injEq, forall_eq']
    cases wasmLayer m with
    | error e => exact iff_of_true (.of_eq rfl) (by simp)
    | ok layer =>
        have hverified := verified_confined (r := r) "module layer".toList layer.digest
          ((RegistryClient.new reference).blob layer.digest r.maxSize "module layer".toList)
          { w with session := s }
        simp only [Except.ok.injEq, forall_eq']
        -- the request for the manifest involves no store
        rw [← hverified.2]
        split <;> next heq => rw [heq]; rfl

/-- A fetch is confined exactly when the digest that it looks up names a direct child. -/
theorem fetch_confined_iff [TarLibrary] (resolved : Resolved) (w : World) :
    Confined w (r.fetch resolved w).2 ↔
      ∀ digest ∈ moduleDigest resolved w, ∀ st ∈ r.blobs, NamesChild st.dir digest := by
  unfold moduleDigest
  cases hsource : resolved.source with
  | path full =>
      refine iff_of_true (.of_eq ?_) (by simp)
      unfold fetch fetchPath
      rw [hsource]
      dsimp only
      -- the stores have no part in reading a file
      split
      · rfl
      · split <;> rfl
  | http url =>
      unfold fetch
      rw [hsource]
      simpa using (verified_confined _ _ _ w).2
  | oci reference =>
      rw [fetch_world hsource, fetchLayer_confined]
      dsimp only
      cases ((RegistryClient.new reference).manifest reference w.session).1 with
      | error e => simp
      | ok m =>
          cases hlayer : wasmLayer m with
          | error e => simp [hlayer, Except.toOption]
          | ok layer => simp [hlayer, Except.toOption]

/-- Reading the manifest of an artifact is confined exactly when the digest that its document states
for the manifest's layer names a direct child, unless one of the two is in memory. -/
theorem layerManifest_confined {reference : OciReference} {w : World} :
    Confined w (r.layerManifest reference w).2 ↔
      (w.remembered reference.digest).isSome = true ∨
      ∀ m, ((RegistryClient.new reference).manifest reference w.session).1 = .ok m →
        ∀ layer, manifestLayer m = some layer →
          (w.remembered layer.digest).isSome = true ∨
          ∀ st, st ∈ r.manifests ∨ st ∈ r.blobs → NamesChild st.dir layer.digest := by
  unfold layerManifest
  cases hmemory : w.remembered reference.digest with
  | some m => exact iff_of_true (.of_eq rfl) (by simp)
  | none =>
      simp only [Option.isSome_none, Bool.false_eq_true, false_or]
      rcases (RegistryClient.new reference).manifest reference w.session with ⟨e | m, s⟩
      · exact iff_of_true (.of_eq rfl) (by simp)
      · simp only [Except.ok.injEq, forall_eq']
        cases manifestLayer m with
        | none => exact iff_of_true (.of_eq rfl) (by simp)
        | some layer =>
            have hread := manifestByDigest_confined (r := r) "manifest layer".toList layer.digest
              ((RegistryClient.new reference).blob layer.digest maxModuleManifestSize
                "manifest layer".toList)
              { w with session := s }
            simp only [Option.some.injEq, forall_eq']
            -- remembering the manifest involves no store
            refine Iff.trans ?_ hread.2
            split <;> next heq => rw [heq]; rfl

/-- A manifest is read confined exactly when the digest that it looks up names a direct child. -/
theorem manifest_confined_iff [ManifestLibrary] (resolved : Resolved) (w : World) :
    Confined w (r.manifest resolved w).2 ↔
      ∀ digest ∈ manifestDigest resolved w, ∀ st, st ∈ r.manifests ∨ st ∈ r.blobs →
        NamesChild st.dir digest := by
  have hjson : ∀ x : Except Text Bytes × World, (jsonOf x).2 = x.2 := by
    rintro ⟨_ | _, _⟩ <;> rfl
  unfold manifest manifestDigest
  cases resolved.manifest with
  | none => exact iff_of_true (.of_eq rfl) (by simp)
  | pathFile full =>
      refine iff_of_true (.of_eq ?_) (by simp)
      dsimp only
      rw [hjson]
  | http url digest =>
      dsimp only
      rw [hjson, (manifestByDigest_confined _ _ _ w).2]
      split
      · next hsome => simp [hsome]
      · next hnone => simp [hnone]
  | ociLayer reference =>
      dsimp only
      rw [layerManifest_confined]
      split
      · next hsome => simp [hsome]
      · next hnone =>
          simp only [hnone, false_or, Bool.false_eq_true]
          cases ((RegistryClient.new reference).manifest reference w.session).1 with
          | error e => simp
          | ok m =>
              cases hlayer : manifestLayer m with
              | none => simp [hlayer]
              | some layer =>
                  cases hmemory : w.remembered layer.digest <;> simp [hlayer, hmemory]

end Calls

/-- The stores keep to their directories in a fetch, and in a read of a manifest, exactly when the
digest that it looks up names a direct child of them; a digest that was checked with its source
does. -/
theorem store_confined_iff [RegistryLibrary] [MacLibrary] [TarLibrary] [ManifestLibrary]
    (r : Resolver) (resolved : Resolved) (w : World) :
    (Confined w (r.fetch resolved w).2 ↔
      ∀ digest ∈ moduleDigest resolved w, ∀ st ∈ r.blobs, NamesChild st.dir digest) ∧
    (Confined w (r.manifest resolved w).2 ↔
      ∀ digest ∈ manifestDigest resolved w, ∀ st, st ∈ r.manifests ∨ st ∈ r.blobs →
        NamesChild st.dir digest) ∧
    ∀ digest dir, digestIsValid digest = true → NamesChild dir digest :=
  ⟨fetch_confined_iff resolved w, manifest_confined_iff resolved w,
    fun _ dir hvalid => namesChild_of_valid hvalid dir⟩

/-! ## A file outside -/

section Examples

/-- A reader that takes a document for its own JSON. -/
@[reducible] def plainManifests : ManifestLibrary where
  manifestJson := .ok

attribute [local instance] asciiTables hiddenRegistry untouchedMac plainManifests

def zeroModule : Text := "sha256:".toList ++ List.replicate 64 '0'

def outsideSource : ModuleSource where
  type := typeHttp
  oci := none
  http := some
    { url := "https://a.b/m".toList
      digest := zeroModule
      manifestUrl := "https://a.b/y".toList
      manifestDigest := "../../x".toList }
  path := []
  manifestPath := []
  fromField := []
  allowEmpty := false

def outsideResolved : Resolved where
  digest := zeroModule
  description := "http https://a.b/m".toList
  source := .http "https://a.b/m".toList
  manifest := .http "https://a.b/y".toList "../../x".toList

def manifestStore : Store where
  dir := "/tmp/c/manifests".toList
  verify := true
  key := none

def storingResolver : Resolver where
  maxSize := 10
  blobs := none
  manifests := some manifestStore
  blobs_verify := Store.verify_of_none
  manifests_verify := by
    intro st hst
    cases hst
    rfl

/-- A network that answers nothing, and a file that is not the store's. -/
def outsideWorld : World where
  session := { answers := fun _ => .error [], log := [] }
  disk :=
    { files := fun path =>
        if path = "/tmp/c/manifests/../../x".toList then some (.file [1]) else none
      others := fun _ files => files
      fails := fun _ => false
      errors := fun _ => []
      random := fun _ => []
      log := [] }
  files := ∅
  cachedManifests := ∅
  storeOps := []

/-- The manifest of a valid source is looked up outside the directory of the store, and the file
that is found there is removed: it does not hash to `../../x`. -/
theorem traversal_removes :
    validateSource outsideSource = .ok () ∧
      resolve (fun _ _ => .error []) outsideSource = .ok outsideResolved ∧
      ¬ Confined outsideWorld (storingResolver.manifest outsideResolved outsideWorld).2 ∧
      (manifestStore.dir, FileOp.remove "/tmp/c/manifests/../../x".toList) ∈
        (storingResolver.manifest outsideResolved outsideWorld).2.storeOps := by
  have hvalid : validateSource outsideSource = .ok () := by decide +kernel
  have hresolve : resolve (fun _ _ => .error []) outsideSource = .ok outsideResolved := by
    decide +kernel
  have hops : (storingResolver.manifest outsideResolved outsideWorld).2.storeOps =
      [(manifestStore.dir, .read "/tmp/c/manifests/../../x".toList (some [1])),
        (manifestStore.dir, .remove "/tmp/c/manifests/../../x".toList)] := by decide +kernel
  have houtside : components "/tmp/c/manifests/../../x".toList =
      components manifestStore.dir ++ ["..".toList, "..".toList, "x".toList] := by decide +kernel
  refine ⟨hvalid, hresolve, ?_, ?_⟩
  · rintro ⟨new, hnew, hall⟩
    rw [hops] at hnew
    have hmem : (manifestStore.dir, FileOp.remove "/tmp/c/manifests/../../x".toList) ∈ new := by
      rw [← List.nil_append new, show ([] : List (Text × FileOp)) = outsideWorld.storeOps from rfl,
        ← hnew]
      exact List.mem_cons_of_mem _ (List.mem_singleton_self _)
    rcases hall _ hmem _ (List.mem_singleton_self _) with ⟨-, name, -, hname⟩
    -- three components too many
    have hlength := congrArg List.length (houtside.symm.trans hname)
    simp at hlength
  · rw [hops]
    exact List.mem_cons_of_mem _ (List.mem_singleton_self _)

end Examples
end Resolver
end FunctionWasm

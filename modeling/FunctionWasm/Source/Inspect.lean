import FunctionWasm.Source.AnyReference
import FunctionWasm.Source.Remembered

/-!
# Inspect — what the command line reports of an artifact

The command line reads an artifact's manifest, its manifest layer and, when told to pull, the module
layer.  It asks for each by its digest and hashes none of them against it.

* `InspectCmd.run` is a run of inspect, `CompositionCmd.source` what a composition is scaffolded from.
* `InspectCmd.run_ok` and `CompositionCmd.source_ok` say which answers a result is read from.
* `ManifestChain` and `ModuleChain` are the chains of documents that a digest pins;
  `manifest_same` and `fetch_same` say that the runtime reads what is in them, or fails.
* `inspect_chained` says when what is reported is in the chain.

The manifest reader and the engine are libraries.
-/

namespace FunctionWasm

open RegistryClient (contentDigest)

/-! ## The command line -/

/-- One top-level item of a component. -/
structure Extern where
  name : Text
  kind : Text
  deriving DecidableEq

/-- What the engine sees in a component. -/
structure Inspection where
  abiError : Option Text
  exports : List Extern
  imports : List Extern

class EngineLibrary where
  /-- `inspect_module`: compiles a module and reports what the runtime sees in it. -/
  inspectModule : Bytes → Except Text Inspection

class ManifestParser (M : Type) where
  parse : Bytes → Except Text M

structure ModuleInfo where
  size : Nat
  abi : Text
  abiError : Text
  exports : List Extern
  imports : List Extern
  deriving DecidableEq

structure ReferenceInfo (M : Type) where
  digest : Text
  mediaType : Text
  size : Nat
  layers : List Descriptor
  moduleLayer : Option Descriptor
  moduleLayerError : Text
  manifest : Option M
  manifestError : Text

/-- Everything inspect prints. -/
structure InspectionOut (M : Type) where
  target : Text
  reference : Option (ReferenceInfo M)
  module : Option ModuleInfo

/-- Reports what the runtime's engine sees in a module. -/
def describeModule [EngineLibrary] (wasm : Bytes) : Except Text ModuleInfo :=
  match EngineLibrary.inspectModule wasm with
  | .error e => .error e
  | .ok shape =>
      .ok { size := wasm.length
            abi := if shape.abiError.isNone then "v2".toList else []
            abiError := shape.abiError.getD []
            exports := shape.exports
            imports := shape.imports }

namespace AnyReference

/-- A client for any reference. -/
def client (r : AnyReference) : RegistryClient :=
  .new { registry := r.registry, repository := r.repository, digest := r.digest.getD [] }

end AnyReference

section Requests

variable [RegistryLibrary]

/-- A manifest by tag or digest: its bytes, and the digest they have. -/
def RegistryClient.rawManifest (c : RegistryClient) (reference : Text) (s : Session) :
    Except Text (Bytes × Text) × Session :=
  match getAs (c.manifestUrl reference) (some manifestAccept) unlimited "module".toList s with
  | (.error e, s) => (.error ("cannot fetch manifest ".toList ++ reference ++ ": ".toList ++ e), s)
  | (.ok raw, s) => (.ok (raw, contentDigest raw), s)

/-- The manifest of an artifact, however it is referred to: its bytes, their digest, and what they
say. -/
def readArtifact (reference : AnyReference) (s : Session) :
    Except Text (Bytes × Text × OciManifest) × Session :=
  match reference.client.rawManifest reference.manifestRef s with
  | (.error e, s) => (.error e, s)
  | (.ok (raw, digest), s) =>
      match RegistryLibrary.manifestFromJson raw with
      | .error e => (.error ("cannot parse manifest ".toList ++ digest ++ ": ".toList ++ e), s)
      | .ok m => (.ok (raw, digest, m), s)

end Requests

/-- Pulls the manifest layer and parses it. -/
def fetchManifest {M : Type} [ManifestParser M] (client : RegistryClient) (layer : Descriptor)
    (s : Session) : Except Text M × Session :=
  match client.blob layer.digest maxModuleManifestSize "manifest layer".toList s with
  | (.error e, s) => (.error ("cannot fetch the manifest layer: ".toList ++ e), s)
  | (.ok raw, s) =>
      match ManifestParser.parse raw with
      | .error e => (.error ("the manifest layer is invalid: ".toList ++ e), s)
      | .ok m => (.ok m, s)

/-- The module manifest that an artifact carries, or why it cannot be read. -/
def artifactManifest {M : Type} [ManifestParser M] (client : RegistryClient) (m : OciManifest)
    (s : Session) : Option (Except Text M) × Session :=
  match manifestLayer m with
  | none => (none, s)
  | some layer =>
      let (manifest, s) := fetchManifest client layer s
      (some manifest, s)

/-- The module that a layer holds. -/
def layerModule [TarLibrary] (limit : Nat) (layer : Descriptor) (b : Bytes) : Except Text Bytes :=
  if isTarLayer layer.mediaType then extractWasm b limit else .ok b

/-- One layer's bytes, or the module out of a tar layer. -/
def pullLayer [TarLibrary] (client : RegistryClient) (layer : Descriptor) (limit : Nat) (s : Session) :
    Except Text Bytes × Session :=
  match client.blob layer.digest limit "module layer".toList s with
  | (.error e, s) => (.error ("cannot fetch layer: ".toList ++ e), s)
  | (.ok b, s) => (layerModule limit layer b, s)

/-- `maxSize` is in MB. -/
structure InspectCmd where
  target : Text
  pull : Bool
  maxSize : Nat

/-- What a composition names as its module. -/
inductive CompositionCmd.Source where
  | path (path : Text)
  | oci (ref : Text)
  deriving DecidableEq

/-- `target` is the module: a file or a reference. -/
structure CompositionCmd where
  target : Text

section Commands

variable [UnicodeTables] [RegistryLibrary]

def targetError (target e : Text) : Text :=
  target ++ " is neither a file nor an OCI reference: ".toList ++ e

namespace InspectCmd

/-- The largest module in bytes; the shift is one of 64 bits. -/
def limit (cmd : InspectCmd) : Nat := cmd.maxSize * 2 ^ 20 % 2 ^ 64

variable {M : Type} [ManifestParser M] [EngineLibrary] [TarLibrary]

/-- The module of a file or of a layer, described. -/
def describe (cmd : InspectCmd) (reference : Option (ReferenceInfo M)) :
    Except Text Bytes → Except Text (InspectionOut M)
  | .error e => .error e
  | .ok wasm =>
      match describeModule wasm with
      | .error e => .error (cmd.target ++ ": ".toList ++ e)
      | .ok info => .ok { target := cmd.target, reference := reference, module := some info }

/-- What a reference's manifest says, with the module manifest or why there is none. -/
def referenceInfo (raw : Bytes) (digest : Text) (m : OciManifest) (manifest : Option (Except Text M)) :
    ReferenceInfo M where
  digest := digest
  mediaType := m.mediaType
  size := raw.length
  layers := m.layers
  moduleLayer := (wasmLayer m).toOption
  moduleLayerError :=
    match wasmLayer m with
    | .ok _ => []
    | .error e => e
  manifest := manifest.bind Except.toOption
  manifestError :=
    match manifest with
    | some (.error e) => e
    | _ => []

/-- A run for a reference. -/
def runReference (cmd : InspectCmd) (reference : AnyReference) (s : Session) :
    Except Text (InspectionOut M) × Session :=
  match readArtifact reference s with
  | (.error e, s) => (.error e, s)
  | (.ok (raw, digest, m), s) =>
      let (manifest, s) := artifactManifest reference.client m s
      let info := referenceInfo raw digest m manifest
      match cmd.pull, wasmLayer m with
      | true, .ok layer =>
          let (wasm, s) := pullLayer reference.client layer cmd.limit s
          (cmd.describe (some info) wasm, s)
      | _, _ => (.ok { target := cmd.target, reference := some info, module := none }, s)

/-- A run; `file` is what is read where the target is a file. -/
def run (cmd : InspectCmd) (file : Option (Except Text Bytes)) (s : Session) :
    Except Text (InspectionOut M) × Session :=
  match file with
  | some read => (cmd.describe none read, s)
  | none =>
      match parseAnyReference cmd.target with
      | .error e => (.error (targetError cmd.target e), s)
      | .ok reference => cmd.runReference reference s

end InspectCmd

namespace CompositionCmd

variable {M : Type} [ManifestParser M]

/-- The module source and its manifest.  `given` is the manifest that was asked to be loaded; `file` is
the base name of a module file, and the manifest next to it. -/
def source (cmd : CompositionCmd) (given : Option (Except Text M))
    (file : Option (Text × Option (Except Text M))) (s : Session) :
    Except Text (Source × Option M) × Session :=
  match given, file with
  | some (.error e), _ => (.error e, s)
  | some (.ok m), some (base, _) => (.ok (.path base, some m), s)
  | none, some (base, none) => (.ok (.path base, none), s)
  | none, some (_, some (.error e)) => (.error e, s)
  | none, some (base, some (.ok m)) => (.ok (.path base, some m), s)
  | given, none =>
      match parseAnyReference cmd.target with
      | .error e => (.error (targetError cmd.target e), s)
      | .ok reference =>
          match readArtifact reference s with
          | (.error e, s) => (.error e, s)
          | (.ok (_, digest, om), s) =>
              match given, manifestLayer om with
              | some (.ok m), _ => (.ok (.oci (reference.pinned digest), some m), s)
              | _, none => (.ok (.oci (reference.pinned digest), none), s)
              | _, some layer =>
                  match fetchManifest reference.client layer s with
                  | (.error e, s) => (.error (cmd.target ++ ": ".toList ++ e), s)
                  | (.ok m, s) => (.ok (.oci (reference.pinned digest), some m), s)

end CompositionCmd
end Commands

/-! ## The answers that a result is read from -/

/-- What `k` requests leave of a session. -/
structure Session.Asked (s : Session) (k : Nat) (s' : Session) : Prop where
  answers : s'.answers = s.answers
  length : s'.log.length = s.log.length + k

theorem Session.Asked.trans {s s' s'' : Session} {k k' : Nat} (h : s.Asked k s')
    (h' : s'.Asked k' s'') : s.Asked (k + k') s'' :=
  ⟨h'.answers.trans h.answers, by rw [h'.length, h.length, Nat.add_assoc]⟩

/-- The answer that comes next is one that was there before. -/
theorem Session.Asked.next {s s' : Session} {k : Nat} (h : s.Asked k s') :
    s'.answers s'.log.length = s.answers (s.log.length + k) := by
  rw [h.answers, h.length]

theorem Session.asked_getAs (s : Session) (url : Text) (accept : Option Text) (limit : Nat)
    (what : Text) : s.Asked 1 (RegistryClient.getAs url accept limit what s).2 ∧
      ∀ body, (RegistryClient.getAs url accept limit what s).1 = .ok body →
        s.answers s.log.length = .ok body := by
  have hasked : s.Asked 1 (s.ask ⟨url, accept⟩).2 := ⟨rfl, by simp [Session.ask]⟩
  have hanswer : (s.ask ⟨url, accept⟩).1 = s.answers s.log.length := rfl
  unfold RegistryClient.getAs
  rcases hask : s.ask ⟨url, accept⟩ with ⟨e | body, s'⟩
  · rw [hask] at hasked
    exact ⟨hasked, by simp⟩
  · rw [hask] at hasked hanswer
    dsimp only
    split
    · exact ⟨hasked, by simp⟩
    · exact ⟨hasked, fun body' hbody => hanswer.symm.trans hbody⟩

theorem Session.asked_blob (s : Session) (client : RegistryClient) (digest : Text) (limit : Nat)
    (label : Text) : s.Asked 1 (client.blob digest limit label s).2 ∧
      ∀ b, (client.blob digest limit label s).1 = .ok b → s.answers s.log.length = .ok b := by
  have hget := s.asked_getAs (client.blobUrl digest) none limit "module".toList
  unfold RegistryClient.blob
  rcases hanswer : RegistryClient.getAs (client.blobUrl digest) none limit "module".toList s with
    ⟨e | b, s'⟩
  · rw [hanswer] at hget
    exact ⟨hget.1, by simp⟩
  · rw [hanswer] at hget
    exact hget

/-- The requests for the manifest layer of an artifact, which come before the module layer's. -/
def manifestRequests (m : OciManifest) : Nat := if (manifestLayer m).isSome then 1 else 0

/-- Which layer of an artifact is asked for, and how many requests after the artifact's. -/
structure LayerRequest where
  pick : OciManifest → Option Descriptor
  place : OciManifest → Nat

def manifestLayerRequest : LayerRequest where
  pick := manifestLayer
  place _ := 1

def moduleLayerRequest : LayerRequest where
  pick m := (wasmLayer m).toOption
  place m := 1 + manifestRequests m

/-- What was answered for an artifact and for one of its layers. -/
structure LayerRequest.Answered [RegistryLibrary] (request : LayerRequest) (s : Session) (raw : Bytes)
    (m : OciManifest) (layer : Descriptor) (b : Bytes) : Prop where
  artifact : s.answers s.log.length = .ok raw
  parsed : RegistryLibrary.manifestFromJson raw = .ok m
  picked : request.pick m = some layer
  content : s.answers (s.log.length + request.place m) = .ok b

theorem readArtifact_ok [RegistryLibrary] {reference : AnyReference} {s s' : Session} {raw : Bytes} {digest : Text}
    {m : OciManifest} (h : readArtifact reference s = (.ok (raw, digest, m), s')) :
    s.Asked 1 s' ∧ s.answers s.log.length = .ok raw ∧
      RegistryLibrary.manifestFromJson raw = .ok m := by
  have hget := s.asked_getAs (reference.client.manifestUrl reference.manifestRef)
    (some manifestAccept) RegistryClient.unlimited "module".toList
  unfold readArtifact RegistryClient.rawManifest at h
  rcases hanswer : RegistryClient.getAs (reference.client.manifestUrl reference.manifestRef)
    (some manifestAccept) RegistryClient.unlimited "module".toList s with ⟨e | raw', s₁⟩
  · rw [hanswer] at h
    cases h
  · rw [hanswer] at h hget
    dsimp only at h
    split at h
    · cases h
    · next hparse =>
        cases h
        exact ⟨hget.1, hget.2 raw rfl, hparse⟩

theorem fetchManifest_spec {M : Type} [ManifestParser M] (client : RegistryClient)
    (layer : Descriptor) (s : Session) :
    s.Asked 1 (fetchManifest (M := M) client layer s).2 ∧
      ∀ p : M, (fetchManifest client layer s).1 = .ok p →
        ∃ b, s.answers s.log.length = .ok b ∧ ManifestParser.parse b = .ok p := by
  have hblob := s.asked_blob client layer.digest maxModuleManifestSize "manifest layer".toList
  unfold fetchManifest
  rcases hanswer : client.blob layer.digest maxModuleManifestSize "manifest layer".toList s with
    ⟨e | b, s'⟩
  · rw [hanswer] at hblob
    exact ⟨hblob.1, by simp⟩
  · rw [hanswer] at hblob
    dsimp only
    split
    · exact ⟨hblob.1, by simp⟩
    · next hparse =>
        refine ⟨hblob.1, ?_⟩
        intro p hp
        cases hp
        exact ⟨b, hblob.2 b rfl, hparse⟩

theorem artifactManifest_spec {M : Type} [ManifestParser M] (client : RegistryClient)
    (m : OciManifest) (s : Session) :
    s.Asked (manifestRequests m) (artifactManifest (M := M) client m s).2 ∧
      ∀ p : M, (artifactManifest client m s).1 = some (.ok p) →
        ∃ layer b, manifestLayer m = some layer ∧ s.answers s.log.length = .ok b ∧
          ManifestParser.parse b = .ok p := by
  unfold artifactManifest manifestRequests
  cases hlayer : manifestLayer m with
  | none => exact ⟨⟨rfl, rfl⟩, by simp⟩
  | some layer =>
      have hfetch := fetchManifest_spec (M := M) client layer s
      refine ⟨hfetch.1, ?_⟩
      intro p hp
      rcases hfetch.2 p (Option.some.inj hp) with ⟨b, hb, hparse⟩
      exact ⟨layer, b, rfl, hb, hparse⟩

theorem pullLayer_ok [TarLibrary] {client : RegistryClient} {layer : Descriptor} {limit : Nat}
    {s : Session} {b : Bytes} (h : (pullLayer client layer limit s).1 = .ok b) :
    ∃ archive, s.answers s.log.length = .ok archive ∧ layerModule limit layer archive = .ok b := by
  have hblob := s.asked_blob client layer.digest limit "module layer".toList
  unfold pullLayer at h
  rcases hanswer : client.blob layer.digest limit "module layer".toList s with ⟨e | archive, s'⟩
  · rw [hanswer] at h
    cases h
  · rw [hanswer] at h hblob
    exact ⟨archive, hblob.2 archive rfl, h⟩

section Results

variable {M : Type}

/-- A description is of the module that was read. -/
theorem InspectCmd.describe_ok [EngineLibrary] {cmd : InspectCmd}
    {reference : Option (ReferenceInfo M)} {wasm : Except Text Bytes} {out : InspectionOut M}
    (h : cmd.describe reference wasm = .ok out) :
    out.reference = reference ∧
      ∀ info, out.module = some info → ∃ b, wasm = .ok b ∧ describeModule b = .ok info := by
  unfold describe at h
  split at h
  · cases h
  · next b =>
      split at h
      · cases h
      · next info hdescribe =>
          cases h
          refine ⟨rfl, ?_⟩
          intro info' hinfo
          cases hinfo
          exact ⟨b, rfl, hdescribe⟩

theorem InspectCmd.referenceInfo_manifest {raw : Bytes} {digest : Text} {m : OciManifest}
    {manifest : Option (Except Text M)} {p : M}
    (h : (referenceInfo raw digest m manifest).manifest = some p) : manifest = some (.ok p) := by
  rcases manifest with _ | ⟨e | p'⟩
  · cases h
  · cases h
  · rw [← Option.some.inj h]

variable [RegistryLibrary] [ManifestParser M]

/-- A manifest and a module that a run reports are read from the answers it got. -/
theorem InspectCmd.runReference_ok [EngineLibrary] [TarLibrary] {cmd : InspectCmd}
    {reference : AnyReference} {s s' : Session} {out : InspectionOut M}
    (h : cmd.runReference reference s = (.ok out, s')) :
    (∀ info p, out.reference = some info → info.manifest = some p →
      ∃ raw m layer b, manifestLayerRequest.Answered s raw m layer b ∧ ManifestParser.parse b = .ok p) ∧
    ∀ info, out.module = some info →
      ∃ raw m layer archive b, moduleLayerRequest.Answered s raw m layer archive ∧
        layerModule cmd.limit layer archive = .ok b ∧ describeModule b = .ok info := by
  unfold runReference at h
  rcases hartifact : readArtifact reference s with ⟨e | ⟨raw, digest, m⟩, s₁⟩
  · rw [hartifact] at h
    cases h
  · rw [hartifact] at h
    rcases readArtifact_ok hartifact with ⟨hasked, hraw, hparsed⟩
    have hread := artifactManifest_spec (M := M) reference.client m s₁
    rcases hmanifest : artifactManifest (M := M) reference.client m s₁ with ⟨manifest, s₂⟩
    rw [hmanifest] at hread
    simp only [hmanifest] at h
    -- the manifest that is reported was read from its layer
    have hreported : ∀ p, (referenceInfo raw digest m manifest).manifest = some p →
        ∃ raw m layer b, manifestLayerRequest.Answered s raw m layer b ∧
          ManifestParser.parse b = .ok p := by
      intro p hp
      rcases hread.2 p (referenceInfo_manifest hp) with ⟨layer, b, hlayer, hb, hparse⟩
      exact ⟨raw, m, layer, b, ⟨hraw, hparsed, hlayer, hasked.next ▸ hb⟩, hparse⟩
    split at h
    · next layer _ hlayer =>
        rcases describe_ok (congrArg Prod.fst h) with ⟨hinfo, hmodule⟩
        refine ⟨?_, ?_⟩
        · intro info p hout hp
          rw [hinfo] at hout
          cases hout
          exact hreported p hp
        · intro info hout
          rcases hmodule info hout with ⟨b, hb, hdescribe⟩
          rcases pullLayer_ok hb with ⟨archive, hanswer, hholds⟩
          -- the layer was asked for after the document, and after the manifest layer
          have hindex := (hasked.trans hread.1).next
          have hpicked : moduleLayerRequest.pick m = some layer := by
            simp [moduleLayerRequest, hlayer, Except.toOption]
          exact ⟨raw, m, layer, archive, b, ⟨hraw, hparsed, hpicked, hindex ▸ hanswer⟩, hholds,
            hdescribe⟩
    · cases h
      refine ⟨?_, ?_⟩
      · intro info p hout hp
        cases hout
        exact hreported p hp
      · intro info hout
        cases hout

variable [UnicodeTables]

theorem InspectCmd.run_ok [EngineLibrary] [TarLibrary] {cmd : InspectCmd} {s s' : Session}
    {out : InspectionOut M} (h : cmd.run none s = (.ok out, s')) :
    ∃ reference, cmd.runReference reference s = (.ok out, s') := by
  unfold run at h
  dsimp only at h
  split at h
  · cases h
  · next reference _ => exact ⟨reference, h⟩

/-- A manifest that a composition is scaffolded from is read from the answers that the run got. -/
theorem CompositionCmd.source_ok {cmd : CompositionCmd} {s s' : Session}
    {source : CompositionCmd.Source} {p : M}
    (h : cmd.source none none s = (.ok (source, some p), s')) :
    ∃ raw m layer b, manifestLayerRequest.Answered s raw m layer b ∧
      ManifestParser.parse b = .ok p := by
  unfold CompositionCmd.source at h
  dsimp only at h
  split at h
  · cases h
  · next reference _ =>
      rcases hartifact : readArtifact reference s with ⟨e | ⟨raw, digest, m⟩, s₁⟩
      · rw [hartifact] at h
        cases h
      · rw [hartifact] at h
        rcases readArtifact_ok hartifact with ⟨hasked, hraw, hparsed⟩
        dsimp only at h
        cases hlayer : manifestLayer m with
        | none =>
            rw [hlayer] at h
            cases h
        | some layer =>
            have hfetch := fetchManifest_spec (M := M) reference.client layer s₁
            rw [hlayer] at h
            dsimp only at h
            rcases hmanifest : fetchManifest (M := M) reference.client layer s₁ with ⟨e | p', s₂⟩
            · rw [hmanifest] at h
              cases h
            · rw [hmanifest] at h hfetch
              cases h
              rcases hfetch.2 p rfl with ⟨b, hb, hparse⟩
              exact ⟨raw, m, layer, b, ⟨hraw, hparsed, hlayer, hasked.next ▸ hb⟩, hparse⟩

end Results

/-! ## The chains -/

namespace LayerRequest

variable [RegistryLibrary] (request : LayerRequest)

/-- The registry answers with the artifact that a digest pins, and with the layer that this pins. -/
structure Genuine (digest : Text) (s : Session) : Prop where
  artifact : ∀ raw, s.answers s.log.length = .ok raw → contentDigest raw = digest
  content : ∀ raw m layer b, request.Answered s raw m layer b → contentDigest b = layer.digest

/-- The digest pins the manifest that was answered, and that the content of the layer. -/
def Chain (digest : Text) (s : Session) (layer : Descriptor) (b : Bytes) : Prop :=
  ∃ raw m, request.Answered s raw m layer b ∧ contentDigest raw = digest ∧
    contentDigest b = layer.digest

variable {request}

theorem Answered.chain_iff {s : Session} {raw : Bytes} {m : OciManifest} {layer : Descriptor}
    {b : Bytes} (h : request.Answered s raw m layer b) (digest : Text) :
    request.Chain digest s layer b ↔ request.Genuine digest s := by
  constructor
  · rintro ⟨raw', m', h', hdigest, hcontent⟩
    refine ⟨?_, ?_⟩
    · intro body hbody
      cases h'.artifact.symm.trans hbody
      exact hdigest
    · intro raw'' m'' layer'' b'' h''
      -- there is one answer to each request
      cases h'.artifact.symm.trans h''.artifact
      cases h'.parsed.symm.trans h''.parsed
      cases h'.picked.symm.trans h''.picked
      cases h'.content.symm.trans h''.content
      exact hcontent
  · intro hgenuine
    exact ⟨raw, m, h, hgenuine.artifact raw h.artifact, hgenuine.content raw m layer b h⟩

end LayerRequest

/-! ## The runtime -/

section Runtime

variable [UnicodeTables] [RegistryLibrary] [MacLibrary] [TarLibrary] [ManifestLibrary]

/-- A reference is resolved, in a state of a runtime in which no lookup has found or finds its digest in
the other use. -/
structure RuntimeAt (r : Resolver) (target : Text) (resolved : Resolved) (w : World) : Prop where
  reachable : ((Resolver.cacheSystem r).restrict Resolver.CallApart).Reachable w
  resolves : ∃ resolvePath src oci, src.type = typeOci ∧ src.oci = some oci ∧ oci.ref = target ∧
    resolve resolvePath src = .ok resolved
  apart : Apart resolved w

/-- Two digests that are equal are of the same bytes, among what the registry answers to the requests
of a run and what a runtime has seen. -/
def NoCollisionWith (s : Session) (w : World) : Prop :=
  ∀ k < 3, ∀ b b', s.answers (s.log.length + k) = .ok b → Occurs w b' →
    contentDigest b = contentDigest b' → b = b'

variable {r : Resolver} {reference : AnyReference} {target digest : Text} {resolved : Resolved}
  {w : World} {s : Session} {layer : Descriptor} {b b' : Bytes}

theorem RuntimeAt.source (h : RuntimeAt r target resolved w)
    (hparse : parseAnyReference target = .ok reference) (hdigest : reference.digest = some digest) :
    ∃ pinned : OciReference, pinned.digest = digest ∧ resolved.source = .oci pinned ∧
      resolved.manifest = .ociLayer pinned := by
  rcases h.resolves with ⟨resolvePath, src, oci, htype, hoci, htarget, hresolve⟩
  rcases resolve_oci htype hresolve with ⟨oci', pinned, hoci', hpinned, rfl⟩
  cases hoci.symm.trans hoci'
  rw [htarget] at hpinned
  refine ⟨pinned, ?_, rfl, rfl⟩
  rw [parseAnyReference_pinned hparse hdigest hpinned]

/-- The runtime reads the manifest that is in the chain, or fails. -/
theorem manifest_same (hchain : manifestLayerRequest.Chain digest s layer b)
    (hruntime : RuntimeAt r target resolved w) (hparse : parseAnyReference target = .ok reference)
    (hdigest : reference.digest = some digest)
    (hcollision : NoCollisionWith s (r.manifest resolved w).2)
    (h : (r.manifest resolved w).1 = .ok b') : b' = b := by
  rcases hruntime.source hparse hdigest with ⟨pinned, hpinned, -, hmanifest⟩
  rcases hchain with ⟨raw, m, hanswered, hraw, hcontent⟩
  have hread : r.manifest resolved w = r.layerManifest pinned w := by
    unfold Resolver.manifest
    rw [hmanifest]
  have hapart := hruntime.apart
  unfold Apart at hapart
  rw [hmanifest] at hapart
  rw [hread] at h hcollision
  have hspec := (Resolver.layerManifest_spec (r := r) (Resolver.filed_reachable hruntime.reachable)
    hapart.2).2
  rcases hspec b' h hapart.1 with ⟨raw', m', hraw', hdigest', hparsed', hlayer'⟩
  -- the runtime's artifact is the one that was reported on
  have hsame : raw = raw' := hcollision 0 (by decide) raw raw' hanswered.artifact hraw'
    (hraw.trans (hpinned.symm.trans hdigest'.symm))
  subst hsame
  cases hanswered.parsed.symm.trans hparsed'
  have hpicked : manifestLayer m = some layer := hanswered.picked
  rw [hpicked] at hlayer'
  exact (hcollision 1 (by decide) b b' hanswered.content hlayer'.1
    (hcontent.trans hlayer'.2.symm)).symm

/-- The runtime fetches the module that is in the chain, or fails. -/
theorem fetch_same [LawfulTar] {limit : Nat} {archive : Bytes}
    (hchain : moduleLayerRequest.Chain digest s layer archive)
    (hmodule : layerModule limit layer archive = .ok b)
    (hruntime : RuntimeAt r target resolved w) (hparse : parseAnyReference target = .ok reference)
    (hdigest : reference.digest = some digest)
    (hcollision : NoCollisionWith s (r.fetch resolved w).2)
    (h : (r.fetch resolved w).1 = .ok b') : b' = b := by
  rcases hruntime.source hparse hdigest with ⟨pinned, hpinned, hsource, -⟩
  rcases hchain with ⟨raw, m, hanswered, hraw, hcontent⟩
  rcases (Resolver.fetch_oci hsource).1 h with ⟨layer', archive', hlayer', hmodule'⟩
  rw [Resolver.fetch_world hsource] at hcollision
  have hfetched : r.fetchLayer pinned w = (.ok (layer', archive'), (r.fetchLayer pinned w).2) :=
    Prod.ext hlayer' rfl
  have hlinks := Resolver.fetchLayer_chain hfetched
  rcases hlinks.manifest with ⟨raw', m', hserved, hdigest', hparsed', hpicked'⟩
  -- the runtime's artifact is the one that was reported on
  have hsame : raw = raw' := hcollision 0 (by decide) raw raw' hanswered.artifact
    (.inr (.inl ⟨_, hserved⟩)) (hraw.trans (hpinned.symm.trans hdigest'.symm))
  subst hsame
  cases hanswered.parsed.symm.trans hparsed'
  have hpicked : moduleLayerRequest.pick m = some layer := hanswered.picked
  have hlayer : layer = layer' := by
    simpa [moduleLayerRequest, hpicked', Except.toOption, eq_comm] using hpicked
  subst hlayer
  have hplace : moduleLayerRequest.place m < 3 := by
    simp only [moduleLayerRequest, manifestRequests]
    split <;> decide
  have harchive : archive = archive' := hcollision _ hplace archive archive' hanswered.content
    (Resolver.fetchLayer_occurs hfetched) (hcontent.trans hlinks.layer.symm)
  subst harchive
  -- both take the module out of the layer, each with its own limit
  unfold layerModule at hmodule
  unfold Resolver.moduleOf at hmodule'
  split at hmodule
  · next htar =>
      rw [if_pos htar] at hmodule'
      exact extractWasm_unique hmodule' hmodule
  · next htar =>
      rw [if_neg htar] at hmodule'
      exact Except.ok.inj (hmodule'.symm.trans hmodule)

end Runtime

/-! ## The theorem -/

section Theorem

variable [UnicodeTables] [RegistryLibrary] {M : Type} [ManifestParser M] [EngineLibrary] [TarLibrary]

/-- Inspect reports a module manifest for a reference, or a composition is scaffolded from it. -/
inductive ManifestUsed (target : Text) (s : Session) (p : M) : Prop where
  | inspect {cmd : InspectCmd} {out : InspectionOut M} {info : ReferenceInfo M} {s' : Session} :
      cmd.target = target → cmd.run none s = (.ok out, s') → out.reference = some info →
        info.manifest = some p → ManifestUsed target s p
  | scaffold {cmd : CompositionCmd} {source : CompositionCmd.Source} {s' : Session} :
      cmd.target = target → cmd.source none none s = (.ok (source, some p), s') →
        ManifestUsed target s p

/-- Inspect reports a module for a reference. -/
inductive ModuleReported (limit : Nat) (target : Text) (s : Session) (info : ModuleInfo) : Prop where
  | inspect {cmd : InspectCmd} {out : InspectionOut M} {s' : Session} :
      cmd.limit = limit → cmd.target = target → cmd.run none s = (.ok out, s') →
        out.module = some info → ModuleReported limit target s info

/-- What is reported for a pinned reference is in the chain that the reference pins exactly where the
registry answered with the documents of one, and then a runtime reads the same bytes or fails. -/
theorem inspect_chained [MacLibrary] [ManifestLibrary] [LawfulTar] {target digest : Text}
    {reference : AnyReference} (hparse : parseAnyReference target = .ok reference)
    (hdigest : reference.digest = some digest) (s : Session) :
    (∀ p : M, ManifestUsed target s p →
      ∃ raw m layer b, manifestLayerRequest.Answered s raw m layer b ∧ ManifestParser.parse b = .ok p ∧
        (manifestLayerRequest.Chain digest s layer b ↔ manifestLayerRequest.Genuine digest s) ∧
        (manifestLayerRequest.Genuine digest s → ∀ r resolved w b', RuntimeAt r target resolved w →
          NoCollisionWith s (r.manifest resolved w).2 → (r.manifest resolved w).1 = .ok b' →
            b' = b)) ∧
    ∀ limit info, ModuleReported (M := M) limit target s info →
      ∃ raw m layer archive b, moduleLayerRequest.Answered s raw m layer archive ∧
        layerModule limit layer archive = .ok b ∧ describeModule b = .ok info ∧
        (moduleLayerRequest.Chain digest s layer archive ↔ moduleLayerRequest.Genuine digest s) ∧
        (moduleLayerRequest.Genuine digest s → ∀ r resolved w b', RuntimeAt r target resolved w →
          NoCollisionWith s (r.fetch resolved w).2 → (r.fetch resolved w).1 = .ok b' →
            b' = b) := by
  constructor
  · intro p hused
    have hread : ∃ raw m layer b, manifestLayerRequest.Answered s raw m layer b ∧
        ManifestParser.parse b = .ok p := by
      cases hused with
      | inspect _ hrun hinfo hp =>
          rcases InspectCmd.run_ok hrun with ⟨_, hrun'⟩
          exact (InspectCmd.runReference_ok hrun').1 _ p hinfo hp
      | scaffold _ hsource => exact CompositionCmd.source_ok hsource
    rcases hread with ⟨raw, m, layer, b, hanswered, hp⟩
    have hiff := hanswered.chain_iff digest
    refine ⟨raw, m, layer, b, hanswered, hp, hiff, ?_⟩
    intro hgenuine r resolved w b' hruntime hcollision h
    exact manifest_same (hiff.2 hgenuine) hruntime hparse hdigest hcollision h
  · intro limit info hreported
    cases hreported with
    | inspect hlimit _ hrun hinfo =>
        rcases InspectCmd.run_ok hrun with ⟨_, hrun'⟩
        rcases (InspectCmd.runReference_ok hrun').2 info hinfo with
          ⟨raw, m, layer, archive, b, hanswered, hmodule, hdescribe⟩
        rw [hlimit] at hmodule
        have hiff := hanswered.chain_iff digest
        refine ⟨raw, m, layer, archive, b, hanswered, hmodule, hdescribe, hiff, ?_⟩
        intro hgenuine r resolved w b' hruntime hcollision h
        exact fetch_same (hiff.2 hgenuine) hmodule hruntime hparse hdigest hcollision h

end Theorem

/-! ## A forged layer -/

section Examples

open Resolver

/-- An artifact with a manifest layer and a module layer. -/
def layeredManifest : OciManifest where
  mediaType := ociManifestType
  layers :=
    [⟨manifestLayerType, "sha256:02".toList ++ List.replicate 62 '0', 1⟩,
      ⟨"application/wasm".toList, "sha256:04".toList ++ List.replicate 62 '0', 1⟩]
  subject := none
  manifests := []

@[reducible] def layeredRegistry : RegistryLibrary where
  sha256 b := b ++ List.replicate (32 - b.length) 0
  manifestFromJson raw := if raw = [1] then .ok layeredManifest else .error []
  indexFromJson _ := .error []

/-- Every document is a manifest. -/
@[reducible] def anyManifest : ManifestParser Bytes where
  parse := .ok

/-- Every document is a component, with nothing in it. -/
@[reducible] def anyComponent : EngineLibrary where
  inspectModule _ := .ok { abiError := none, exports := [], imports := [] }

@[reducible] def sameJson : ManifestLibrary where
  manifestJson := .ok

attribute [local instance] asciiTables layeredRegistry untouchedMac hiddenFile anyManifest
  anyComponent sameJson

/-- An archive is read the same through every limit. -/
theorem lawful_hiddenFile : LawfulTar where
  reads _ := by
    refine ⟨[.ok ⟨true, ".fn.wasm".toList, .ok [3]⟩], ?_⟩
    intro limit items hitems
    cases hitems
    exact .entry rfl rfl (fun b hb => ⟨[3], rfl, by cases hb; simp⟩) .done

def pinnedTarget : Text := "r.io/m@sha256:01".toList ++ List.replicate 62 '0'

def pinnedReference : AnyReference where
  registry := "r.io".toList
  repository := "m".toList
  tag := none
  digest := some hiddenReference.digest

def pullCmd : InspectCmd where
  target := pinnedTarget
  pull := true
  maxSize := 128

/-- The registry answers with the artifact, and then with some manifest layer and some module. -/
def answering (layer : Bytes) : Session where
  answers n := .ok (if n = 0 then [1] else if n = 1 then layer else [4])
  log := []

theorem manifestUsed_of_run (cmd : InspectCmd) {s : Session} {p : Bytes}
    (h : ((cmd.run (M := Bytes) none s).1.toOption.bind fun out => out.reference.bind ReferenceInfo.manifest) =
      some p) : ManifestUsed cmd.target s p := by
  rcases Option.bind_eq_some_iff.1 h with ⟨out, hout, hmanifest⟩
  rcases Option.bind_eq_some_iff.1 hmanifest with ⟨info, hinfo, hp⟩
  rcases hrun : cmd.run (M := Bytes) none s with ⟨e | out', s'⟩
  · rw [hrun] at hout
    cases hout
  · rw [hrun] at hout
    cases hout
    exact .inspect rfl hrun hinfo hp

theorem moduleReported_of_run (cmd : InspectCmd) {s : Session} {info : ModuleInfo}
    (h : ((cmd.run (M := Bytes) none s).1.toOption.bind InspectionOut.module) = some info) :
    ModuleReported (M := Bytes) cmd.limit cmd.target s info := by
  rcases Option.bind_eq_some_iff.1 h with ⟨out, hout, hinfo⟩
  rcases hrun : cmd.run (M := Bytes) none s with ⟨e | out', s'⟩
  · rw [hrun] at hout
    cases hout
  · rw [hrun] at hout
    cases hout
    exact .inspect rfl rfl hrun hinfo

/-- What is reported of the artifact is in its chain. -/
theorem genuine_layers_reported :
    (∃ layer, manifestLayerRequest.Chain hiddenReference.digest (answering [2]) layer [2]) ∧
      ∃ layer, moduleLayerRequest.Chain hiddenReference.digest (answering [2]) layer [4] := by
  have : LawfulTar := lawful_hiddenFile
  have hparse : parseAnyReference pinnedTarget = .ok pinnedReference := by decide +kernel
  have hchained := inspect_chained (M := Bytes) hparse rfl (answering [2])
  have hartifact : ∀ raw, (answering [2]).answers 0 = .ok raw →
      contentDigest raw = hiddenReference.digest := by
    intro raw hraw
    cases hraw
    decide +kernel
  -- every document that is answered is the same one
  have hlayers : ∀ raw m, (answering [2]).answers 0 = .ok raw →
      RegistryLibrary.manifestFromJson raw = .ok m →
        m = layeredManifest := by
    intro raw m hraw hparsed
    cases hraw
    cases hparsed
    rfl
  constructor
  · have hused : ManifestUsed pinnedTarget (answering [2]) ([2] : Bytes) :=
      manifestUsed_of_run pullCmd (by decide +kernel)
    rcases hchained.1 [2] hused with ⟨raw, m, layer, b, hanswered, hp, hiff, -⟩
    cases hp
    refine ⟨layer, hiff.2 ⟨hartifact, ?_⟩⟩
    intro raw m layer b h
    cases hlayers raw m h.artifact h.parsed
    cases h.picked
    cases h.content
    decide +kernel
  · have hreported : ModuleReported (M := Bytes) pullCmd.limit pinnedTarget (answering [2])
        { size := 1, abi := "v2".toList, abiError := [], exports := [], imports := [] } :=
      moduleReported_of_run pullCmd (by decide +kernel)
    rcases hchained.2 _ _ hreported with ⟨raw, m, layer, archive, b, hanswered, -, -, hiff, -⟩
    cases hlayers raw m hanswered.artifact hanswered.parsed
    cases hanswered.content
    refine ⟨layer, hiff.2 ⟨hartifact, ?_⟩⟩
    intro raw m layer b h
    cases hlayers raw m h.artifact h.parsed
    cases h.picked
    cases h.content
    decide +kernel

/-- A manifest that is not the artifact's is reported, and the runtime reads the artifact's. -/
theorem forged_manifest_reported :
    ManifestUsed pinnedTarget (answering [3]) ([3] : Bytes) ∧
      (¬ ∃ layer, manifestLayerRequest.Chain hiddenReference.digest (answering [3]) layer [3]) ∧
      ∃ resolved w, RuntimeAt bareResolver pinnedTarget resolved w ∧
        (bareResolver.manifest resolved w).1 = .ok [2] := by
  have hempty : ∀ key, World.remembered { hiddenWorld with session := answering [2] } key = none :=
    AList.lookup_empty
  refine ⟨manifestUsed_of_run pullCmd (by decide +kernel), ?_, hiddenResolved,
    { hiddenWorld with session := answering [2] }, ⟨.init rfl, ?_, ?_, ?_⟩, by decide +kernel⟩
  · rintro ⟨layer, raw, m, h, -, hcontent⟩
    cases h.artifact
    cases h.parsed
    cases h.picked
    exact absurd hcontent (by decide +kernel)
  · refine ⟨fun _ _ => .error [], hiddenSource, _, rfl, rfl, rfl, ?_⟩
    decide +kernel
  · intro v hv
    rw [hempty] at hv
    cases hv
  · intro _ m layer _ _ v hv
    rw [hempty] at hv
    cases hv

end Examples

end FunctionWasm

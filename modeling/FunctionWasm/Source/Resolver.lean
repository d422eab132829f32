import FunctionWasm.Registry.Oci
import FunctionWasm.Source.Admission

/-!
# Resolver — what a source stands for

A resolved module is its content digest, where to fetch it and where its manifest lives.  Resolving a
source in a registry or on the web costs no I/O: the digest is stated.

* `resolve` resolves a concrete source, `resolve_oci` and `resolve_http` say what to.

A path is resolved against the module directory, which is a parameter.
-/

namespace FunctionWasm

/-- Where a module is fetched from. -/
inductive Source where
  | path (full : Text)
  | http (url : Text)
  | oci (reference : OciReference)
  deriving DecidableEq

/-- Where the manifest of a module is. -/
inductive ManifestSource where
  | none
  | pathFile (full : Text)
  | http (url digest : Text)
  | ociLayer (reference : OciReference)
  deriving DecidableEq

structure Resolved where
  digest : Text
  description : Text
  source : Source
  manifest : ManifestSource
  deriving DecidableEq

section Resolve

variable [UnicodeTables]

/-- Resolves a concrete source; `resolvePath` resolves a module file and a manifest file, which may
be empty. -/
def resolve (resolvePath : Text → Text → Except Text Resolved) (src : ModuleSource) :
    Except Text Resolved :=
  if src.type = typeOci then
    match src.oci with
    -- the source expects the object
    | none => .error "validated: an OCI source has its object".toList
    | some oci => do
        let reference ← parseOciReference oci.ref
        return { digest := reference.digest
                 description := "oci ".toList ++ oci.ref
                 source := .oci reference
                 manifest := .ociLayer reference }
  else if src.type = typeHttp then
    match src.http with
    | none => .error "validated: an HTTP source has its object".toList
    | some http =>
        .ok { digest := http.digest
              description := "http ".toList ++ http.url
              source := .http http.url
              manifest :=
                if http.manifestUrl = [] then .none
                else .http http.manifestUrl http.manifestDigest }
  else resolvePath src.path src.manifestPath

theorem resolve_oci {resolvePath : Text → Text → Except Text Resolved} {src : ModuleSource}
    {resolved : Resolved} (htype : src.type = typeOci) (h : resolve resolvePath src = .ok resolved) :
    ∃ oci reference, src.oci = some oci ∧ parseOciReference oci.ref = .ok reference ∧
      resolved = { digest := reference.digest
                   description := "oci ".toList ++ oci.ref
                   source := .oci reference
                   manifest := .ociLayer reference } := by
  unfold resolve at h
  rw [if_pos htype] at h
  split at h
  · cases h
  · next oci hoci =>
      rcases bind_eq_ok.1 h with ⟨reference, hparse, h⟩
      cases h
      exact ⟨oci, reference, hoci, hparse, rfl⟩

theorem resolve_http {resolvePath : Text → Text → Except Text Resolved} {src : ModuleSource}
    {http : HttpSource} (htype : src.type = typeHttp) (hhttp : src.http = some http) :
    resolve resolvePath src =
      .ok { digest := http.digest
            description := "http ".toList ++ http.url
            source := .http http.url
            manifest :=
              if http.manifestUrl = [] then .none
              else .http http.manifestUrl http.manifestDigest } := by
  have hne : typeHttp ≠ typeOci := by decide
  unfold resolve
  rw [htype, if_neg hne, if_pos rfl, hhttp]

end Resolve
end FunctionWasm

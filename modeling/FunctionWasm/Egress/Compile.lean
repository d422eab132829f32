import FunctionWasm.Egress.Rules
import FunctionWasm.Foundation.Checks

/-!
# Compile — from the rules of a manifest to a grant

A module states its egress rules in its manifest, where they are checked; admitted rules are compiled
into the grant that its requests are held against.

* `validateRules` is the check, `ValidRule` what it comes to.
* `Ceiling.grant` compiles the rules, `Compiles` is what a rule comes to.
* `grant_ok` says where each rule of a grant comes from, `grant_of_valid` that valid rules compile.
-/

namespace FunctionWasm
namespace Egress

open HttpLibrary

/-- A rule of a manifest: a host or a host pattern, methods and a path prefix. -/
structure HttpRule where
  host : Text
  hostPattern : Text
  methods : List Text
  pathPrefix : Text
  deriving DecidableEq

def knownMethods : List Text :=
  ["GET", "HEAD", "POST", "PUT", "PATCH", "DELETE", "OPTIONS"].map String.toList

/-- The characters that no host of a rule holds. -/
def hostMarks : List Char := ['*', '/', ':', '%', '@', ' ', '\t', '\n', '[', ']']

variable [HttpLibrary]

/-! ## The check of a manifest -/

def validHost (h : Text) : Bool :=
  let n := normalizeHost h
  n ≠ [] ∧ ¬ n.any fun c => c ∈ hostMarks

/-- The suffix of `*.example.com`, which is `.example.com`. -/
def patternSuffix (pattern : Text) : Option Text :=
  match normalizeHost pattern with
  | '*' :: '.' :: rest =>
      if rest = [] ∨ rest.any fun c => c ∈ hostMarks then none else some ('.' :: rest)
  | _ => none

def validHostPattern (p : Text) : Bool :=
  match patternSuffix p with
  | some suffix => validHost (suffix.drop 1)
  | none => false

/-- The name of an entry of a list field. -/
def entryName (field : Text) (i : Nat) : Text :=
  field ++ "[".toList ++ (toString i).toList ++ "]".toList

def validateMethod (entry m : Text) : Except Text Unit :=
  if m ∈ knownMethods then .ok ()
  else
    .error (entry ++ ".methods: ".toList ++ debug m ++
      " is not one of GET, HEAD, POST, PUT, PATCH, DELETE, OPTIONS".toList)

/-- Checks one rule. -/
def validateRule (entry : Text) (r : HttpRule) : Except Text Unit :=
  if r.host = [] ↔ r.hostPattern = [] then
    .error (entry ++ " must set exactly one of host and hostPattern".toList)
  else if r.host ≠ [] ∧ validHost r.host = false then
    .error (entry ++ ".host ".toList ++ debug r.host ++
      " must be a bare host name (no scheme, port, path or zone)".toList)
  else if r.hostPattern ≠ [] ∧ validHostPattern r.hostPattern = false then
    .error (entry ++ ".hostPattern ".toList ++ debug r.hostPattern ++
      " must be a host name with one leading wildcard label, e.g. *.example.com".toList)
  else if r.methods = [] then
    .error (entry ++ ".methods must list at least one method".toList)
  else
    match checkAll (validateMethod entry) r.methods with
    | .error e => .error e
    | .ok () =>
        if r.pathPrefix ≠ [] ∧ r.pathPrefix.head? ≠ some '/' then
          .error (entry ++ ".pathPrefix ".toList ++ debug r.pathPrefix ++
            " must start with /".toList)
        else if normalizedPath r.pathPrefix = false then
          .error (entry ++ ".pathPrefix ".toList ++ debug r.pathPrefix ++
            " must be normalized (no . or .. segments, no empty segments)".toList)
        else .ok ()

/-- Checks the rules of a field, naming a wrong one by its index. -/
def validateRules (field : Text) (rules : List HttpRule) : Except Text Unit :=
  checkAll (fun p => validateRule (entryName field p.2) p.1) rules.zipIdx

/-- What a rule that passed is: it names one host, or the hosts under one, and lists methods. -/
structure ValidRule (r : HttpRule) : Prop where
  one : ¬ (r.host = [] ↔ r.hostPattern = [])
  host : r.host ≠ [] → validHost r.host = true
  pattern : r.hostPattern ≠ [] → validHostPattern r.hostPattern = true
  methods : r.methods ≠ []
  known : ∀ m ∈ r.methods, m ∈ knownMethods
  path : normalizedPath r.pathPrefix = true

theorem validateMethod_ok {entry m : Text} (h : validateMethod entry m = .ok ()) :
    m ∈ knownMethods := by
  unfold validateMethod at h
  split at h
  · next hknown => exact hknown
  · cases h

theorem validateRule_ok {entry : Text} {r : HttpRule} (h : validateRule entry r = .ok ()) :
    ValidRule r := by
  unfold validateRule at h
  split at h
  · cases h
  next hone =>
  split at h
  · cases h
  next hhost =>
  split at h
  · cases h
  next hpattern =>
  split at h
  · cases h
  next hmethods =>
  split at h
  · cases h
  next hknown =>
  split at h
  · cases h
  split at h
  · cases h
  next hpath =>
  have hall := checkAll_eq_ok.1 hknown
  exact
    { one := hone
      host := by simpa using hhost
      pattern := by simpa using hpattern
      methods := hmethods
      known := fun m hm => validateMethod_ok (hall m hm)
      path := by simpa using hpath }

theorem validateRules_ok {field : Text} {rules : List HttpRule}
    (h : validateRules field rules = .ok ()) : ∀ r ∈ rules, ValidRule r := by
  intro r hr
  rcases List.mem_iff_getElem?.1 hr with ⟨i, hi⟩
  have hmem : (r, i) ∈ rules.zipIdx := List.mk_mem_zipIdx_iff_getElem?.2 hi
  exact validateRule_ok (checkAll_eq_ok.1 h (r, i) hmem)

/-! ## Compiling -/

def compileRule (entry : Text) (r : HttpRule) : Except Text CompiledRule :=
  let methods := r.methods.map uppercase
  if r.pathPrefix ≠ [] ∧ normalizedPath r.pathPrefix = false then
    .error (entry ++ ".pathPrefix ".toList ++ debug r.pathPrefix ++
      " must be normalized (no . or .. segments, no empty segments)".toList)
  else if r.host ≠ [] then
    if validHost r.host = false then
      .error (entry ++ ".host ".toList ++ debug r.host ++
        " must be a bare host name (no scheme, port, path or zone)".toList)
    else
      .ok
        { host := normalizeHost r.host
          suffix := []
          methods := methods
          pathPrefix := r.pathPrefix }
  else
    match patternSuffix r.hostPattern with
    | none =>
        .error (entry ++ ".hostPattern ".toList ++ debug r.hostPattern ++
          " must be a host name with one leading wildcard label".toList)
    | some suffix =>
        .ok { host := [], suffix := suffix, methods := methods, pathPrefix := r.pathPrefix }

/-- Compiles the admitted rules of a module. -/
def Ceiling.grant (e : Ceiling) (rules : List HttpRule) : Except Text Grant := do
  let compiled ← rules.zipIdx.mapM fun p =>
    compileRule (entryName "requires.egress.http".toList p.2) p.1
  return { egress := e, rules := compiled }

/-- What a rule is compiled to: its host, or the suffix of its pattern. -/
structure Compiles (r : HttpRule) (c : CompiledRule) : Prop where
  host : (r.host ≠ [] ∧ c.host = normalizeHost r.host ∧ c.host ≠ [] ∧ c.suffix = []) ∨
    (r.host = [] ∧ c.host = [] ∧ patternSuffix r.hostPattern = some c.suffix)
  methods : c.methods = r.methods.map uppercase
  path : c.pathPrefix = r.pathPrefix

theorem normalizeHost_ne_nil {h : Text} (hh : validHost h = true) : normalizeHost h ≠ [] := by
  simp only [validHost, decide_eq_true_eq] at hh
  exact hh.1

theorem compileRule_ok {entry : Text} {r : HttpRule} {c : CompiledRule}
    (h : compileRule entry r = .ok c) : Compiles r c := by
  unfold compileRule at h
  dsimp only at h
  split at h
  · cases h
  split at h
  · next hhost =>
      split at h
      · cases h
      · next hvalid =>
          cases h
          have hne := normalizeHost_ne_nil (by simpa using hvalid)
          exact ⟨.inl ⟨hhost, rfl, hne, rfl⟩, rfl, rfl⟩
  · next hhost =>
      have hnone : r.host = [] := by simpa using hhost
      split at h
      · cases h
      · next suffix hsuffix =>
          cases h
          exact ⟨.inr ⟨hnone, rfl, hsuffix⟩, rfl, rfl⟩

theorem compileRule_of_valid {entry : Text} {r : HttpRule} (h : ValidRule r) :
    ∃ c, compileRule entry r = .ok c := by
  unfold compileRule
  by_cases hhost : r.host = []
  · have hpattern : r.hostPattern ≠ [] := by simpa [hhost] using h.one
    have hvalid := h.pattern hpattern
    unfold validHostPattern at hvalid
    cases hsuffix : patternSuffix r.hostPattern with
    | none => simp [hsuffix] at hvalid
    | some suffix => simp [h.path, hhost]
  · simp [h.path, hhost, h.host hhost]

/-- Every rule of a grant was compiled from a rule of the manifest. -/
theorem grant_ok {e : Ceiling} {rules : List HttpRule} {g : Grant} (h : e.grant rules = .ok g) :
    ∀ c ∈ g.rules, ∃ r ∈ rules, Compiles r c := by
  rcases bind_eq_ok.1 h with ⟨compiled, hcompiled, heq⟩
  cases heq
  intro c hc
  rcases mem_of_mapM_ok hcompiled c hc with ⟨⟨r, i⟩, hmem, hr⟩
  exact ⟨r, List.fst_mem_of_mem_zipIdx hmem, compileRule_ok hr⟩

/-- Rules that passed the check of their manifest compile. -/
theorem grant_of_valid {e : Ceiling} {rules : List HttpRule} (h : ∀ r ∈ rules, ValidRule r) :
    ∃ g, e.grant rules = .ok g := by
  have hall : ∀ p ∈ rules.zipIdx, ∃ c,
      compileRule (entryName "requires.egress.http".toList p.2) p.1 = .ok c := by
    intro p hp
    exact compileRule_of_valid (h p.1 (List.fst_mem_of_mem_zipIdx hp))
  rcases exists_mapM_ok hall with ⟨compiled, hcompiled⟩
  exact ⟨{ egress := e, rules := compiled }, bind_eq_ok.2 ⟨compiled, hcompiled, rfl⟩⟩

end Egress
end FunctionWasm

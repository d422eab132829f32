import FunctionWasm.Compose.Changes

/-!
# Selectors — the resources a module's response asks for

A response asks for resources by selectors, in two maps of one shape.  They are judged in one list:
the current map first, the deprecated one after it, each by key.

* `requirements` is the list, `requirement` one selector as a decision sees it.
* `Asks` says what a response asks for, without an order or a loop.
* `requirements_spec` says that the list has each of these at one place.
* `requirements_reordered` says that the order of the maps does not show in it.
-/

namespace FunctionWasm
namespace Require

open Compose (groupOf)

/-! ## Responses -/

inductive SelectorMatch where
  | matchName (name : Text)
  | matchLabels (labels : EntryMap Text Text)

structure ResourceSelector where
  apiVersion : Text
  kind : Text
  matched : Option SelectorMatch
  namespaceName : Option Text

structure Requirements where
  extraResources : EntryMap Text ResourceSelector
  resources : EntryMap Text ResourceSelector

/-- What the two fences read of a response: its selectors, the severities of its results and its
desired state. -/
structure Response (B : Type) where
  requirements : Option Requirements
  results : List Int
  desired : Option (Compose.State B)

/-! ## What a decision sees -/

inductive RequirementMatch where
  | name (name : Text)
  | labels (labels : List (Text × Text))
  | none
  deriving DecidableEq, Repr

structure Requirement where
  group : Text
  kind : Text
  matched : RequirementMatch
  namespaceName : Option Text
  field : Text
  key : Text
  deriving DecidableEq, Repr

def Requirement.kindId (r : Requirement) : Text :=
  r.group ++ "/".toList ++ r.kind

/-- Where a requirement was asked for. -/
def Requirement.slot (r : Requirement) : Text × Text :=
  (r.field, r.key)

/-- Why a response is refused: a selector no rule could judge, or one a layer refuses. -/
inductive RequireError where
  | noKind (key : Text)
  | refused (r : Requirement) (layer : Compose.Layer)
  deriving DecidableEq, Repr

/-! ## The list -/

def matchOf : Option SelectorMatch → RequirementMatch
  | some (.matchName name) => .name name
  | some (.matchLabels labels) => .labels (inOrder labels)
  | none => .none

def requirement (field key : Text) (s : ResourceSelector) : Except RequireError Requirement :=
  if s.apiVersion = [] ∨ s.kind = [] then
    .error (.noKind key)
  else
    .ok {
      group := groupOf s.apiVersion
      kind := s.kind
      matched := matchOf s.matched
      -- an empty namespace is no namespace
      namespaceName := s.namespaceName.filter fun ns => !ns.isEmpty
      field := field
      key := key }

/-- One map: its entries after those read so far. -/
def collect (field : Text) :
    List (Text × ResourceSelector) → List Requirement → Except RequireError (List Requirement)
  | [], out => .ok out
  | (key, s) :: entries, out =>
      match requirement field key s with
      | .error e => .error e
      | .ok r => collect field entries (out ++ [r])

def fieldResources : Text :=
  "resources".toList

def fieldExtraResources : Text :=
  "extra_resources".toList

/-- The selectors of a response in judging order. -/
def requirements {B : Type} (rsp : Response B) : Except RequireError (List Requirement) :=
  match rsp.requirements with
  | none => .ok []
  | some req =>
      match collect fieldResources (inOrder req.resources) [] with
      | .error e => .error e
      | .ok out => collect fieldExtraResources (inOrder req.extraResources) out

/-! ## One selector -/

/-- A selector that some rule could judge. -/
def ResourceSelector.Stated (s : ResourceSelector) : Prop :=
  s.apiVersion ≠ [] ∧ s.kind ≠ []

theorem requirement_of_stated {s : ResourceSelector} (h : s.Stated) (field key : Text) :
    ∃ r, requirement field key s = .ok r ∧ r.slot = (field, key) := by
  refine ⟨_, if_neg ?_, rfl⟩
  rw [not_or]
  exact h

theorem requirement_of_not_stated {s : ResourceSelector} (h : ¬ s.Stated) (field key : Text) :
    requirement field key s = .error (.noKind key) := by
  refine if_pos ?_
  by_contra hnone
  exact h (not_or.1 hnone)

theorem slot_of_requirement {field key : Text} {s : ResourceSelector} {r : Requirement}
    (h : requirement field key s = .ok r) : s.Stated ∧ r.slot = (field, key) := by
  by_cases hs : s.Stated
  · rcases requirement_of_stated hs field key with ⟨r', hr', hslot⟩
    rw [h] at hr'
    cases hr'
    exact ⟨hs, hslot⟩
  · rw [requirement_of_not_stated hs] at h
    cases h

/-! ## What a response asks for -/

/-- A response asks, in this map and under this key, for what the selector selects. -/
inductive Asks {B : Type} (rsp : Response B) : Text → Text → ResourceSelector → Prop where
  | resources {req : Requirements} {key : Text} {s : ResourceSelector}
      (hreq : rsp.requirements = some req) (h : req.resources.lookup key = some s) :
      Asks rsp fieldResources key s
  | extraResources {req : Requirements} {key : Text} {s : ResourceSelector}
      (hreq : rsp.requirements = some req) (h : req.extraResources.lookup key = some s) :
      Asks rsp fieldExtraResources key s

/-- One map: the loop reads every entry at its place, or stops at one that states no kind. -/
theorem collect_spec (field : Text) :
    ∀ (entries : List (Text × ResourceSelector)) (out : List Requirement),
      (∃ rs, collect field entries out = .ok (out ++ rs) ∧
        List.Forall₂ (fun e r => requirement field e.1 e.2 = .ok r) entries rs) ∨
      ∃ key s, collect field entries out = .error (.noKind key) ∧ (key, s) ∈ entries ∧
        ¬ s.Stated := by
  intro entries
  induction entries with
  | nil =>
      intro out
      exact Or.inl ⟨[], by simp [collect], .nil⟩
  | cons e entries ih =>
      intro out
      rcases e with ⟨key, s⟩
      by_cases hs : s.Stated
      · rcases requirement_of_stated hs field key with ⟨r, hr, _⟩
        rcases ih (out ++ [r]) with ⟨rs, hrs, hall⟩ | ⟨key', s', herr, hmem, hnot⟩
        · exact Or.inl ⟨r :: rs, by simp [collect, hr, hrs], .cons hr hall⟩
        · exact Or.inr ⟨key', s', by simp [collect, hr, herr], List.mem_cons_of_mem _ hmem, hnot⟩
      · refine Or.inr ⟨key, s, ?_, List.mem_cons_self, hs⟩
        simp [collect, requirement_of_not_stated hs]

theorem slots_of_forall₂ {field : Text} {entries : List (Text × ResourceSelector)}
    {rs : List Requirement}
    (h : List.Forall₂ (fun e r => requirement field e.1 e.2 = .ok r) entries rs) :
    rs.map Requirement.slot = entries.map fun e => (field, e.1) := by
  induction h with
  | nil => rfl
  | cons hr _ ih => simp [ih, (slot_of_requirement hr).2]

theorem mem_of_forall₂ {field : Text} {entries : List (Text × ResourceSelector)}
    {rs : List Requirement}
    (h : List.Forall₂ (fun e r => requirement field e.1 e.2 = .ok r) entries rs) {key : Text}
    {s : ResourceSelector} (hmem : (key, s) ∈ entries) :
    ∃ r ∈ rs, requirement field key s = .ok r := by
  induction h with
  | nil => cases hmem
  | @cons e r _ _ hr _ ih =>
      rcases List.mem_cons.1 hmem with rfl | hmem
      · exact ⟨r, List.mem_cons_self, hr⟩
      · rcases ih hmem with ⟨r', hr', hreq⟩
        exact ⟨r', List.mem_cons_of_mem _ hr', hreq⟩

/-- What a list of requirements says of a response: each selector is in it, at one place. -/
structure Lists {B : Type} (rsp : Response B) (rs : List Requirement) : Prop where
  nodup : (rs.map Requirement.slot).Nodup
  complete : ∀ {field key s}, Asks rsp field key s →
    ∃ r ∈ rs, requirement field key s = .ok r

theorem nodup_fields {field : Text} (m : EntryMap Text ResourceSelector) :
    ((inOrder m).map fun e => (field, e.1)).Nodup := by
  have hslots : ((inOrder m).map fun e => (field, e.1)) =
      ((inOrder m).map Prod.fst).map (Prod.mk field) := by simp
  rw [hslots]
  exact (nodup_map_fst_inOrder m).map (Prod.mk_right_injective field)

theorem fields_ne : fieldResources ≠ fieldExtraResources := by
  decide

/-- There is a list unless some selector states no apiVersion or kind; it has every selector of the
response at one place. -/
theorem requirements_spec {B : Type} (rsp : Response B) :
    (∃ rs, requirements rsp = .ok rs ∧ Lists rsp rs) ∨
      ∃ field key s, requirements rsp = .error (.noKind key) ∧ Asks rsp field key s ∧
        ¬ s.Stated := by
  cases hreq : rsp.requirements with
  | none =>
      refine Or.inl ⟨[], by simp [requirements, hreq], List.nodup_nil, ?_⟩
      intro field key s hasks
      cases hasks with
      | resources h _ => rw [hreq] at h; cases h
      | extraResources h _ => rw [hreq] at h; cases h
  | some req =>
      rcases collect_spec fieldResources (inOrder req.resources) [] with
        ⟨rs, hrs, hall⟩ | ⟨key, s, herr, hmem, hnot⟩
      · rcases collect_spec fieldExtraResources (inOrder req.extraResources) ([] ++ rs) with
          ⟨rs', hrs', hall'⟩ | ⟨key, s, herr, hmem, hnot⟩
        · refine Or.inl ⟨rs ++ rs', by simpa [requirements, hreq, hrs] using hrs', ?_, ?_⟩
          · rw [List.map_append, slots_of_forall₂ hall, slots_of_forall₂ hall']
            refine List.nodup_append.2 ⟨nodup_fields _, nodup_fields _, ?_⟩
            intro a ha b hb
            rcases List.mem_map.1 ha with ⟨_, _, rfl⟩
            rcases List.mem_map.1 hb with ⟨_, _, rfl⟩
            intro heq
            exact fields_ne (congrArg Prod.fst heq)
          · intro field key s hasks
            cases hasks with
            | resources h hlookup =>
                cases hreq.symm.trans h
                rcases mem_of_forall₂ hall (mem_inOrder.2 hlookup) with ⟨r, hr, hok⟩
                exact ⟨r, List.mem_append_left _ hr, hok⟩
            | extraResources h hlookup =>
                cases hreq.symm.trans h
                rcases mem_of_forall₂ hall' (mem_inOrder.2 hlookup) with ⟨r, hr, hok⟩
                exact ⟨r, List.mem_append_right _ hr, hok⟩
        · refine Or.inr ⟨_, key, s, ?_, .extraResources hreq (mem_inOrder.1 hmem), hnot⟩
          simpa [requirements, hreq, hrs] using herr
      · refine Or.inr ⟨_, key, s, ?_, .resources hreq (mem_inOrder.1 hmem), hnot⟩
        simp [requirements, hreq, herr]

/-! ## The order of the maps -/

inductive SelectorMatch.Reordered : SelectorMatch → SelectorMatch → Prop where
  | matchName (name : Text) : Reordered (.matchName name) (.matchName name)
  | matchLabels {labels labels' : EntryMap Text Text}
      (h : labels.entries.Perm labels'.entries) :
      Reordered (.matchLabels labels) (.matchLabels labels')

/-- Two selectors that differ in the order of their labels at most. -/
structure ResourceSelector.Reordered (s s' : ResourceSelector) : Prop where
  apiVersion : s.apiVersion = s'.apiVersion
  kind : s.kind = s'.kind
  matched : Option.Rel SelectorMatch.Reordered s.matched s'.matched
  namespaceName : s.namespaceName = s'.namespaceName

structure Requirements.Reordered (q q' : Requirements) : Prop where
  resources : ∀ key, Option.Rel ResourceSelector.Reordered (q.resources.lookup key)
    (q'.resources.lookup key)
  extraResources : ∀ key, Option.Rel ResourceSelector.Reordered (q.extraResources.lookup key)
    (q'.extraResources.lookup key)

theorem matchOf_reordered {m m' : Option SelectorMatch}
    (h : Option.Rel SelectorMatch.Reordered m m') : matchOf m = matchOf m' := by
  cases h with
  | none => rfl
  | some h =>
      cases h with
      | matchName name => rfl
      | @matchLabels labels labels' hperm =>
          have hpairs : (inOrder labels).map (fun e => (e.1, e.2)) =
              (inOrder labels').map fun e => (e.1, e.2) :=
            map_inOrder_congr fun k => by rw [AList.perm_lookup hperm]
          simpa [matchOf] using hpairs

theorem requirement_reordered {s s' : ResourceSelector} (h : s.Reordered s') (field key : Text) :
    requirement field key s = requirement field key s' := by
  unfold requirement
  rw [h.apiVersion, h.kind, matchOf_reordered h.matched, h.namespaceName]

/-- The loop over a map reads its selectors only through `requirement`. -/
theorem collect_congr {field : Text} :
    ∀ {entries entries' : List (Text × ResourceSelector)} {out : List Requirement},
      (entries.map fun e => requirement field e.1 e.2) =
        (entries'.map fun e => requirement field e.1 e.2) →
      collect field entries out = collect field entries' out := by
  intro entries
  induction entries with
  | nil =>
      intro entries' out h
      rw [List.map_eq_nil_iff.1 h.symm]
  | cons e entries ih =>
      intro entries' out h
      cases entries' with
      | nil => cases h
      | cons e' entries' =>
          rw [List.map_cons, List.map_cons, List.cons.injEq] at h
          simp only [collect, h.1]
          cases requirement field e'.1 e'.2 with
          | error _ => rfl
          | ok r => exact ih h.2

theorem collect_reordered {field : Text} {m m' : EntryMap Text ResourceSelector}
    (h : ∀ key, Option.Rel ResourceSelector.Reordered (m.lookup key) (m'.lookup key))
    (out : List Requirement) :
    collect field (inOrder m) out = collect field (inOrder m') out := by
  refine collect_congr (map_inOrder_congr fun key => ?_)
  exact map_eq_of_rel (h key) fun hs => requirement_reordered hs field key

/-- Neither the list nor the selector without a kind depends on the order of the maps. -/
theorem requirements_reordered {B : Type} {rsp rsp' : Response B}
    (h : Option.Rel Requirements.Reordered rsp.requirements rsp'.requirements) :
    requirements rsp = requirements rsp' := by
  unfold requirements
  revert h
  generalize rsp.requirements = q
  generalize rsp'.requirements = q'
  intro h
  cases h with
  | none => rfl
  | some h =>
      simp only [collect_reordered h.resources]
      cases collect fieldResources (inOrder _) [] with
      | error _ => rfl
      | ok out => exact collect_reordered h.extraResources out

end Require
end FunctionWasm

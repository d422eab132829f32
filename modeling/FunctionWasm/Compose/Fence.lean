import FunctionWasm.Compose.Unchanged

/-!
# Fence — every change a module makes is permitted by every layer that judges it

The output fence judges the changes in order: the composition layer first, then the operator's, each
only where it scopes `composeResource`.  The first refusal is the answer.

* `admitCompose` is the fence over a list of changes, `judge` over two states.
* `fence_complete_and_sound` says what its answers mean.
-/

namespace FunctionWasm
namespace Compose

variable {B Principal : Type} [StructBody B]

/-- A policy layer as the fence sees it: whether some rule of it scopes `composeResource`, and what
it decides about a change. -/
structure PolicyLayer (Principal : Type) where
  scopesComposeResource : Bool
  permitsCompose : Principal → Change → Bool

/-! ## The fence -/

/-- Whether a run's output is judged at all. -/
def composeFenced (policy comp : Option (PolicyLayer Principal)) : Bool :=
  comp.any PolicyLayer.scopesComposeResource || policy.any PolicyLayer.scopesComposeResource

/-- The layer that refuses a change, if one does. -/
def composeRefusedBy (change : Change) (policy comp : Option (PolicyLayer Principal))
    (principal : Principal) : Option Layer :=
  if comp.any (fun c => c.scopesComposeResource && !c.permitsCompose principal change) then
    some .composition
  else if policy.any (fun p => p.scopesComposeResource && !p.permitsCompose principal change) then
    some .operator
  else
    none

/-- Judges every change in order. -/
def admitCompose (policy comp : Option (PolicyLayer Principal)) (principal : Principal) :
    List Change → Except ComposeError Unit
  | [] => .ok ()
  | change :: changes =>
      match composeRefusedBy change policy comp principal with
      | some layer => .error (.refused change layer)
      | none => admitCompose policy comp principal changes

/-- The changes of a response, judged. -/
def judge (policy comp : Option (PolicyLayer Principal)) (principal : Principal)
    (before after : Option (State B)) (composite : Option (Text × Text)) :
    Except ComposeError Unit :=
  match changes before after composite with
  | .error e => .error e
  | .ok cs => admitCompose policy comp principal cs

/-- A result of this severity is fatal: Crossplane does not apply the response. -/
def severityFatal : Int := 1

/-- The output fence of a run: nothing is judged where no layer scopes the action or the response
carries a fatal result.  The composite is judged under the observed composite's kind. -/
def outputFence (policy comp : Option (PolicyLayer Principal)) (principal : Principal)
    (observed before after : Option (State B)) (severities : List Int) :
    Except ComposeError Unit :=
  if composeFenced policy comp && !severities.any (· == severityFatal) then
    judge policy comp principal before after ((compositeBefore observed).bind kindOf)
  else
    .ok ()

/-! ## What a refusal says -/

def Layer.describe : Layer → Text
  | composition => "the compositionPolicy".toList
  | operator => "the operator policy (--sandbox-policy-file)".toList

/-- One change as a refusal names it; `debug` quotes a name. -/
def describeChange (debug : Text → Text) (c : Change) : Text :=
  if c.composite then c.kindId ++ " (composite, ".toList ++ c.change.asStr ++ ")".toList
  else c.kindId ++ " ".toList ++ debug c.name ++ " (".toList ++ c.change.asStr ++ ")".toList

def ComposeError.message (debug : Text → Text) : ComposeError → Text
  | noKind name =>
      "composed resource ".toList ++ debug name ++
        (" states no apiVersion or kind, so the policy layers cannot judge it " ++
          "(composeResource)").toList
  | refused c layer =>
      "composed ".toList ++ describeChange debug c ++ ", which ".toList ++ layer.describe ++
        " does not permit (composeResource)".toList

/-! ## What the answers mean -/

/-- Every layer that scopes the action permits the change. -/
def Permitted (policy comp : Option (PolicyLayer Principal)) (principal : Principal)
    (c : Change) : Prop :=
  ∀ layer, comp = some layer ∨ policy = some layer →
    layer.scopesComposeResource = true → layer.permitsCompose principal c = true

theorem composeRefusedBy_eq_none_iff {policy comp : Option (PolicyLayer Principal)}
    {principal : Principal} {c : Change} :
    composeRefusedBy c policy comp principal = none ↔ Permitted policy comp principal c := by
  have hside : ∀ layer : Option (PolicyLayer Principal),
      layer.any (fun l => l.scopesComposeResource && !l.permitsCompose principal c) = false ↔
        ∀ l, layer = some l → l.scopesComposeResource = true →
          l.permitsCompose principal c = true := by
    intro layer
    cases layer with
    | none => simp
    | some l => cases hs : l.scopesComposeResource <;> simp [hs]
  unfold composeRefusedBy
  constructor
  · intro h l hl
    cases hcomp : comp.any
        (fun l => l.scopesComposeResource && !l.permitsCompose principal c) with
    | true => simp [hcomp] at h
    | false =>
        cases hpolicy : policy.any
            (fun l => l.scopesComposeResource && !l.permitsCompose principal c) with
        | true => simp [hcomp, hpolicy] at h
        | false =>
            rcases hl with hl | hl
            · exact (hside comp).1 hcomp l hl
            · exact (hside policy).1 hpolicy l hl
  · intro h
    have hcomp := (hside comp).2 fun l hl => h l (Or.inl hl)
    have hpolicy := (hside policy).2 fun l hl => h l (Or.inr hl)
    simp [hcomp, hpolicy]

/-- The fence admits a list exactly when every change of it is permitted. -/
theorem admitCompose_spec (policy comp : Option (PolicyLayer Principal)) (principal : Principal) :
    ∀ cs : List Change,
      (admitCompose policy comp principal cs = .ok () ∧
        ∀ c ∈ cs, Permitted policy comp principal c) ∨
      ∃ c layer, admitCompose policy comp principal cs = .error (.refused c layer) ∧ c ∈ cs ∧
        ¬ Permitted policy comp principal c := by
  intro cs
  induction cs with
  | nil => exact Or.inl ⟨rfl, by simp⟩
  | cons c cs ih =>
      cases hrefused : composeRefusedBy c policy comp principal with
      | some layer =>
          refine Or.inr ⟨c, layer, by simp [admitCompose, hrefused], List.mem_cons_self .., ?_⟩
          intro hpermitted
          rw [composeRefusedBy_eq_none_iff.2 hpermitted] at hrefused
          cases hrefused
      | none =>
          have hc : Permitted policy comp principal c := composeRefusedBy_eq_none_iff.1 hrefused
          rcases ih with ⟨hok, hall⟩ | ⟨c', layer, herr, hmem, hnot⟩
          · refine Or.inl ⟨by simp [admitCompose, hrefused, hok], ?_⟩
            intro c' hc'
            rcases List.mem_cons.1 hc' with rfl | hc'
            · exact hc
            · exact hall c' hc'
          · exact Or.inr ⟨c', layer, by simp [admitCompose, hrefused, herr],
              List.mem_cons_of_mem _ hmem, hnot⟩

/-- Two sides of an entry differ: one is absent, or they do not compare equal. -/
def Differs (b a : Option (Resource B)) : Prop :=
  sameOption Resource.same b a = false

/-- An `Ok` of the fence means that every entry that differs was judged and every change permitted;
an `Err` that some change is not permitted or some response resource states no kind.  The list of
changes is empty exactly when the states compare equal, an absent one being empty, and it does not
depend on the order of the maps. -/
theorem fence_complete_and_sound (policy comp : Option (PolicyLayer Principal))
    (principal : Principal) (before after : Option (State B)) (composite : Option (Text × Text)) :
    (judge policy comp principal before after composite = .ok () →
      (∀ name, Differs (resourceOf before name) (resourceOf after name) →
        ∃ c, EntryChange name (resourceOf before name) (resourceOf after name) c) ∧
      (Differs (compositeBefore before) (compositeBefore after) →
        compositeChanges (compositeBefore before) (compositeBefore after) composite ≠ []) ∧
      ∀ c, StateChange before after composite c → Permitted policy comp principal c) ∧
    (∀ e, judge policy comp principal before after composite = .error e →
      (∃ c, StateChange before after composite c ∧ ¬ Permitted policy comp principal c) ∨
        ∃ name r, resourceOf after name = some r ∧ kindOf r = none) ∧
    (AllKinded after →
      (changes before after composite = .ok [] ↔
        (before.getD State.empty).same (after.getD State.empty) = true)) ∧
    ∀ before' after', Reordered before before' → Reordered after after' →
      changes before' after' composite = changes before after composite := by
  refine ⟨?_, ?_, fun hkinded => changes_eq_nil_iff hkinded,
    fun before' after' hb ha => (changes_reordered composite hb ha).symm⟩
  · intro hok
    rcases changes_spec before after composite with
      ⟨cs, hcs, hkinded, hmem⟩ | ⟨name, r, herr, _, _⟩
    · simp only [judge, hcs] at hok
      refine ⟨?_, ?_, ?_⟩
      · intro name hdiffers
        -- an entry without a change compares equal
        by_contra hnone
        have hsame : sameOption Resource.same (resourceOf before name) (resourceOf after name) =
            true := by
          have hno : ∀ c, ¬ EntryChange name (resourceOf before name) (resourceOf after name) c :=
            fun c hc => hnone ⟨c, hc⟩
          exact (no_entryChange_iff (hkinded name)).1 hno
        rw [hdiffers] at hsame
        cases hsame
      · intro hdiffers hnil
        have hsame := compositeChanges_eq_nil.1 hnil
        rw [hdiffers] at hsame
        cases hsame
      · intro c hc
        rcases admitCompose_spec policy comp principal cs with ⟨_, hall⟩ | ⟨_, _, herr, _, _⟩
        · exact hall c ((hmem c).2 hc)
        · rw [herr] at hok
          cases hok
    · simp only [judge, herr] at hok
      cases hok
  · intro e he
    rcases changes_spec before after composite with ⟨cs, hcs, _, hmem⟩ | ⟨name, r, _, hr, hkind⟩
    · simp only [judge, hcs] at he
      rcases admitCompose_spec policy comp principal cs with ⟨hok, _⟩ | ⟨c, _, _, hc, hnot⟩
      · rw [hok] at he
        cases he
      · exact Or.inl ⟨c, (hmem c).1 hc, hnot⟩
    · -- nothing was judged: a resource states no kind
      exact Or.inr ⟨name, r, hr, hkind⟩

/-- A response without a fatal result that passes makes permitted changes only, also where nothing
was judged. -/
theorem outputFence_sound {policy comp : Option (PolicyLayer Principal)} {principal : Principal}
    {observed before after : Option (State B)} {severities : List Int}
    (hfatal : severities.any (· == severityFatal) = false)
    (hok : outputFence policy comp principal observed before after severities = .ok ()) {c : Change}
    (hc : StateChange before after ((compositeBefore observed).bind kindOf) c) :
    Permitted policy comp principal c := by
  cases hfenced : composeFenced policy comp with
  | true =>
      have hjudge : judge policy comp principal before after
          ((compositeBefore observed).bind kindOf) = .ok () := by
        simpa [outputFence, hfenced, hfatal] using hok
      rcases changes_spec before after ((compositeBefore observed).bind kindOf) with
        ⟨cs, hcs, _, hmem⟩ | ⟨name, r, herr, _, _⟩
      · simp only [judge, hcs] at hjudge
        rcases admitCompose_spec policy comp principal cs with ⟨_, hall⟩ | ⟨_, _, herr, _, _⟩
        · exact hall c ((hmem c).2 hc)
        · rw [herr] at hjudge
          cases hjudge
      · simp only [judge, herr] at hjudge
        cases hjudge
  | false =>
      simp only [composeFenced, Bool.or_eq_false_iff] at hfenced
      rintro layer (rfl | rfl) hscopes
      · simp [hscopes] at hfenced
      · simp [hscopes] at hfenced

/-! ## A body of string fields -/

/-- The simplest bodies: a list of string fields. -/
structure Fields where
  fields : List (Text × Text)
  deriving DecidableEq

instance : StructBody Fields where
  beq b b' := decide (b = b')
  stringValue b key := b.fields.lookup key
  stringValue_congr h key := by
    have heq := of_decide_eq_true h
    rw [heq]

/-- An absent desired state and an empty one are not the same state, and there is no change between
them. -/
theorem absent_and_empty_unchanged :
    changes (none : Option (State Fields)) (some State.empty) none = .ok [] ∧
      AllKinded (some (State.empty : State Fields)) ∧
      (none : Option (State Fields)) ≠ some State.empty ∧
      sameOption State.same (none : Option (State Fields)) (some State.empty) = false := by
  refine ⟨rfl, ?_, by simp, rfl⟩
  intro name r hr
  simp [resourceOf, State.empty] at hr

def budget : Resource Fields where
  resource := some ⟨[("apiVersion".toList, "policy/v1".toList),
    ("kind".toList, "PodDisruptionBudget".toList)]⟩
  connectionDetails := ∅
  ready := 0

/-- A layer that lets nothing but the group `policy` be composed. -/
def budgetsOnly : PolicyLayer Unit where
  scopesComposeResource := true
  permitsCompose := fun _ c => decide (c.group = "policy".toList)

/-- A budget added under `pdb` passes the fence, so its addition is permitted. -/
theorem added_budget_permitted :
    Permitted (some budgetsOnly) none () (composed ("policy".toList, "PodDisruptionBudget".toList)
      .add "pdb".toList) := by
  have hok : judge (some budgetsOnly) none () (some (State.empty : State Fields))
      (some { composite := none, resources := AList.singleton "pdb".toList budget }) none =
        .ok () := rfl
  exact ((fence_complete_and_sound _ none () _ _ none).1 hok).2.2 _
    (.entry "pdb".toList (.added budget rfl))

end Compose
end FunctionWasm

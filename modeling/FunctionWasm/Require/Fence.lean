import FunctionWasm.Compose.Fence
import FunctionWasm.Require.Selectors

/-!
# Fence — every selector of a response is permitted by every layer that judges it

The read fence judges the selectors of a response one after another: the composition layer first,
then the operator's, each only where it scopes `requireResource`.  It comes before the output fence
and does not look at the results.

* `admitRequire` is the fence over a list, `readFence` over a response, `relay` both fences.
* `judged` are the selectors put to the layers, in order.
* `read_fence` says what is known of a response that is relayed, and what the fence depends on.
-/

namespace FunctionWasm
namespace Require

variable {B Principal : Type}

/-- A policy layer as the two fences see it: what it scopes, and what it decides. -/
structure PolicyLayer (Principal : Type) extends Compose.PolicyLayer Principal where
  scopesRequireResource : Bool
  permitsRequire : Principal → Requirement → Bool

/-! ## The fence -/

/-- Whether a run's selectors are judged at all. -/
def requireFenced (policy comp : Option (PolicyLayer Principal)) : Bool :=
  comp.any PolicyLayer.scopesRequireResource || policy.any PolicyLayer.scopesRequireResource

/-- The layer that refuses a selector, if one does. -/
def requireRefusedBy (r : Requirement) (policy comp : Option (PolicyLayer Principal))
    (principal : Principal) : Option Compose.Layer :=
  if comp.any (fun c => c.scopesRequireResource && !c.permitsRequire principal r) then
    some .composition
  else if policy.any (fun p => p.scopesRequireResource && !p.permitsRequire principal r) then
    some .operator
  else
    none

/-- Judges every selector in order. -/
def admitRequire (policy comp : Option (PolicyLayer Principal)) (principal : Principal) :
    List Requirement → Except RequireError Unit
  | [] => .ok ()
  | r :: rs =>
      match requireRefusedBy r policy comp principal with
      | some layer => .error (.refused r layer)
      | none => admitRequire policy comp principal rs

/-- The selectors of a response, judged where some layer scopes the action. -/
def readFence (policy comp : Option (PolicyLayer Principal)) (principal : Principal)
    (rsp : Response B) : Except RequireError Unit :=
  if requireFenced policy comp then
    match requirements rsp with
    | .error e => .error e
    | .ok rs => admitRequire policy comp principal rs
  else
    .ok ()

/-- Why a response is not relayed: what it asks for, or what it changes. -/
inductive Refusal where
  | read (e : RequireError)
  | write (e : Compose.ComposeError)
  deriving DecidableEq, Repr

/-- The two fences of a run: the read precedes the write. -/
def relay [Compose.StructBody B] (policy comp : Option (PolicyLayer Principal))
    (principal : Principal) (observed before : Option (Compose.State B)) (rsp : Response B) :
    Except Refusal Unit :=
  match readFence policy comp principal rsp with
  | .error e => .error (.read e)
  | .ok () =>
      match Compose.outputFence (policy.map PolicyLayer.toPolicyLayer)
          (comp.map PolicyLayer.toPolicyLayer) principal observed before rsp.desired rsp.results with
      | .error e => .error (.write e)
      | .ok () => .ok ()

/-! ## What a refusal says -/

def RequirementMatch.describe (debug : Text → Text) : RequirementMatch → Text
  | name n => " ".toList ++ debug n
  | labels ls =>
      " with labels ".toList ++
        (",".toList).intercalate (ls.map fun l => l.1 ++ "=".toList ++ l.2)
  | none => []

/-- One selector as a refusal names it; `debug` quotes a name. -/
def describeRequirement (debug : Text → Text) (r : Requirement) : Text :=
  r.kindId ++ r.matched.describe debug ++
    ((r.namespaceName.map fun ns => " in namespace ".toList ++ debug ns).getD []) ++
    " (requirements.".toList ++ r.field ++ "[".toList ++ debug r.key ++ "])".toList

def RequireError.message (debug : Text → Text) : RequireError → Text
  | noKind key =>
      "required resource ".toList ++ debug key ++
        (" states no apiVersion or kind, so the policy layers cannot judge it " ++
          "(requireResource)").toList
  | refused r layer =>
      "required ".toList ++ describeRequirement debug r ++ ", which ".toList ++ layer.describe ++
        " does not permit (requireResource)".toList

/-! ## What is judged -/

/-- The selectors of a list that are put to the layers: those up to the first refusal. -/
def judgedOf (policy comp : Option (PolicyLayer Principal)) (principal : Principal) :
    List Requirement → List Requirement
  | [] => []
  | r :: rs =>
      match requireRefusedBy r policy comp principal with
      | some _ => [r]
      | none => r :: judgedOf policy comp principal rs

/-- The selectors of a response that are put to the layers, in order. -/
def judged (policy comp : Option (PolicyLayer Principal)) (principal : Principal)
    (rsp : Response B) : List Requirement :=
  if requireFenced policy comp then
    match requirements rsp with
    | .error _ => []
    | .ok rs => judgedOf policy comp principal rs
  else
    []

/-- How often the selector of a map under a key is among some that are judged. -/
def timesJudged (field key : Text) (rs : List Requirement) : Nat :=
  rs.countP fun r => r.slot = (field, key)

/-- Every layer that scopes the action permits the selector. -/
def Permitted (policy comp : Option (PolicyLayer Principal)) (principal : Principal)
    (r : Requirement) : Prop :=
  ∀ layer, comp = some layer ∨ policy = some layer →
    layer.scopesRequireResource = true → layer.permitsRequire principal r = true

theorem requireFenced_iff {policy comp : Option (PolicyLayer Principal)} :
    requireFenced policy comp = true ↔
      ∃ layer, (comp = some layer ∨ policy = some layer) ∧
        layer.scopesRequireResource = true := by
  have hside : ∀ layer : Option (PolicyLayer Principal),
      layer.any PolicyLayer.scopesRequireResource = true ↔
        ∃ l, layer = some l ∧ l.scopesRequireResource = true := by
    intro layer
    cases layer <;> simp
  rw [requireFenced, Bool.or_eq_true, hside, hside]
  constructor
  · rintro (⟨layer, hlayer, hscopes⟩ | ⟨layer, hlayer, hscopes⟩)
    · exact ⟨layer, Or.inl hlayer, hscopes⟩
    · exact ⟨layer, Or.inr hlayer, hscopes⟩
  · rintro ⟨layer, hlayer | hlayer, hscopes⟩
    · exact Or.inl ⟨layer, hlayer, hscopes⟩
    · exact Or.inr ⟨layer, hlayer, hscopes⟩

theorem requireRefusedBy_eq_none_iff {policy comp : Option (PolicyLayer Principal)}
    {principal : Principal} {r : Requirement} :
    requireRefusedBy r policy comp principal = none ↔ Permitted policy comp principal r := by
  have hside : ∀ layer : Option (PolicyLayer Principal),
      layer.any (fun l => l.scopesRequireResource && !l.permitsRequire principal r) = false ↔
        ∀ l, layer = some l → l.scopesRequireResource = true →
          l.permitsRequire principal r = true := by
    intro layer
    cases layer with
    | none => simp
    | some l => cases hs : l.scopesRequireResource <;> simp [hs]
  have hnone : requireRefusedBy r policy comp principal = none ↔
      comp.any (fun l => l.scopesRequireResource && !l.permitsRequire principal r) = false ∧
        policy.any (fun l => l.scopesRequireResource && !l.permitsRequire principal r) = false := by
    unfold requireRefusedBy
    cases comp.any fun l => l.scopesRequireResource && !l.permitsRequire principal r <;>
      cases policy.any fun l => l.scopesRequireResource && !l.permitsRequire principal r <;> simp
  rw [hnone, hside, hside]
  constructor
  · rintro ⟨hcomp, hpolicy⟩ layer (hl | hl)
    · exact hcomp layer hl
    · exact hpolicy layer hl
  · intro h
    exact ⟨fun l hl => h l (Or.inl hl), fun l hl => h l (Or.inr hl)⟩

/-- A list passes when every selector of it is permitted, and then each has been judged; else the
last selector judged is the one refused. -/
theorem admitRequire_spec (policy comp : Option (PolicyLayer Principal)) (principal : Principal) :
    ∀ rs : List Requirement,
      (admitRequire policy comp principal rs = .ok () ∧ judgedOf policy comp principal rs = rs ∧
        ∀ r ∈ rs, Permitted policy comp principal r) ∨
      ∃ passed r layer rest, rs = passed ++ r :: rest ∧
        admitRequire policy comp principal rs = .error (.refused r layer) ∧
        judgedOf policy comp principal rs = passed ++ [r] ∧
        ¬ Permitted policy comp principal r := by
  intro rs
  induction rs with
  | nil => exact Or.inl ⟨rfl, rfl, by simp⟩
  | cons r rs ih =>
      cases hrefused : requireRefusedBy r policy comp principal with
      | some layer =>
          refine Or.inr ⟨[], r, layer, rs, rfl, by simp [admitRequire, hrefused],
            by simp [judgedOf, hrefused], ?_⟩
          intro hpermitted
          rw [requireRefusedBy_eq_none_iff.2 hpermitted] at hrefused
          cases hrefused
      | none =>
          rcases ih with ⟨hok, hjudged, hall⟩ | ⟨passed, r', layer, rest, rfl, herr, hjudged, hnot⟩
          · refine Or.inl ⟨by simp [admitRequire, hrefused, hok],
              by simp [judgedOf, hrefused, hjudged], ?_⟩
            intro r' hr'
            rcases List.mem_cons.1 hr' with rfl | hr'
            · exact requireRefusedBy_eq_none_iff.1 hrefused
            · exact hall r' hr'
          · exact Or.inr ⟨r :: passed, r', layer, rest, rfl, by simp [admitRequire, hrefused, herr],
              by simp [judgedOf, hrefused, hjudged], hnot⟩

/-- No selector is judged twice. -/
theorem judgedOf_isPrefix (policy comp : Option (PolicyLayer Principal)) (principal : Principal)
    (rs : List Requirement) : judgedOf policy comp principal rs <+: rs := by
  rcases admitRequire_spec policy comp principal rs with
    ⟨_, hjudged, _⟩ | ⟨passed, r, _, rest, hrs, _, hjudged, _⟩
  · exact ⟨[], (List.append_nil _).trans hjudged⟩
  · refine ⟨rest, ?_⟩
    calc judgedOf policy comp principal rs ++ rest
        = passed ++ [r] ++ rest := congrArg (· ++ rest) hjudged
      _ = rs := by simp [hrs]

theorem timesJudged_le_one {rs : List Requirement} (h : (rs.map Requirement.slot).Nodup)
    (field key : Text) : timesJudged field key rs ≤ 1 := by
  have hcount : timesJudged field key rs = (rs.map Requirement.slot).count (field, key) := by
    simp only [timesJudged, List.count, List.countP_map]
    exact List.countP_congr fun r _ => by simp
  rw [hcount]
  exact List.nodup_iff_count_le_one.1 h _

theorem timesJudged_pos {rs : List Requirement} {r : Requirement} (h : r ∈ rs) :
    0 < timesJudged r.field r.key rs :=
  List.countP_pos_iff.2 ⟨r, h, by simp [Requirement.slot]⟩

/-! ## What is known of a response that is relayed -/

theorem readFence_of_relay [Compose.StructBody B] {policy comp : Option (PolicyLayer Principal)}
    {principal : Principal} {observed before : Option (Compose.State B)} {rsp : Response B}
    (h : relay policy comp principal observed before rsp = .ok ()) :
    readFence policy comp principal rsp = .ok () := by
  unfold relay at h
  cases hread : readFence policy comp principal rsp with
  | error e =>
      rw [hread] at h
      cases h
  | ok _ => rfl

/-- A fenced response that passes has every selector judged once and permitted. -/
theorem readFence_ok {policy comp : Option (PolicyLayer Principal)} {principal : Principal}
    {rsp : Response B} (hfenced : requireFenced policy comp = true)
    (hok : readFence policy comp principal rsp = .ok ()) {field key : Text} {s : ResourceSelector}
    (hasks : Asks rsp field key s) :
    ∃ r ∈ judged policy comp principal rsp, requirement field key s = .ok r ∧
      timesJudged field key (judged policy comp principal rsp) = 1 ∧
      Permitted policy comp principal r := by
  rcases requirements_spec rsp with ⟨rs, hrs, hlists⟩ | ⟨_, _, _, herr, _⟩
  · simp only [readFence, hfenced, if_true, hrs] at hok
    rcases admitRequire_spec policy comp principal rs with
      ⟨_, hjudged, hall⟩ | ⟨_, _, _, _, _, herr, _⟩
    · have heq : judged policy comp principal rsp = rs := by simp [judged, hfenced, hrs, hjudged]
      rcases hlists.complete hasks with ⟨r, hr, hreq⟩
      have hslot : r.slot = (field, key) := (slot_of_requirement hreq).2
      have hpos : 0 < timesJudged field key rs := by
        cases hslot
        exact timesJudged_pos hr
      rw [heq]
      exact ⟨r, hr, hreq, Nat.le_antisymm (timesJudged_le_one hlists.nodup _ _) hpos, hall r hr⟩
    · rw [herr] at hok
      cases hok
  · simp [readFence, hfenced, herr] at hok

/-- A fenced response with a selector that no rule could judge is refused for such a selector. -/
theorem readFence_of_not_stated {policy comp : Option (PolicyLayer Principal)}
    (principal : Principal) {rsp : Response B} (hfenced : requireFenced policy comp = true)
    {field key : Text} {s : ResourceSelector} (hasks : Asks rsp field key s) (hs : ¬ s.Stated) :
    ∃ field' key' s', readFence policy comp principal rsp = .error (.noKind key') ∧
      Asks rsp field' key' s' ∧ ¬ s'.Stated := by
  rcases requirements_spec rsp with ⟨rs, _, hlists⟩ | ⟨field', key', s', herr, hasks', hs'⟩
  · rcases hlists.complete hasks with ⟨r, _, hreq⟩
    exact absurd (slot_of_requirement hreq).1 hs
  · exact ⟨field', key', s', by simp [readFence, hfenced, herr], hasks', hs'⟩

/-- No outcome has a selector judged twice. -/
theorem timesJudged_judged_le_one (policy comp : Option (PolicyLayer Principal))
    (principal : Principal) (rsp : Response B) (field key : Text) :
    timesJudged field key (judged policy comp principal rsp) ≤ 1 := by
  unfold judged
  split
  · rcases requirements_spec rsp with ⟨rs, hrs, hlists⟩ | ⟨_, _, _, herr, _⟩
    · rw [hrs]
      calc timesJudged field key (judgedOf policy comp principal rs)
          ≤ timesJudged field key rs :=
            (judgedOf_isPrefix policy comp principal rs).sublist.countP_le
        _ ≤ 1 := timesJudged_le_one hlists.nodup field key
    · simp [herr, timesJudged]
  · simp [timesJudged]

/-- Where some layer scopes the action, a response is relayed only if each of its selectors has been
judged, once, and permitted by every layer that scopes it, and a response with a selector that
states no apiVersion or kind is refused.  The verdict and the selector it names depend neither on
the order of the maps nor on the results. -/
theorem read_fence [Compose.StructBody B] (policy comp : Option (PolicyLayer Principal))
    (principal : Principal) (observed before : Option (Compose.State B)) (rsp : Response B)
    (hscopes : ∃ layer, (comp = some layer ∨ policy = some layer) ∧
      layer.scopesRequireResource = true) :
    (relay policy comp principal observed before rsp = .ok () →
      ∀ field key s, Asks rsp field key s →
        ∃ r ∈ judged policy comp principal rsp, requirement field key s = .ok r ∧
          timesJudged field key (judged policy comp principal rsp) = 1 ∧
          Permitted policy comp principal r) ∧
    ((∃ field key s, Asks rsp field key s ∧ ¬ s.Stated) →
      ∃ field key s, relay policy comp principal observed before rsp =
          .error (.read (.noKind key)) ∧ Asks rsp field key s ∧ ¬ s.Stated) ∧
    (∀ field key, timesJudged field key (judged policy comp principal rsp) ≤ 1) ∧
    (∀ rsp' : Response B,
      Option.Rel Requirements.Reordered rsp.requirements rsp'.requirements →
        readFence policy comp principal rsp' = readFence policy comp principal rsp ∧
          judged policy comp principal rsp' = judged policy comp principal rsp) ∧
    ∀ results, readFence policy comp principal { rsp with results := results } =
        readFence policy comp principal rsp ∧
      judged policy comp principal { rsp with results := results } =
        judged policy comp principal rsp := by
  have hfenced : requireFenced policy comp = true := requireFenced_iff.2 hscopes
  refine ⟨?_, ?_, ?_, ?_, ?_⟩
  · intro hrelay field key s hasks
    exact readFence_ok hfenced (readFence_of_relay hrelay) hasks
  · rintro ⟨field, key, s, hasks, hs⟩
    rcases readFence_of_not_stated principal hfenced hasks hs with
      ⟨field', key', s', herr, hasks', hs'⟩
    exact ⟨field', key', s', by simp [relay, herr], hasks', hs'⟩
  · exact timesJudged_judged_le_one policy comp principal rsp
  · intro rsp' hreordered
    have hsame : requirements rsp' = requirements rsp := (requirements_reordered hreordered).symm
    simp only [readFence, judged, hsame, and_self]
  · intro results
    -- the selectors are all that is read of a response
    have hsame : requirements { rsp with results := results } = requirements rsp := rfl
    simp only [readFence, judged, hsame, and_self]

/-- A selector of one secret, under one key of either map. -/
def secretSelector : ResourceSelector where
  apiVersion := "v1".toList
  kind := "Secret".toList
  matched := some (.matchName "db-password".toList)
  namespaceName := some []

def secretTwice : Response Compose.Fields where
  requirements := some {
    extraResources := AList.singleton "db".toList secretSelector
    resources := AList.singleton "db".toList secretSelector }
  results := [Compose.severityFatal]
  desired := none

/-- A layer that lets nothing but the core group be read. -/
def coreOnly : PolicyLayer Unit where
  scopesComposeResource := false
  permitsCompose := fun _ _ => false
  scopesRequireResource := true
  permitsRequire := fun _ r => decide (r.group = Compose.coreGroup)

/-- One key in both maps: the selector of either map is judged and permitted. -/
theorem read_fence_sample :
    timesJudged fieldResources "db".toList (judged (some coreOnly) none () secretTwice) = 1 ∧
      timesJudged fieldExtraResources "db".toList
        (judged (some coreOnly) none () secretTwice) = 1 := by
  have hrelay : relay (some coreOnly) none () none none secretTwice = .ok () := by decide +kernel
  have hread := (read_fence (some coreOnly) none () none none secretTwice
    ⟨coreOnly, Or.inr rfl, rfl⟩).1 hrelay
  constructor
  · rcases hread _ "db".toList secretSelector (.resources rfl rfl) with ⟨_, _, _, htimes, _⟩
    exact htimes
  · rcases hread _ "db".toList secretSelector (.extraResources rfl rfl) with ⟨_, _, _, htimes, _⟩
    exact htimes

end Require
end FunctionWasm

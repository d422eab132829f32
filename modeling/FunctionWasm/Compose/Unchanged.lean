import FunctionWasm.Compose.Changes

/-!
# Unchanged — when there is nothing to judge

A response that hands the desired state back changed nothing, in whatever order its maps come.

* `changes_eq_nil_iff` says when the list of changes is empty.
* `changes_reordered` says that the list does not depend on the order of the maps.
-/

namespace FunctionWasm
namespace Compose

variable {B : Type} [StructBody B]

/-! ## No change -/

theorem compositeChanges_eq_nil {before after : Option (Resource B)}
    {composite : Option (Text × Text)} :
    compositeChanges before after composite = [] ↔ sameOption Resource.same before after = true := by
  cases before with
  | none => cases after <;> simp [compositeChanges, diff, sameOption]
  | some b =>
      cases after with
      | none => simp [compositeChanges, diff, sameOption]
      | some a => cases hsame : b.same a <;> simp [compositeChanges, diff, sameOption, hsame]

/-- An entry has no changes exactly when its two sides compare equal. -/
theorem no_entryChange_iff {name : Text} {b a : Option (Resource B)}
    (hkinded : ∀ r, a = some r → (kindOf r).isSome = true) :
    (∀ c, ¬ EntryChange name b a c) ↔ sameOption Resource.same b a = true := by
  cases a with
  | none =>
      cases b with
      | none => exact ⟨fun _ => rfl, fun _ _ => not_entryChange_none⟩
      | some b =>
          constructor
          · intro h
            exact absurd (.removed b) (h _)
          · intro h
            cases h
  | some a =>
      rcases Option.isSome_iff_exists.1 (hkinded a rfl) with ⟨kind, hkind⟩
      cases b with
      | none =>
          constructor
          · intro h
            exact absurd (.added a hkind) (h _)
          · intro h
            cases h
      | some b =>
          constructor
          · intro h
            -- a difference of kinds would be a change
            have hsame : kindOrEmpty b = kind := by
              by_contra hne
              exact h _ (.replacedNew b a hkind hne)
            cases hdiff : b.same a with
            | true => simp [sameOption, hdiff]
            | false => exact absurd (.modified b a hkind hsame hdiff) (h _)
          · intro h
            have hsame : b.same a = true := by simpa [sameOption] using h
            have hkinds : kindOrEmpty b = kind := by
              simp [kindOrEmpty, kindOf_of_same hsame, hkind]
            have hone : ∀ {kind'}, kindOf a = some kind' → kindOrEmpty b = kind' := by
              intro kind' h'
              rw [hkind] at h'
              cases h'
              exact hkinds
            intro c hc
            cases hc with
            | replacedOld b a h' hne => exact hne (hone h')
            | replacedNew b a h' hne => exact hne (hone h')
            | modified b a _ _ hdiff =>
                rw [hsame] at hdiff
                cases hdiff

/-- The list is empty exactly when the two states compare equal, an absent state being an empty
one. -/
theorem changes_eq_nil_iff {before after : Option (State B)} {composite : Option (Text × Text)}
    (hkinded : AllKinded after) :
    changes before after composite = .ok [] ↔
      (before.getD State.empty).same (after.getD State.empty) = true := by
  -- an empty list is one without any change, and every resource states a kind
  have hnone : changes before after composite = .ok [] ↔
      ∀ c, ¬ StateChange before after composite c := by
    rcases changes_spec before after composite with ⟨cs, hcs, _, hmem⟩ | ⟨name, r, _, hr, hkind⟩
    · rw [hcs]
      constructor
      · intro h c hc
        cases h
        exact absurd ((hmem c).2 hc) (List.not_mem_nil)
      · intro h
        have hnil : cs = [] := List.eq_nil_iff_forall_not_mem.2 fun c hc => h c ((hmem c).1 hc)
        rw [hnil]
    · have hsome := hkinded name r hr
      rw [hkind] at hsome
      cases hsome
  rw [hnone, State.same, Bool.and_eq_true, compositeBefore_getD, compositeBefore_getD,
    sameEntries_iff]
  constructor
  · intro h
    constructor
    · rw [← compositeChanges_eq_nil, List.eq_nil_iff_forall_not_mem]
      intro c hc
      exact h c (.composite hc)
    · intro name
      rw [resourceOf_getD, resourceOf_getD]
      have hno : ∀ c, ¬ EntryChange name (resourceOf before name) (resourceOf after name) c :=
        fun c hc => h c (.entry name hc)
      exact (no_entryChange_iff (hkinded name)).1 hno
  · rintro ⟨hcomposite, hentries⟩ c hc
    cases hc with
    | composite hc =>
        rw [compositeChanges_eq_nil.2 hcomposite] at hc
        cases hc
    | entry name hc =>
        have hsame := hentries name
        rw [resourceOf_getD, resourceOf_getD] at hsame
        exact (no_entryChange_iff (hkinded name)).2 hsame c hc

/-! ## The order of the maps -/

/-- Two resources that differ in the order of their connection details at most. -/
def Resource.Reordered (r r' : Resource B) : Prop :=
  r.resource = r'.resource ∧ r.connectionDetails.entries.Perm r'.connectionDetails.entries ∧
    r.ready = r'.ready

/-- Two states that differ in the order of their maps at most. -/
def Reordered (s s' : Option (State B)) : Prop :=
  Option.Rel Resource.Reordered (compositeBefore s) (compositeBefore s') ∧
    ∀ name, Option.Rel Resource.Reordered (resourceOf s name) (resourceOf s' name)

theorem kindOf_reordered {r r' : Resource B} (h : r.Reordered r') : kindOf r = kindOf r' := by
  unfold kindOf
  rw [h.1]

theorem same_reordered {r₁ r₁' r₂ r₂' : Resource B} (h₁ : r₁.Reordered r₁')
    (h₂ : r₂.Reordered r₂') : r₁.same r₂ = r₁'.same r₂' := by
  rcases h₁ with ⟨hbody₁, hperm₁, hready₁⟩
  rcases h₂ with ⟨hbody₂, hperm₂, hready₂⟩
  have hdetails : sameEntries (· == ·) r₁.connectionDetails r₂.connectionDetails =
      sameEntries (· == ·) r₁'.connectionDetails r₂'.connectionDetails := by
    rw [Bool.eq_iff_iff, sameEntries_iff, sameEntries_iff]
    simp only [AList.perm_lookup hperm₁, AList.perm_lookup hperm₂]
  simp only [Resource.same, hbody₁, hbody₂, hready₁, hready₂, hdetails]

theorem diff_reordered {b b' a a' : Option (Resource B)}
    (hb : Option.Rel Resource.Reordered b b') (ha : Option.Rel Resource.Reordered a a') :
    diff b a = diff b' a' := by
  cases hb with
  | none => cases ha <;> rfl
  | some hb =>
      cases ha with
      | none => rfl
      | some ha => simp only [diff, same_reordered hb ha]

theorem bind_kindOf_reordered {r r' : Option (Resource B)}
    (h : Option.Rel Resource.Reordered r r') : r.bind kindOf = r'.bind kindOf := by
  cases h with
  | none => rfl
  | some h => exact kindOf_reordered h

theorem entryChanges_reordered {name : Text} {b b' a a' : Option (Resource B)}
    (hb : Option.Rel Resource.Reordered b b') (ha : Option.Rel Resource.Reordered a a') :
    entryChanges name b a = entryChanges name b' a' := by
  have hdiff : diff b a = diff b' a' := diff_reordered hb ha
  have hold : b.map kindOrEmpty = b'.map kindOrEmpty := by
    cases hb with
    | none => rfl
    | some hb => simp [kindOrEmpty, kindOf_reordered hb]
  unfold entryChanges
  rw [hdiff, hold]
  cases ha with
  | none => rfl
  | some ha => simp only [kindOf_reordered ha]

theorem changesLoop_reordered {before before' after after' : Option (State B)}
    (hb : Reordered before before') (ha : Reordered after after') :
    ∀ (names : List Text) (out : List Change),
      changesLoop before after names out = changesLoop before' after' names out := by
  intro names
  induction names with
  | nil =>
      intro out
      rfl
  | cons name names ih =>
      intro out
      simp only [changesLoop, entryChanges_reordered (hb.2 name) (ha.2 name), ih]

/-- The list does not depend on the order of the maps. -/
theorem changes_reordered {before before' after after' : Option (State B)}
    (composite : Option (Text × Text)) (hb : Reordered before before')
    (ha : Reordered after after') :
    changes before after composite = changes before' after' composite := by
  have hsome : ∀ {r r' : Option (Resource B)}, Option.Rel Resource.Reordered r r' →
      (r.isSome = true ↔ r'.isSome = true) := by
    intro r r' h
    cases h <;> simp
  have hnames : resourceNames before after = resourceNames before' after' := by
    refine sortedKeys_congr ?_
    intro name
    have h : name ∈ resourceNames before after ↔ name ∈ resourceNames before' after' := by
      rw [mem_resourceNames, mem_resourceNames, hsome (hb.2 name), hsome (ha.2 name)]
    simpa only [resourceNames, mem_sortedKeys] using h
  have hcomposite : compositeChanges (compositeBefore before) (compositeBefore after) composite =
      compositeChanges (compositeBefore before') (compositeBefore after') composite := by
    unfold compositeChanges compositeKind
    rw [diff_reordered hb.1 ha.1, bind_kindOf_reordered hb.1, bind_kindOf_reordered ha.1]
  unfold changes
  rw [hnames, hcomposite, changesLoop_reordered hb ha]

end Compose
end FunctionWasm

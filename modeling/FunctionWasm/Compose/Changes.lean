import Mathlib.Data.Char
import Mathlib.Data.List.Lex
import FunctionWasm.Foundation.EntryMap
import FunctionWasm.Foundation.Text

/-!
# Changes — what a module's response does to the desired state

The changes of one desired state to another, by composition resource name over the composed
resources, with the composite resource as one more entry before them.

* `changes` is the list of changes, `kindOf` and `groupOf` read a resource's kind.
* `StateChange` says when an entry differs and by which changes, without an order or a loop.
* `mem_changes` says that the list holds exactly those, `changes_isOk` when there is a list.

The body of a resource is a value of a library: `StructBody` is what is used of it.
-/

namespace FunctionWasm
namespace Compose

/-- A resource body: its comparison, and the value of a top-level field where that is a string.
Bodies that compare equal have the same string fields. -/
class StructBody (B : Type) extends BEq B where
  stringValue : B → Text → Option Text
  stringValue_congr : ∀ {b b' : B}, (b == b') = true →
    ∀ key, stringValue b key = stringValue b' key

variable {B : Type}

structure Resource (B : Type) where
  resource : Option B
  connectionDetails : EntryMap Text (List UInt8)
  ready : Int

structure State (B : Type) where
  composite : Option (Resource B)
  resources : EntryMap Text (Resource B)

/-- How a module changed one entry of the desired state. -/
inductive ChangeKind where
  | add
  | modify
  | remove
  deriving DecidableEq, Repr

def ChangeKind.asStr : ChangeKind → Text
  | add => "add".toList
  | modify => "modify".toList
  | remove => "remove".toList

structure Change where
  group : Text
  kind : Text
  change : ChangeKind
  name : Text
  composite : Bool
  deriving DecidableEq, Repr

def Change.kindId (c : Change) : Text :=
  c.group ++ "/".toList ++ c.kind

/-! ## Looking into a state -/

def compositeBefore (s : Option (State B)) : Option (Resource B) :=
  s.bind State.composite

def resourceOf (s : Option (State B)) (name : Text) : Option (Resource B) :=
  s.bind fun s => s.resources.lookup name

/-- An absent state has no composite and no resources. -/
def State.empty : State B where
  composite := none
  resources := ∅

theorem resourceOf_getD (s : Option (State B)) (name : Text) :
    (s.getD State.empty).resources.lookup name = resourceOf s name := by
  cases s <;> simp [State.empty, resourceOf]

theorem compositeBefore_getD (s : Option (State B)) :
    (s.getD State.empty).composite = compositeBefore s := by
  cases s <;> simp [State.empty, compositeBefore]

/-- The names either state has a resource under. -/
def resourceNames (before after : Option (State B)) : List Text :=
  sortedKeys ((before.map fun s => s.resources.keys).getD [] ++
    (after.map fun s => s.resources.keys).getD [])

theorem mem_resourceNames {before after : Option (State B)} {name : Text} :
    name ∈ resourceNames before after ↔
      (resourceOf before name).isSome = true ∨ (resourceOf after name).isSome = true := by
  have hside : ∀ s : Option (State B),
      name ∈ (s.map fun s => s.resources.keys).getD [] ↔ (resourceOf s name).isSome = true := by
    intro s
    cases s with
    | none => simp [resourceOf]
    | some s => simp [resourceOf, AList.lookup_isSome, AList.mem_keys]
  rw [resourceNames, mem_sortedKeys, List.mem_append, hside, hside]

variable [StructBody B]

/-! ## Comparing resources and states -/

def Resource.same (r r' : Resource B) : Bool :=
  sameOption (· == ·) r.resource r'.resource &&
    (sameEntries (· == ·) r.connectionDetails r'.connectionDetails && decide (r.ready = r'.ready))

def State.same (s s' : State B) : Bool :=
  sameOption Resource.same s.composite s'.composite &&
    sameEntries Resource.same s.resources s'.resources

/-! ## Kinds -/

def coreGroup : Text :=
  "core".toList

/-- The group an apiVersion names. -/
def groupOf (apiVersion : Text) : Text :=
  match rsplitOnce '/' apiVersion with
  | some (group, _) => if group = [] then coreGroup else group
  | none => coreGroup

/-- A string field of the body that is not empty. -/
def stringField (body : B) (key : Text) : Option Text :=
  match StructBody.stringValue body key with
  | some s => if s = [] then none else some s
  | none => none

/-- The resource body's group and kind. -/
def kindOf (r : Resource B) : Option (Text × Text) :=
  match r.resource with
  | none => none
  | some body =>
      match stringField body "apiVersion".toList with
      | none => none
      | some apiVersion =>
          match stringField body "kind".toList with
          | none => none
          | some kind => some (groupOf apiVersion, kind)

/-- The kind, or an empty one. -/
def kindOrEmpty (r : Resource B) : Text × Text :=
  (kindOf r).getD ([], [])

theorem kindOf_of_same {r r' : Resource B} (h : r.same r' = true) : kindOf r = kindOf r' := by
  simp only [Resource.same, Bool.and_eq_true] at h
  rcases h with ⟨hbody, _⟩
  unfold kindOf
  cases hb : r.resource with
  | none =>
      cases hb' : r'.resource with
      | none => rfl
      | some body' => simp [hb, hb', sameOption] at hbody
  | some body =>
      cases hb' : r'.resource with
      | none => simp [hb, hb', sameOption] at hbody
      | some body' =>
          have heq : (body == body') = true := by simpa [hb, hb', sameOption] using hbody
          simp only [stringField, StructBody.stringValue_congr heq]

/-! ## The list of changes -/

/-- What happened between two sides of one entry; `none` when nothing did. -/
def diff (before after : Option (Resource B)) : Option ChangeKind :=
  match before, after with
  | none, none => none
  | none, some _ => some .add
  | some _, none => some .remove
  | some b, some a => if b.same a then none else some .modify

def composed (kind : Text × Text) (change : ChangeKind) (name : Text) : Change where
  group := kind.1
  kind := kind.2
  change := change
  name := name
  composite := false

/-- The layer that refused a change. -/
inductive Layer where
  | composition
  | operator
  deriving DecidableEq, Repr

/-- Why a response is refused: a resource no rule could judge, or a change a layer refuses. -/
inductive ComposeError where
  | noKind (name : Text)
  | refused (c : Change) (layer : Layer)
  deriving DecidableEq, Repr

/-- The kind the composite is judged under: the observed one, else the one its body states. -/
def compositeKind (before after : Option (Resource B)) (composite : Option (Text × Text)) :
    Text × Text :=
  ((composite.or (after.bind kindOf)).or (before.bind kindOf)).getD ([], [])

def compositeChanges (before after : Option (Resource B)) (composite : Option (Text × Text)) :
    List Change :=
  match diff before after with
  | none => []
  | some change =>
      let kind := compositeKind before after composite
      [{ group := kind.1
         kind := kind.2
         change := change
         name := []
         composite := true }]

/-- The changes of one composition resource name. -/
def entryChanges (name : Text) (b a : Option (Resource B)) : Except ComposeError (List Change) :=
  let kindB := b.map kindOrEmpty
  let kindA : Except ComposeError (Option (Text × Text)) :=
    match a with
    | some r =>
        match kindOf r with
        | some kind => .ok (some kind)
        | none => .error (.noKind name)
    | none => .ok none
  match kindA with
  | .error e => .error e
  | .ok kindA =>
      match kindB, kindA with
      | some old, some new =>
          if old ≠ new then .ok [composed old .remove name, composed new .add name]
          else .ok ((diff b a).toList.map fun change => composed new change name)
      | some old, none => .ok ((diff b a).toList.map fun change => composed old change name)
      | none, some new => .ok ((diff b a).toList.map fun change => composed new change name)
      | none, none => .ok []

def changesLoop (before after : Option (State B)) :
    List Text → List Change → Except ComposeError (List Change)
  | [], out => .ok out
  | name :: names, out =>
      match entryChanges name (resourceOf before name) (resourceOf after name) with
      | .error e => .error e
      | .ok cs => changesLoop before after names (out ++ cs)

/-- The changes `after` makes to `before`; `composite` names the composite's kind. -/
def changes (before after : Option (State B)) (composite : Option (Text × Text)) :
    Except ComposeError (List Change) :=
  changesLoop before after (resourceNames before after)
    (compositeChanges (compositeBefore before) (compositeBefore after) composite)

/-! ## What changed -/

/-- The changes of one entry of the composed resources. -/
inductive EntryChange (name : Text) : Option (Resource B) → Option (Resource B) → Change → Prop
  where
  | added (a : Resource B) {kind : Text × Text} (h : kindOf a = some kind) :
      EntryChange name none (some a) (composed kind .add name)
  | removed (b : Resource B) : EntryChange name (some b) none (composed (kindOrEmpty b) .remove name)
  | replacedOld (b a : Resource B) {kind : Text × Text} (h : kindOf a = some kind)
      (hne : kindOrEmpty b ≠ kind) :
      EntryChange name (some b) (some a) (composed (kindOrEmpty b) .remove name)
  | replacedNew (b a : Resource B) {kind : Text × Text} (h : kindOf a = some kind)
      (hne : kindOrEmpty b ≠ kind) :
      EntryChange name (some b) (some a) (composed kind .add name)
  | modified (b a : Resource B) {kind : Text × Text} (h : kindOf a = some kind)
      (hsame : kindOrEmpty b = kind) (hdiff : b.same a = false) :
      EntryChange name (some b) (some a) (composed kind .modify name)

/-- The changes of one state to another. -/
inductive StateChange (before after : Option (State B)) (composite : Option (Text × Text)) :
    Change → Prop where
  | composite {c : Change}
      (h : c ∈ compositeChanges (compositeBefore before) (compositeBefore after) composite) :
      StateChange before after composite c
  | entry (name : Text) {c : Change}
      (h : EntryChange name (resourceOf before name) (resourceOf after name) c) :
      StateChange before after composite c

/-- Every response resource states an apiVersion and a kind. -/
def AllKinded (after : Option (State B)) : Prop :=
  ∀ name r, resourceOf after name = some r → (kindOf r).isSome = true

/-- One entry: the list holds exactly the entry's changes, and there is one unless the response's
resource states no kind. -/
theorem entryChanges_spec (name : Text) (b a : Option (Resource B)) :
    (∃ cs, entryChanges name b a = .ok cs ∧ (∀ r, a = some r → (kindOf r).isSome = true) ∧
      ∀ c, c ∈ cs ↔ EntryChange name b a c) ∨
      (entryChanges name b a = .error (.noKind name) ∧ ∃ r, a = some r ∧ kindOf r = none) := by
  cases a with
  | none =>
      cases b with
      | none =>
          refine Or.inl ⟨[], rfl, by simp, ?_⟩
          intro c
          constructor
          · intro h
            cases h
          · intro h
            cases h
      | some b =>
          -- gone from the response: judged under the kind that it had
          refine Or.inl ⟨[composed (kindOrEmpty b) .remove name], rfl, by simp, ?_⟩
          intro c
          constructor
          · intro h
            rw [List.mem_singleton.1 h]
            exact .removed b
          · intro h
            cases h
            exact List.mem_singleton.2 rfl
  | some a =>
      cases hkind : kindOf a with
      | none =>
          -- a resource of the response that states no kind is refused
          refine Or.inr ⟨?_, a, rfl, hkind⟩
          simp [entryChanges, hkind]
      | some kind =>
          have hkinded : ∀ r, some a = some r → (kindOf r).isSome = true := by
            intro r hr
            cases hr
            simp [hkind]
          have hone : ∀ {kind'}, kindOf a = some kind' → kind' = kind := by
            intro kind' h
            rw [hkind] at h
            exact (Option.some.inj h).symm
          cases b with
          | none =>
              refine Or.inl ⟨[composed kind .add name], by simp [entryChanges, hkind, diff],
                hkinded, ?_⟩
              intro c
              constructor
              · intro h
                rw [List.mem_singleton.1 h]
                exact .added a hkind
              · intro h
                cases h with
                | added a h => exact List.mem_singleton.2 (by rw [hone h])
          | some b =>
              -- a resource of another kind is a removal and an addition
              by_cases hne : kindOrEmpty b ≠ kind
              · refine Or.inl ⟨[composed (kindOrEmpty b) .remove name, composed kind .add name],
                  by simp [entryChanges, hkind, hne], hkinded, ?_⟩
                intro c
                constructor
                · intro h
                  rcases List.mem_cons.1 h with rfl | h
                  · exact .replacedOld b a hkind hne
                  · rw [List.mem_singleton.1 h]
                    exact .replacedNew b a hkind hne
                · intro h
                  cases h with
                  | replacedOld b a h hne => simp
                  | replacedNew b a h hne => simp [hone h]
                  | modified b a h hsame hdiff => exact absurd (hsame.trans (hone h)) hne
              · have hsame : kindOrEmpty b = kind := not_not.1 hne
                -- of the same kind it is a change only where a field differs
                cases hdiff : b.same a with
                | true =>
                    refine Or.inl ⟨[], by simp [entryChanges, hkind, hsame, diff, hdiff], hkinded,
                      ?_⟩
                    intro c
                    constructor
                    · intro h
                      cases h
                    · intro h
                      cases h with
                      | replacedOld b a h hne' => exact absurd (hsame.trans (hone h).symm) hne'
                      | replacedNew b a h hne' => exact absurd (hsame.trans (hone h).symm) hne'
                      | modified b a h _ hdiff' =>
                          rw [hdiff] at hdiff'
                          cases hdiff'
                | false =>
                    refine Or.inl ⟨[composed kind .modify name],
                      by simp [entryChanges, hkind, hsame, diff, hdiff], hkinded, ?_⟩
                    intro c
                    constructor
                    · intro h
                      rw [List.mem_singleton.1 h]
                      exact .modified b a hkind hsame hdiff
                    · intro h
                      cases h with
                      | replacedOld b a h hne' => exact absurd (hsame.trans (hone h).symm) hne'
                      | replacedNew b a h hne' => exact absurd (hsame.trans (hone h).symm) hne'
                      | modified b a h _ _ => exact List.mem_singleton.2 (by rw [hone h])

/-- The loop over some names: it adds exactly their changes, or stops at a resource without a
kind. -/
theorem changesLoop_spec (before after : Option (State B)) :
    ∀ (names : List Text) (out : List Change),
      (∃ cs, changesLoop before after names out = .ok cs ∧
        (∀ name ∈ names, ∀ r, resourceOf after name = some r → (kindOf r).isSome = true) ∧
        ∀ c, c ∈ cs ↔ c ∈ out ∨ ∃ name ∈ names,
          EntryChange name (resourceOf before name) (resourceOf after name) c) ∨
      ∃ name r, changesLoop before after names out = .error (.noKind name) ∧
        resourceOf after name = some r ∧ kindOf r = none := by
  intro names
  induction names with
  | nil =>
      intro out
      exact Or.inl ⟨out, rfl, by simp, by simp⟩
  | cons name names ih =>
      intro out
      rcases entryChanges_spec name (resourceOf before name) (resourceOf after name) with
        ⟨cs, hcs, hkinded, hmem⟩ | ⟨herr, r, hr, hkind⟩
      · rcases ih (out ++ cs) with ⟨all, hall, hkindeds, hmems⟩ | ⟨n, r, herr, hr, hkind⟩
        · refine Or.inl ⟨all, by simp [changesLoop, hcs, hall], ?_, ?_⟩
          · intro n hn
            rcases List.mem_cons.1 hn with rfl | hn
            · exact hkinded
            · exact hkindeds n hn
          · intro c
            rw [hmems, List.mem_append, hmem, List.exists_mem_cons_iff, or_assoc]
        · exact Or.inr ⟨n, r, by simp [changesLoop, hcs, herr], hr, hkind⟩
      · exact Or.inr ⟨name, r, by simp [changesLoop, herr], hr, hkind⟩

theorem not_entryChange_none {name : Text} {c : Change} :
    ¬ EntryChange (B := B) name none none c := by
  intro h
  cases h

/-- There is a list of changes unless some response resource states no kind; it holds exactly the
changes of one state to the other. -/
theorem changes_spec (before after : Option (State B)) (composite : Option (Text × Text)) :
    (∃ cs, changes before after composite = .ok cs ∧ AllKinded after ∧
      ∀ c, c ∈ cs ↔ StateChange before after composite c) ∨
      ∃ name r, changes before after composite = .error (.noKind name) ∧
        resourceOf after name = some r ∧ kindOf r = none := by
  rcases changesLoop_spec before after (resourceNames before after)
      (compositeChanges (compositeBefore before) (compositeBefore after) composite) with
    ⟨cs, hcs, hkinded, hmem⟩ | herr
  · refine Or.inl ⟨cs, hcs, ?_, ?_⟩
    · intro name r hr
      exact hkinded name (mem_resourceNames.2 (Or.inr (by simp [hr]))) r hr
    · intro c
      rw [hmem]
      constructor
      · rintro (hcomposite | ⟨name, _, hentry⟩)
        · exact .composite hcomposite
        · exact .entry name hentry
      · intro h
        cases h with
        | composite h => exact Or.inl h
        | entry name h =>
            refine Or.inr ⟨name, mem_resourceNames.2 ?_, h⟩
            cases hb : resourceOf before name with
            | some b => exact Or.inl rfl
            | none =>
                cases ha : resourceOf after name with
                | some a => exact Or.inr rfl
                | none =>
                    rw [hb, ha] at h
                    exact absurd h not_entryChange_none
  · exact Or.inr herr

end Compose
end FunctionWasm

import Mathlib.Data.List.AList
import FunctionWasm.Foundation.Record
import FunctionWasm.Foundation.Text

/-!
# Message — decoding an encoded message field by field

A decoder folds over the items of a message: an occurrence of a message field merges into the value
decoded so far, an entry of a map field inserts what it decodes to, the last key and the merged
values of the entry's own items.

* `Codec` is the decoder of one message type, `Codec.field` one occurrence of a message field.
* `Codec.entry` decodes a map entry, `entryKey` is the key such an entry states.
* `foldlM_project` reads one component of a decoded message off the items it depends on.
-/

namespace FunctionWasm
namespace Protobuf

/-! ## Folds that may fail -/

section Folds

variable {α σ τ : Type}

/-- A fold that succeeds takes a step at each of its items. -/
theorem foldlM_step_at {f : σ → α → Option σ} :
    ∀ {as : List α} {s s' : σ}, as.foldlM f s = some s' →
      ∀ a ∈ as, ∃ s1 s2, f s1 a = some s2 := by
  intro as
  induction as with
  | nil =>
      intro s s' _ a ha
      cases ha
  | cons a as ih =>
      intro s s' h a' ha'
      rw [List.foldlM_cons] at h
      rcases Option.bind_eq_some_iff.1 h with ⟨s1, hs1, htail⟩
      rcases List.mem_cons.1 ha' with rfl | hmem
      · exact ⟨s, s1, hs1⟩
      · exact ih htail a' hmem

end Folds

/-! ## Fields -/

/-- The decoder of a message type: the empty message, and what an encoding merges into one. -/
structure Codec (V : Type) where
  empty : V
  merge : V → Bytes → Option V

namespace Codec

variable {V : Type}

/-- Decodes a whole buffer. -/
def decode (c : Codec V) (bs : Bytes) : Option V :=
  c.merge c.empty bs

/-- An occurrence of a message field merges into the value read so far. -/
def field (c : Codec V) (current : Option V) (r : Record) : Option (Option V) :=
  if r.key.wire = .len then (c.merge (current.getD c.empty) r.payload).map some else none

/-- An occurrence of a repeated message field is one more element. -/
def element (c : Codec V) (current : List V) (r : Record) : Option (List V) :=
  if r.key.wire = .len then (c.decode r.payload).map fun v => current ++ [v] else none

/-- An item of a map entry: the key is field 1, the value field 2. -/
def entryField (c : Codec V) (e : Text × V) (r : Record) : Option (Text × V) :=
  if r.key.field = 1 then
    if r.key.wire = .len then (utf8? r.payload).map fun k => (k, e.2) else none
  else if r.key.field = 2 then
    if r.key.wire = .len then (c.merge e.2 r.payload).map fun v => (e.1, v) else none
  else
    some e

/-- A map entry, from the empty key and the empty value. -/
def entry (c : Codec V) (depth : Nat) (r : Record) : Option (Text × V) :=
  if r.key.wire = .len then
    match records depth r.payload with
    | some rs => rs.foldlM c.entryField ([], c.empty)
    | none => none
  else
    none

/-- An occurrence of a map field inserts its entry; the last of a key stays. -/
def mapField (c : Codec V) (depth : Nat) (current : AList (fun _ : Text => V)) (r : Record) :
    Option (AList (fun _ : Text => V)) :=
  (c.entry depth r).map fun e => current.insert e.1 e.2

theorem field_some {c : Codec V} {current next : Option V} {r : Record} :
    c.field current r = some next → r.key.wire = .len := by
  intro h
  by_cases hwire : r.key.wire = .len
  · exact hwire
  · simp [field, hwire] at h

theorem entry_some {c : Codec V} {depth : Nat} {r : Record} {e : Text × V} :
    c.entry depth r = some e →
      r.key.wire = .len ∧
        ∃ rs, records depth r.payload = some rs ∧ rs.foldlM c.entryField ([], c.empty) = some e := by
  intro h
  unfold entry at h
  by_cases hwire : r.key.wire = .len
  · rw [if_pos hwire] at h
    cases hrs : records depth r.payload with
    | none => simp [hrs] at h
    | some rs =>
        simp only [hrs] at h
        exact ⟨hwire, rs, rfl, h⟩
  · rw [if_neg hwire] at h
    cases h

end Codec

/-! ## The key of a map entry -/

/-- Whether an item states the key of a map entry. -/
def statesKey (r : Record) : Prop :=
  r.key.field = 1 ∧ r.key.wire = .len

instance (r : Record) : Decidable (statesKey r) :=
  inferInstanceAs (Decidable (_ ∧ _))

/-- The key an item of a map entry leaves in force. -/
def keyAfter (key : Option Text) (r : Record) : Option Text :=
  if statesKey r then utf8? r.payload else key

/-- The last key that the items of a map entry state. -/
def entryKey (rs : List Record) : Option Text :=
  rs.foldl keyAfter none

/-- One item of a decodable map entry: a stated key reads as text and stays in force. -/
theorem Codec.entryField_key {V : Type} {c : Codec V} {e e' : Text × V} {r : Record} :
    c.entryField e r = some e' →
      (statesKey r → utf8? r.payload = some e'.1) ∧ (¬ statesKey r → e'.1 = e.1) := by
  intro h
  unfold Codec.entryField at h
  by_cases h1 : r.key.field = 1
  · rw [if_pos h1] at h
    by_cases hwire : r.key.wire = .len
    · rw [if_pos hwire] at h
      rcases Option.map_eq_some_iff.1 h with ⟨k, hk, rfl⟩
      exact ⟨fun _ => hk, fun hnot => absurd ⟨h1, hwire⟩ hnot⟩
    · rw [if_neg hwire] at h
      cases h
  · rw [if_neg h1] at h
    have hnot : ¬ statesKey r := fun hs => h1 hs.1
    refine ⟨fun hs => absurd hs hnot, fun _ => ?_⟩
    by_cases h2 : r.key.field = 2
    · rw [if_pos h2] at h
      by_cases hwire : r.key.wire = .len
      · rw [if_pos hwire] at h
        rcases Option.map_eq_some_iff.1 h with ⟨v, _, rfl⟩
        rfl
      · rw [if_neg hwire] at h
        cases h
    · rw [if_neg h2] at h
      cases h
      rfl

/-- A map entry decodes to the last key it states, the empty key when it states none. -/
theorem Codec.entry_key {V : Type} {c : Codec V} :
    ∀ {rs : List Record} {e e' : Text × V} {key : Option Text}, e.1 = key.getD [] →
      rs.foldlM c.entryField e = some e' → e'.1 = (rs.foldl keyAfter key).getD [] := by
  intro rs
  induction rs with
  | nil =>
      intro e e' key hkey h
      have hEq : e = e' := by simpa using h
      simpa [hEq] using hkey
  | cons r rs ih =>
      intro e e' key hkey h
      rw [List.foldlM_cons] at h
      rcases Option.bind_eq_some_iff.1 h with ⟨e1, he1, htail⟩
      rcases Codec.entryField_key he1 with ⟨hstated, hkept⟩
      rw [List.foldl_cons]
      refine ih ?_ htail
      by_cases hs : statesKey r
      · simp [keyAfter, hs, hstated hs]
      · simp [keyAfter, hs, hkept hs, hkey]

end Protobuf
end FunctionWasm

import FunctionWasm.Foundation.EntryMap

/-!
# Memo — answers that are kept by key, up to a number of them

A function is asked again and again.  What it answered is kept under a key of what it was asked, and
when there is no room left everything is dropped.

* `Memo` is what is kept, which is never more than there is room for; `Memo.ask` is one question.
* `Memo.Holds` says that every answer kept is the function's for something with its key.
* `asks_spec`: whoever asks with keys that tell the questions apart gets the function's answers.
-/

namespace FunctionWasm

/-- At most `cap` answers, each under its key. -/
structure Memo (κ ν : Type) [DecidableEq κ] (cap : Nat) where
  held : EntryMap κ ν
  within : held.keys.length ≤ cap

namespace Memo

variable {α κ ν : Type} [DecidableEq κ] {cap : Nat}

def empty : Memo κ ν cap where
  held := ∅
  within := Nat.zero_le _

theorem length_insert_le (m : EntryMap κ ν) (k : κ) (v : ν) :
    (m.insert k v).keys.length ≤ m.keys.length + 1 := by
  rw [AList.keys_insert, List.length_cons]
  exact Nat.succ_le_succ List.length_erase_le

/-- Keeps an answer; where there is no room for it, it is the only one. -/
def keep (hcap : 0 < cap) (k : κ) (v : ν) (m : Memo κ ν cap) : Memo κ ν cap :=
  if hroom : cap ≤ m.held.keys.length then
    { held := AList.insert k v ∅
      within := le_trans (length_insert_le ∅ k v) hcap }
  else
    { held := m.held.insert k v
      within := le_trans (length_insert_le m.held k v) (Nat.lt_of_not_le hroom) }

/-- What is kept after an answer was kept: the answer, and else what was kept before. -/
theorem lookup_keep (hcap : 0 < cap) {k k' : κ} {v v' : ν} {m : Memo κ ν cap}
    (h : (m.keep hcap k v).held.lookup k' = some v') :
    k' = k ∧ v' = v ∨ m.held.lookup k' = some v' := by
  unfold keep at h
  by_cases hkey : k' = k
  · subst hkey
    refine Or.inl ⟨rfl, ?_⟩
    split at h
    · rw [AList.lookup_insert] at h
      exact (Option.some.inj h).symm
    · rw [AList.lookup_insert] at h
      exact (Option.some.inj h).symm
  · refine Or.inr ?_
    split at h
    · rw [AList.lookup_insert_ne hkey, AList.lookup_empty] at h
      cases h
    · rwa [AList.lookup_insert_ne hkey] at h

/-- One question: answered with what is kept under its key, else by the function. -/
def ask (hcap : 0 < cap) (key : α → κ) (f : α → ν) (a : α) (m : Memo κ ν cap) :
    ν × Memo κ ν cap :=
  match m.held.lookup (key a) with
  | some v => (v, m)
  | none => (f a, m.keep hcap (key a) (f a))

/-- Questions one after the other. -/
def asks (hcap : 0 < cap) (key : α → κ) (f : α → ν) : List α → Memo κ ν cap → List ν × Memo κ ν cap
  | [], m => ([], m)
  | a :: rest, m =>
      let (v, m) := m.ask hcap key f a
      let (vs, m) := asks hcap key f rest m
      (v :: vs, m)

/-- Every answer kept is the function's for one of the questions. -/
def Holds (key : α → κ) (f : α → ν) (asked : α → Prop) (m : Memo κ ν cap) : Prop :=
  ∀ k v, m.held.lookup k = some v → ∃ a, asked a ∧ key a = k ∧ f a = v

/-- Questions that share a key have one answer. -/
def Separates (key : α → κ) (f : α → ν) (asked : α → Prop) : Prop :=
  ∀ a a', asked a → asked a' → key a = key a' → f a = f a'

variable {key : α → κ} {f : α → ν} {asked : α → Prop} {m : Memo κ ν cap}

theorem holds_empty : Holds key f asked (empty : Memo κ ν cap) := by
  intro k v h
  rw [empty, AList.lookup_empty] at h
  cases h

/-- A question leaves what is kept in order, and is answered as the function does. -/
theorem ask_spec (hcap : 0 < cap) {a : α} (hasked : asked a) (hsep : Separates key f asked)
    (hholds : Holds key f asked m) :
    (m.ask hcap key f a).1 = f a ∧ Holds key f asked (m.ask hcap key f a).2 := by
  unfold ask
  cases hfound : m.held.lookup (key a) with
  | some v =>
      rcases hholds _ _ hfound with ⟨a', hasked', hkey, hv⟩
      refine ⟨?_, hholds⟩
      calc
        v = f a' := hv.symm
        _ = f a := hsep a' a hasked' hasked hkey
  | none =>
      refine ⟨rfl, ?_⟩
      intro k v h
      rcases lookup_keep hcap h with ⟨rfl, rfl⟩ | hold
      · exact ⟨a, hasked, rfl, rfl⟩
      · exact hholds k v hold

theorem asks_spec (hcap : 0 < cap) (hsep : Separates key f asked) :
    ∀ (as : List α) (m : Memo κ ν cap), (∀ a ∈ as, asked a) → Holds key f asked m →
      (asks hcap key f as m).1 = as.map f ∧ Holds key f asked (asks hcap key f as m).2
  | [], _, _, hholds => ⟨rfl, hholds⟩
  | a :: rest, m, hasked, hholds => by
      rcases ask_spec hcap (hasked a List.mem_cons_self) hsep hholds with ⟨hv, hnext⟩
      rcases asks_spec hcap hsep rest (m.ask hcap key f a).2
        (fun a' ha' => hasked a' (List.mem_cons_of_mem a ha')) hnext with ⟨hvs, hlast⟩
      refine ⟨?_, hlast⟩
      rw [List.map_cons, ← hv, ← hvs]
      rfl

end Memo
end FunctionWasm

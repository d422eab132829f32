import Mathlib.Data.List.Count
import Mathlib.Logic.Function.Basic
import FunctionWasm.Foundation.Text
import FunctionWasm.Foundation.Transition

/-!
# StepSlots — how many runs of one key execute at once

Each key has an entry of as many slots as the first acquire asked for.  An acquire looks its entry up
under one lock and takes a slot of it under another; a sweep removes the entries that have not been
looked up for ten minutes, unless a slot of them is taken.

* `StepSlots` are the entries with the acquires and the guards that refer to them, `slotsStep` every
  move of them.
* `Bound` is what the entries are for: the guards of a key are within one entry's slots.
* `SlotsInv` holds in every state, `Home` while no sweep comes between an acquire and its slot.
* `step_slots_bound` says that the bound holds then, and that any other sweep can break it.
-/

namespace FunctionWasm
namespace Slots

variable {κ : Type}

/-! ## The entries -/

/-- An entry; `key` is what it was made for. -/
structure StepEntry (κ : Type) where
  key : κ
  capacity : Nat
  held : Nat
  lastSeen : Nat
  deriving DecidableEq, Repr

/-- The entries by key, and all that were ever made by number.  An acquire that has looked its entry
up and a guard both refer to it by number, whether or not it is still an entry of its key. -/
structure StepSlots (κ : Type) where
  now : Nat
  entries : κ → Option Nat
  made : Nat
  heap : Nat → Option (StepEntry κ)
  waiting : List Nat
  guards : List Nat

/-- Ten minutes, in nanoseconds. -/
def idleLimit : Nat :=
  10 * 60 * 1000000000

inductive SlotAction (κ : Type) where
  | elapse (d : Nat)
  | enter (key : κ) (n : Nat)
  | take (e : Nat)
  | expire (e : Nat)
  | release (e : Nat)
  | sweep (key : κ) (cutoff : Nat)
  deriving DecidableEq, Repr

namespace StepSlots

def new (κ : Type) : StepSlots κ where
  now := 0
  entries := fun _ => none
  made := 0
  heap := fun _ => none
  waiting := []
  guards := []

def setEntry (s : StepSlots κ) (e : Nat) (x : StepEntry κ) : StepSlots κ :=
  { s with heap := Function.update s.heap e (some x) }

theorem heap_setEntry {s : StepSlots κ} {e e' : Nat} {x x' : StepEntry κ}
    (h : (s.setEntry e x).heap e' = some x') :
    (e' = e ∧ x' = x) ∨ (e' ≠ e ∧ s.heap e' = some x') := by
  by_cases he : e' = e
  · subst he
    refine Or.inl ⟨rfl, ?_⟩
    simpa [setEntry, eq_comm] using h
  · exact Or.inr ⟨he, by simpa [setEntry, he] using h⟩

theorem heap_setEntry_self (s : StepSlots κ) (e : Nat) (x : StepEntry κ) :
    (s.setEntry e x).heap e = some x := by
  simp [setEntry]

theorem heap_setEntry_ne {s : StepSlots κ} {e e' : Nat} (h : e' ≠ e) (x : StepEntry κ) :
    (s.setEntry e x).heap e' = s.heap e' := by
  simp [setEntry, h]

/-- An acquire finds the entry of its key. -/
def look (s : StepSlots κ) (e : Nat) (x : StepEntry κ) : StepSlots κ :=
  { s.setEntry e { x with lastSeen := s.now } with waiting := e :: s.waiting }

/-- An acquire takes a slot of its entry: its guard is alive from here on. -/
def take (s : StepSlots κ) (e : Nat) (x : StepEntry κ) : StepSlots κ :=
  { s.setEntry e { x with held := x.held + 1 } with
    waiting := s.waiting.erase e
    guards := e :: s.guards }

/-- A guard is dropped. -/
def release (s : StepSlots κ) (e : Nat) (x : StepEntry κ) : StepSlots κ :=
  { s.setEntry e { x with held := x.held - 1 } with guards := s.guards.erase e }

variable [DecidableEq κ]

/-- An acquire makes the entry of its key. -/
def make (s : StepSlots κ) (key : κ) (n : Nat) : StepSlots κ :=
  { s.setEntry s.made { key := key, capacity := n, held := 0, lastSeen := s.now } with
    entries := Function.update s.entries key (some s.made)
    made := s.made + 1
    waiting := s.made :: s.waiting }

end StepSlots

/-! ## The invariant -/

/-- What refers to an entry: an acquire that has looked it up, or a guard. -/
def StepSlots.Refers (s : StepSlots κ) (e : Nat) : Prop :=
  e ∈ s.waiting ∨ e ∈ s.guards

/-- A taken slot has its guard and no entry has more than its slots taken; what is referred to was
made, and each key's entry was made for it. -/
structure SlotsInv (s : StepSlots κ) : Prop where
  held : ∀ e x, s.heap e = some x → x.held = s.guards.count e ∧ x.held ≤ x.capacity
  known : ∀ e, s.Refers e → (s.heap e).isSome = true
  keyed : ∀ k e, s.entries k = some e → ∃ x, s.heap e = some x ∧ x.key = k
  fresh : ∀ e, s.made ≤ e → s.heap e = none

/-- What is referred to and has slots is its key's entry. -/
def Home (s : StepSlots κ) : Prop :=
  ∀ e x, s.Refers e → s.heap e = some x → 0 < x.capacity → s.entries x.key = some e

/-- Not a sweep of an entry whose slot an acquire still waits for. -/
def Unawaited (s : StepSlots κ) (a : SlotAction κ) : Prop :=
  ∀ key cutoff e x, a = .sweep key cutoff → s.entries key = some e → s.heap e = some x →
    0 < x.capacity → e ∉ s.waiting

/-- The guards of one key are of one entry, and no more than its slots. -/
structure Bound (s : StepSlots κ) : Prop where
  one : ∀ e ∈ s.guards, ∀ e' ∈ s.guards, ∀ x x', s.heap e = some x → s.heap e' = some x' →
    x.key = x'.key → e = e'
  few : ∀ e ∈ s.guards, ∃ x, s.heap e = some x ∧ s.guards.count e ≤ x.capacity

theorem slotsInv_new : SlotsInv (StepSlots.new κ) where
  held := fun _ _ h => by cases h
  known := fun e h => by
    rcases h with h | h <;> cases h
  keyed := fun _ _ h => by cases h
  fresh := fun _ _ => rfl

/-- An entry rewritten under its key: what refers to entries and the keys' entries stay. -/
theorem SlotsInv.known_setEntry {s : StepSlots κ} (h : SlotsInv s) {e : Nat} (x : StepEntry κ)
    {e' : Nat} (hrefers : s.Refers e') : ((s.setEntry e x).heap e').isSome = true := by
  by_cases he : e' = e
  · rw [he, StepSlots.heap_setEntry_self]
    rfl
  · rw [StepSlots.heap_setEntry_ne he]
    exact h.known e' hrefers

theorem SlotsInv.keyed_setEntry {s : StepSlots κ} (h : SlotsInv s) {e : Nat} {x y : StepEntry κ}
    (hx : s.heap e = some x) (hkey : y.key = x.key) {k : κ} {e' : Nat}
    (he' : s.entries k = some e') : ∃ z, (s.setEntry e y).heap e' = some z ∧ z.key = k := by
  rcases h.keyed k e' he' with ⟨z, hz, hzkey⟩
  by_cases he : e' = e
  · subst he
    cases hx.symm.trans hz
    exact ⟨y, StepSlots.heap_setEntry_self _ _ _, hkey.trans hzkey⟩
  · exact ⟨z, by rw [StepSlots.heap_setEntry_ne he, hz], hzkey⟩

theorem SlotsInv.fresh_setEntry {s : StepSlots κ} (h : SlotsInv s) {e : Nat} {x : StepEntry κ}
    (hx : s.heap e = some x) (y : StepEntry κ) {e' : Nat} (he' : s.made ≤ e') :
    (s.setEntry e y).heap e' = none := by
  have hne : e' ≠ e := by
    rintro rfl
    rw [h.fresh e' he'] at hx
    cases hx
  rw [StepSlots.heap_setEntry_ne hne]
  exact h.fresh e' he'

/-- The guards of any entry are within its slots. -/
theorem SlotsInv.few {s : StepSlots κ} (h : SlotsInv s) {e : Nat} (he : e ∈ s.guards) :
    ∃ x, s.heap e = some x ∧ s.guards.count e ≤ x.capacity := by
  rcases Option.isSome_iff_exists.1 (h.known e (Or.inr he)) with ⟨x, hx⟩
  exact ⟨x, hx, (h.held e x hx).1 ▸ (h.held e x hx).2⟩

/-- What is at home is bounded. -/
theorem bound_of_home {s : StepSlots κ} (h : SlotsInv s) (hhome : Home s) : Bound s where
  one := fun e he e' he' x x' hx hx' hkey => by
    have hslots : ∀ e ∈ s.guards, ∀ x, s.heap e = some x → 0 < x.capacity := fun e he x hx => by
      have hle := (h.held e x hx).1 ▸ (h.held e x hx).2
      exact Nat.lt_of_lt_of_le (List.count_pos_iff.2 he) hle
    have h1 : s.entries x.key = some e := hhome e x (Or.inr he) hx (hslots e he x hx)
    have h2 : s.entries x'.key = some e' := hhome e' x' (Or.inr he') hx' (hslots e' he' x' hx')
    rw [hkey] at h1
    exact Option.some.inj (h1.symm.trans h2)
  few := fun _ he => h.few he

/-- An entry rewritten with its key and its slots was an entry with them before. -/
theorem StepSlots.heap_rewritten {s : StepSlots κ} {e e' : Nat} {x y z : StepEntry κ}
    (hx : s.heap e = some x) (hkey : y.key = x.key) (hcap : y.capacity = x.capacity)
    (hz : (s.setEntry e y).heap e' = some z) :
    ∃ z0, s.heap e' = some z0 ∧ z.key = z0.key ∧ z.capacity = z0.capacity := by
  rcases StepSlots.heap_setEntry hz with ⟨rfl, rfl⟩ | ⟨-, hz⟩
  · exact ⟨x, hx, hkey, hcap⟩
  · exact ⟨z, hz, rfl, rfl⟩

/-! ## The moves -/

variable [DecidableEq κ]

/-- Every move, under any interleaving of calls and sweeps. -/
def slotsStep (s : StepSlots κ) : SlotAction κ → Option (StepSlots κ)
  | .elapse d => some { s with now := s.now + d }
  | .enter key n =>
      match s.entries key with
      | some e =>
          match s.heap e with
          | some x => some (s.look e x)
          | none => none
      | none => some (s.make key n)
  | .take e =>
      match s.heap e with
      | some x => if e ∈ s.waiting ∧ x.held < x.capacity then some (s.take e x) else none
      | none => none
  | .expire e =>
      match s.heap e with
      | some x =>
          -- the deadline is looked at only while no slot is free
          if e ∈ s.waiting ∧ x.capacity ≤ x.held then
            some { s with waiting := s.waiting.erase e }
          else none
      | none => none
  | .release e =>
      match s.heap e with
      | some x => if e ∈ s.guards then some (s.release e x) else none
      | none => none
  | .sweep key cutoff =>
      -- the cutoff was read before the lock was taken
      match s.entries key with
      | some e =>
          match s.heap e with
          | some x =>
              if cutoff + idleLimit ≤ s.now ∧ x.held = 0 ∧ x.lastSeen < cutoff then
                some { s with entries := Function.update s.entries key none }
              else none
          | none => none
      | none => none

def slotsSystem (κ : Type) [DecidableEq κ] : TransitionSystem (StepSlots κ) (SlotAction κ) where
  init s := s = StepSlots.new κ
  step s a s' := slotsStep s a = some s'

inductive SlotMove (s : StepSlots κ) : SlotAction κ → StepSlots κ → Prop where
  | elapse (d : Nat) : SlotMove s (.elapse d) { s with now := s.now + d }
  | look {key : κ} {n e : Nat} {x : StepEntry κ} (he : s.entries key = some e)
      (hx : s.heap e = some x) : SlotMove s (.enter key n) (s.look e x)
  | make {key : κ} {n : Nat} (he : s.entries key = none) :
      SlotMove s (.enter key n) (s.make key n)
  | take {e : Nat} {x : StepEntry κ} (hx : s.heap e = some x) (hwaits : e ∈ s.waiting)
      (hfree : x.held < x.capacity) : SlotMove s (.take e) (s.take e x)
  | expire {e : Nat} : SlotMove s (.expire e) { s with waiting := s.waiting.erase e }
  | release {e : Nat} {x : StepEntry κ} (hx : s.heap e = some x) (hguard : e ∈ s.guards) :
      SlotMove s (.release e) (s.release e x)
  | sweep {key : κ} {cutoff e : Nat} {x : StepEntry κ} (he : s.entries key = some e)
      (hx : s.heap e = some x) (hidle : x.held = 0) :
      SlotMove s (.sweep key cutoff) { s with entries := Function.update s.entries key none }

theorem slotMove_of_step {s s' : StepSlots κ} {a : SlotAction κ} (h : slotsStep s a = some s') :
    SlotMove s a s' := by
  cases a with
  | elapse d =>
      cases h
      exact .elapse d
  | enter key n =>
      simp only [slotsStep] at h
      split at h
      · next e he =>
          split at h
          · next x hx =>
              cases h
              exact .look he hx
          · cases h
      · next he =>
          cases h
          exact .make he
  | take e =>
      simp only [slotsStep] at h
      split at h
      · next x hx =>
          split at h
          · next hcond =>
              cases h
              exact .take hx hcond.1 hcond.2
          · cases h
      · cases h
  | expire e =>
      simp only [slotsStep] at h
      split at h
      · split at h
        · cases h
          exact .expire
        · cases h
      · cases h
  | release e =>
      simp only [slotsStep] at h
      split at h
      · next x hx =>
          split at h
          · next hguard =>
              cases h
              exact .release hx hguard
          · cases h
      · cases h
  -- that the idle time has passed is left out of the move: no invariant needs it
  | sweep key cutoff =>
      simp only [slotsStep] at h
      split at h
      · next e he =>
          split at h
          · next x hx =>
              split at h
              · next hcond =>
                  cases h
                  exact .sweep he hx hcond.2.1
              · cases h
          · cases h
      · cases h

/-- A move refers to what was referred to before, or to the entry under the key it enters. -/
theorem SlotMove.refers {s s' : StepSlots κ} {a : SlotAction κ} (hmove : SlotMove s a s') {e : Nat}
    (h : s'.Refers e) :
    s.Refers e ∨ ∃ key n, a = .enter key n ∧ s'.entries key = some e := by
  cases hmove with
  | elapse | sweep => exact Or.inl h
  | @look key n e' x he hx =>
      rcases h with hw | hg
      · rcases List.mem_cons.1 hw with rfl | hw
        · exact Or.inr ⟨key, n, rfl, he⟩
        · exact Or.inl (Or.inl hw)
      · exact Or.inl (Or.inr hg)
  | @make key n he =>
      rcases h with hw | hg
      · rcases List.mem_cons.1 hw with rfl | hw
        · exact Or.inr ⟨key, n, rfl, by simp [StepSlots.make]⟩
        · exact Or.inl (Or.inl hw)
      · exact Or.inl (Or.inr hg)
  | take hx hwaits hfree =>
      -- the slot's guard takes the place of the acquire that waited
      rcases h with hw | hg
      · exact Or.inl (Or.inl (List.mem_of_mem_erase hw))
      · rcases List.mem_cons.1 hg with rfl | hg
        · exact Or.inl (Or.inl hwaits)
        · exact Or.inl (Or.inr hg)
  | expire =>
      rcases h with hw | hg
      · exact Or.inl (Or.inl (List.mem_of_mem_erase hw))
      · exact Or.inl (Or.inr hg)
  | release hx hguard =>
      rcases h with hw | hg
      · exact Or.inl (Or.inl hw)
      · exact Or.inl (Or.inr (List.mem_of_mem_erase hg))

/-- A move that enters no key refers to nothing new. -/
theorem SlotMove.refers_old {s s' : StepSlots κ} {a : SlotAction κ} (hmove : SlotMove s a s')
    (hother : ∀ key n, a ≠ .enter key n) {e : Nat} (h : s'.Refers e) : s.Refers e := by
  rcases hmove.refers h with hold | ⟨key, n, heq, -⟩
  · exact hold
  · exact absurd heq (hother key n)

/-- What is referred to after a move has an entry. -/
theorem SlotMove.known {s s' : StepSlots κ} {a : SlotAction κ} (hmove : SlotMove s a s')
    (h : SlotsInv s) {e : Nat} (hrefers : s'.Refers e) : (s'.heap e).isSome = true := by
  rcases hmove.refers hrefers with hold | ⟨key, n, rfl, hentry⟩
  · have hsome := h.known e hold
    cases hmove with
    | elapse | expire | sweep => exact hsome
    | look | make | take | release => exact h.known_setEntry _ hold
  · cases hmove with
    | look he hx =>
        cases he.symm.trans hentry
        exact Option.isSome_iff_exists.2 ⟨_, StepSlots.heap_setEntry_self _ _ _⟩
    | make he =>
        have heq : s.made = e := by simpa [StepSlots.make] using hentry
        rw [← heq]
        exact Option.isSome_iff_exists.2 ⟨_, StepSlots.heap_setEntry_self _ _ _⟩

/-- Every move keeps the entries in order. -/
theorem SlotMove.inv {s s' : StepSlots κ} {a : SlotAction κ} (hmove : SlotMove s a s')
    (h : SlotsInv s) : SlotsInv s' := by
  have hknown : ∀ e, s'.Refers e → (s'.heap e).isSome = true := fun _ => hmove.known h
  cases hmove with
  | elapse d => exact ⟨h.held, hknown, h.keyed, h.fresh⟩
  | @look _ _ e x he hx =>
      refine ⟨?_, hknown,
        fun k e' he' => h.keyed_setEntry (y := { x with lastSeen := s.now }) hx rfl he',
        fun e' he' => h.fresh_setEntry hx _ he'⟩
      intro e' y hy
      rcases StepSlots.heap_setEntry hy with ⟨rfl, rfl⟩ | ⟨-, hy⟩
      · exact h.held e' x hx
      · exact h.held e' y hy
  | @make key n he =>
      -- the number is new, so nothing in the books is about it
      have hfresh : s.heap s.made = none := h.fresh _ (Nat.le_refl _)
      have hnew : ∀ e, (s.heap e).isSome = true → e ≠ s.made := by
        rintro e hsome rfl
        rw [hfresh] at hsome
        cases hsome
      refine ⟨?_, hknown, ?_, ?_⟩
      · intro e' y hy
        rcases StepSlots.heap_setEntry hy with ⟨rfl, rfl⟩ | ⟨-, hy⟩
        · have hzero : s.guards.count s.made = 0 :=
            List.count_eq_zero.2 fun hmem => hnew _ (h.known _ (Or.inr hmem)) rfl
          exact ⟨hzero.symm, Nat.zero_le _⟩
        · exact h.held e' y hy
      · intro k e' he'
        by_cases hk : k = key
        · subst hk
          have heq : s.made = e' := by simpa [StepSlots.make] using he'
          rw [← heq]
          exact ⟨_, StepSlots.heap_setEntry_self _ _ _, rfl⟩
        · have hold : s.entries k = some e' := by simpa [StepSlots.make, hk] using he'
          rcases h.keyed k e' hold with ⟨y, hy, hkey⟩
          refine ⟨y, ?_, hkey⟩
          rw [← hy]
          exact StepSlots.heap_setEntry_ne (hnew e' (by rw [hy]; rfl)) _
      · intro e' he'
        have hlt : s.made < e' := he'
        rw [← h.fresh e' (Nat.le_of_lt hlt)]
        exact StepSlots.heap_setEntry_ne (Nat.ne_of_gt hlt) _
  | @take e x hx hwaits hfree =>
      refine ⟨?_, hknown,
        fun k e' he' => h.keyed_setEntry (y := { x with held := x.held + 1 }) hx rfl he',
        fun e' he' => h.fresh_setEntry hx _ he'⟩
      -- one more guard of this entry, and of no other
      intro e' y hy
      rcases StepSlots.heap_setEntry hy with ⟨rfl, rfl⟩ | ⟨hne, hy⟩
      · have hheld := (h.held e' x hx).1
        refine ⟨?_, hfree⟩
        simp only [StepSlots.take, List.count_cons_self, hheld]
      · rw [StepSlots.take, List.count_cons_of_ne (Ne.symm hne)]
        exact h.held e' y hy
  | expire => exact ⟨h.held, hknown, h.keyed, h.fresh⟩
  | @release e x hx hguard =>
      refine ⟨?_, hknown,
        fun k e' he' => h.keyed_setEntry (y := { x with held := x.held - 1 }) hx rfl he',
        fun e' he' => h.fresh_setEntry hx _ he'⟩
      -- one guard of this entry less
      intro e' y hy
      rcases StepSlots.heap_setEntry hy with ⟨rfl, rfl⟩ | ⟨hne, hy⟩
      · rcases h.held e' x hx with ⟨hheld, hle⟩
        refine ⟨?_, Nat.le_trans (Nat.sub_le _ _) hle⟩
        simp only [StepSlots.release, List.count_erase_self, hheld]
      · rw [StepSlots.release, List.count_erase_of_ne hne]
        exact h.held e' y hy
  | @sweep key cutoff e x he hx hidle =>
      refine ⟨h.held, hknown, ?_, h.fresh⟩
      intro k e' he'
      by_cases hk : k = key
      · subst hk
        simp at he'
      · exact h.keyed k e' (by simpa [hk] using he')

theorem slotsInv_of_reachable {s : StepSlots κ} (h : (slotsSystem κ).Reachable s) : SlotsInv s := by
  refine h.invariant ?_ ?_
  · rintro s rfl
    exact slotsInv_new
  · intro s a s' _ hinv hstep
    have hmove : SlotMove s a s' := slotMove_of_step hstep
    exact hmove.inv hinv

/-- An entry keeps its key and its slots for good. -/
theorem SlotMove.keeps {s s' : StepSlots κ} {a : SlotAction κ} (hmove : SlotMove s a s')
    (h : SlotsInv s) {e : Nat} {x : StepEntry κ} (hx : s.heap e = some x) :
    ∃ x', s'.heap e = some x' ∧ x'.key = x.key ∧ x'.capacity = x.capacity := by
  have hset : ∀ {e' : Nat} {y : StepEntry κ}, (∀ z, s.heap e' = some z → y.key = z.key ∧
      y.capacity = z.capacity) → ∃ x', (s.setEntry e' y).heap e = some x' ∧ x'.key = x.key ∧
      x'.capacity = x.capacity := by
    intro e' y hy
    by_cases he : e = e'
    · subst he
      exact ⟨y, StepSlots.heap_setEntry_self _ _ _, hy x hx⟩
    · exact ⟨x, by rw [StepSlots.heap_setEntry_ne he, hx], rfl, rfl⟩
  cases hmove with
  | elapse d => exact ⟨x, hx, rfl, rfl⟩
  | look he hz => exact hset fun z hz' => by cases hz.symm.trans hz'; exact ⟨rfl, rfl⟩
  | make he =>
      refine hset fun z hz => ?_
      rw [h.fresh _ (Nat.le_refl _)] at hz
      cases hz
  | take hz hwaits hfree => exact hset fun z hz' => by cases hz.symm.trans hz'; exact ⟨rfl, rfl⟩
  | expire => exact ⟨x, hx, rfl, rfl⟩
  | release hz hguard => exact hset fun z hz' => by cases hz.symm.trans hz'; exact ⟨rfl, rfl⟩
  | sweep he hz hidle => exact ⟨x, hx, rfl, rfl⟩

/-- A move that no acquire notices keeps what is referred to at home. -/
theorem SlotMove.home {s s' : StepSlots κ} {a : SlotAction κ} (hmove : SlotMove s a s')
    (h : SlotsInv s) (hhome : Home s) (hcond : Unawaited s a) : Home s' := by
  have hrefs : ∀ e, s'.Refers e → s.Refers e ∨
      ∃ key n, a = .enter key n ∧ s'.entries key = some e := fun _ => hmove.refers
  have hold : (∀ key n, a ≠ .enter key n) → ∀ e, s'.Refers e → s.Refers e :=
    fun hother _ => hmove.refers_old hother
  cases hmove with
  | elapse d => exact hhome
  | @look key n e x he hx =>
      intro e' z hrefers hz hcap
      rcases StepSlots.heap_rewritten (y := { x with lastSeen := s.now }) hx rfl rfl hz with
        ⟨z0, hz0, hkey, hcap0⟩
      rw [hkey]
      rcases hrefs e' hrefers with hbefore | ⟨key', n', -, hentry⟩
      · exact hhome e' z0 hbefore hz0 (hcap0 ▸ hcap)
      · -- the entry was just found under its key
        have hfound : s.entries key' = some e' := hentry
        rcases h.keyed key' e' hfound with ⟨w, hw, hwkey⟩
        cases hz0.symm.trans hw
        rw [hwkey]
        exact hfound
  | @make key n he =>
      intro e' z hrefers hz hcap
      rcases StepSlots.heap_setEntry hz with ⟨rfl, rfl⟩ | ⟨hne, hz⟩
      · simp [StepSlots.make]
      · have hbefore : s.Refers e' := by
          rcases hrefers with hw | hg
          · exact Or.inl ((List.mem_cons.1 hw).resolve_left hne)
          · exact Or.inr hg
        have hentry : s.entries z.key = some e' := hhome e' z hbefore hz hcap
        -- a key that has an entry is not the one that had none
        have hkey : z.key ≠ key := by
          rintro rfl
          rw [he] at hentry
          cases hentry
        simpa [StepSlots.make, hkey] using hentry
  | @take e x hx hwaits hfree =>
      intro e' z hrefers hz hcap
      rcases StepSlots.heap_rewritten (y := { x with held := x.held + 1 }) hx rfl rfl hz with
        ⟨z0, hz0, hkey, hcap0⟩
      rw [hkey]
      exact hhome e' z0 (hold (fun _ _ heq => by cases heq) e' hrefers) hz0 (hcap0 ▸ hcap)
  | @expire e =>
      intro e' z hrefers hz hcap
      exact hhome e' z (hold (fun _ _ heq => by cases heq) e' hrefers) hz hcap
  | @release e x hx hguard =>
      intro e' z hrefers hz hcap
      rcases StepSlots.heap_rewritten (y := { x with held := x.held - 1 }) hx rfl rfl hz with
        ⟨z0, hz0, hkey, hcap0⟩
      rw [hkey]
      exact hhome e' z0 (hold (fun _ _ heq => by cases heq) e' hrefers) hz0 (hcap0 ▸ hcap)
  | @sweep key cutoff e x he hx hidle =>
      intro e' z hrefers hz hcap
      have hentry : s.entries z.key = some e' := hhome e' z hrefers hz hcap
      have hkey : z.key ≠ key := by
        -- no guard is of the swept entry, and no acquire waits for it
        intro hkey
        rw [hkey] at hentry
        cases he.symm.trans hentry
        cases hx.symm.trans hz
        rcases hrefers with hw | hg
        · exact hcond key cutoff e x rfl he hx hcap hw
        · have hzero : s.guards.count e = 0 := (h.held e x hx).1.symm.trans hidle
          exact List.count_eq_zero.1 hzero hg
      simpa [hkey] using hentry

/-! ## The bound -/

theorem slotsStep_make {s : StepSlots κ} {key : κ} (n : Nat) (he : s.entries key = none) :
    slotsStep s (.enter key n) = some (s.make key n) := by
  simp only [slotsStep, he]

theorem slotsStep_take {s : StepSlots κ} {e : Nat} {x : StepEntry κ} (hx : s.heap e = some x)
    (hwaits : e ∈ s.waiting) (hfree : x.held < x.capacity) :
    slotsStep s (.take e) = some (s.take e x) := by
  simp only [slotsStep, hx, hwaits, hfree, and_self, if_true]

/-- After a sweep of an entry that an acquire waits for, a newcomer takes a slot of a new entry and
that acquire one of the old. -/
theorem SlotMove.broken {s s' : StepSlots κ} {a : SlotAction κ} (hmove : SlotMove s a s')
    (h : SlotsInv s) (hcond : ¬ Unawaited s a) :
    ∃ (rest : List (SlotAction κ)) (s1 : StepSlots κ), rest.foldlM slotsStep s' = some s1 ∧
      ¬ Bound s1 := by
  simp only [Unawaited, not_forall, not_not] at hcond
  rcases hcond with ⟨key, cutoff, e, x, rfl, he, hx, hcap, hwaits⟩
  rcases h.keyed key e he with ⟨y, hy, hkey⟩
  cases hx.symm.trans hy
  cases hmove with
  | @sweep _ _ e' x' he' hx' hidle =>
      cases he.symm.trans he'
      cases hx.symm.trans hx'
      -- the newcomer finds no entry under the key and makes one
      let swept : StepSlots κ := { s with entries := Function.update s.entries key none }
      let fresh : StepEntry κ := { key := key, capacity := 1, held := 0, lastSeen := s.now }
      have hne : e ≠ s.made := by
        rintro rfl
        rw [h.fresh _ (Nat.le_refl _)] at hx
        cases hx
      have hmake : slotsStep swept (.enter key 1) = some (swept.make key 1) :=
        slotsStep_make 1 (by simp [swept])
      have hnew : (swept.make key 1).heap s.made = some fresh := StepSlots.heap_setEntry_self _ _ _
      have htake : slotsStep (swept.make key 1) (.take s.made) =
          some ((swept.make key 1).take s.made fresh) :=
        slotsStep_take hnew List.mem_cons_self (Nat.lt_succ_self 0)
      have hold : ((swept.make key 1).take s.made fresh).heap e = some x := by
        calc ((swept.make key 1).take s.made fresh).heap e
            = (swept.make key 1).heap e := StepSlots.heap_setEntry_ne hne _
          _ = s.heap e := StepSlots.heap_setEntry_ne hne _
          _ = some x := hx
      have hstill : e ∈ ((swept.make key 1).take s.made fresh).waiting :=
        (List.mem_erase_of_ne hne).2 (List.mem_cons_of_mem _ hwaits)
      -- the acquire that waited still refers to the entry that was swept
      have hlate : slotsStep ((swept.make key 1).take s.made fresh) (.take e) =
          some (((swept.make key 1).take s.made fresh).take e x) :=
        slotsStep_take hold hstill (hidle ▸ hcap)
      refine ⟨[.enter key 1, .take s.made, .take e],
        ((swept.make key 1).take s.made fresh).take e x, ?_, fun hbound => ?_⟩
      · calc [SlotAction.enter key 1, .take s.made, .take e].foldlM slotsStep swept
            = (slotsStep swept (.enter key 1)).bind fun s1 =>
                (slotsStep s1 (.take s.made)).bind fun s2 => slotsStep s2 (.take e) := by
              simp [List.foldlM, Option.bind_eq_bind]
          _ = some (((swept.make key 1).take s.made fresh).take e x) := by
              rw [hmake, Option.bind_some, htake, Option.bind_some, hlate]
      · -- two guards of one key, of two entries
        have hguards : (((swept.make key 1).take s.made fresh).take e x).guards =
            e :: s.made :: s.guards := rfl
        refine hne (hbound.one e ?_ s.made ?_ { x with held := x.held + 1 }
          { fresh with held := fresh.held + 1 } (StepSlots.heap_setEntry_self _ _ _) ?_ hkey)
        · rw [hguards]
          exact List.mem_cons_self
        · rw [hguards]
          exact List.mem_cons_of_mem _ List.mem_cons_self
        · calc (((swept.make key 1).take s.made fresh).take e x).heap s.made
              = ((swept.make key 1).take s.made fresh).heap s.made :=
                StepSlots.heap_setEntry_ne (Ne.symm hne) _
            _ = some { fresh with held := fresh.held + 1 } := StepSlots.heap_setEntry_self _ _ _

theorem unawaited_reachable {s : StepSlots κ}
    (h : ((slotsSystem κ).restrict Unawaited).Reachable s) :
    (slotsSystem κ).Reachable s ∧ Home s := by
  refine TransitionSystem.Reachable.restrict_invariant ?_ ?_ h
  · rintro s rfl e x hrefers
    rcases hrefers with hrefers | hrefers <;> cases hrefers
  · intro s a s' hs hhome hcond hstep
    have hmove : SlotMove s a s' := slotMove_of_step hstep
    exact hmove.home (slotsInv_of_reachable hs) hhome hcond

/-- The guards of a key are of one entry and within its slots, those of the acquire that made it, as
long as no sweep removes an entry that an acquire still waits for; after any such sweep two entries
of one key can run at once. -/
theorem step_slots_bound :
    (∀ s, ((slotsSystem κ).restrict Unawaited).Reachable s → Bound s) ∧
    (∀ s key n s', (slotsSystem κ).Reachable s → s.entries key = none →
      (slotsSystem κ).step s (.enter key n) s' →
        ∃ x, s'.entries key = some s.made ∧ s'.heap s.made = some x ∧ x.key = key ∧
          x.capacity = n) ∧
    (∀ s a s' e x, (slotsSystem κ).Reachable s → (slotsSystem κ).step s a s' →
      s.heap e = some x → ∃ x', s'.heap e = some x' ∧ x'.key = x.key ∧ x'.capacity = x.capacity) ∧
    (∀ s, (slotsSystem κ).Reachable s → ∀ e ∈ s.guards,
      ∃ x, s.heap e = some x ∧ s.guards.count e ≤ x.capacity) ∧
    (∀ s a s', (slotsSystem κ).Reachable s → (slotsSystem κ).step s a s' → ¬ Unawaited s a →
      ∃ (rest : List (SlotAction κ)) (s1 : StepSlots κ), rest.foldlM slotsStep s' = some s1 ∧
        ¬ Bound s1) := by
  refine ⟨?_, ?_, ?_, ?_, ?_⟩
  · intro s hs
    have hreach := unawaited_reachable hs
    exact bound_of_home (slotsInv_of_reachable hreach.1) hreach.2
  · intro s key n s' _ he hstep
    have heq : s.make key n = s' := Option.some.inj ((slotsStep_make n he).symm.trans hstep)
    rw [← heq]
    exact ⟨_, by simp [StepSlots.make], StepSlots.heap_setEntry_self _ _ _, rfl, rfl⟩
  · intro s a s' e x hs hstep hx
    have hmove : SlotMove s a s' := slotMove_of_step hstep
    exact hmove.keeps (slotsInv_of_reachable hs) hx
  · intro s hs
    exact fun _ he => (slotsInv_of_reachable hs).few he
  · intro s a s' hs hstep hcond
    have hmove : SlotMove s a s' := slotMove_of_step hstep
    exact hmove.broken (slotsInv_of_reachable hs) hcond

/-- One run holds the only slot for eleven minutes while another waits for it; as it ends, the entry
is swept before the other takes the slot, and a third makes a new one. -/
def lateTake : List (SlotAction Text) :=
  [.enter "d".toList 1, .take 0, .enter "d".toList 1, .elapse (idleLimit + 1), .release 0,
    .sweep "d".toList 1, .enter "d".toList 1, .take 1, .take 0]

/-- Two runs of one module at once, though every acquire asked for one slot. -/
theorem swept_while_awaited :
    ∃ s, (slotsSystem Text).Reachable s ∧ s.guards = [0, 1] ∧
      (∀ e ∈ s.guards, ∃ x, s.heap e = some x ∧ x.key = "d".toList ∧ x.capacity = 1) ∧
      ¬ Bound s := by
  have hrun : (lateTake.foldlM slotsStep (StepSlots.new Text)).map
      (fun s => (s.guards, s.heap 0, s.heap 1)) =
        some ([0, 1], some { key := "d".toList, capacity := 1, held := 1, lastSeen := 0 },
          some { key := "d".toList, capacity := 1, held := 1, lastSeen := idleLimit + 1 }) := by
    decide +kernel
  rcases Option.map_eq_some_iff.1 hrun with ⟨s, hs, heq⟩
  have hreach : (slotsSystem Text).Reachable s :=
    TransitionSystem.Reachable.run (fun _ _ _ h => h) (.init rfl) hs
  simp only [Prod.mk.injEq] at heq
  rcases heq with ⟨hguards, h0, h1⟩
  refine ⟨s, hreach, hguards, ?_, fun hbound => ?_⟩
  · intro e he
    rw [hguards] at he
    rcases List.mem_cons.1 he with rfl | he
    · exact ⟨_, h0, rfl, rfl⟩
    · cases List.mem_singleton.1 he
      exact ⟨_, h1, rfl, rfl⟩
  · have hmem : ∀ e ∈ [0, 1], e ∈ s.guards := fun e he => hguards ▸ he
    have heq := hbound.one 0 (hmem 0 (by simp)) 1 (hmem 1 (by simp)) _ _ h0 h1 rfl
    cases heq

end Slots
end FunctionWasm

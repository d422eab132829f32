import Mathlib.Algebra.GroupWithZero.Nat
import Mathlib.Algebra.Ring.Int.Defs
import Mathlib.Data.List.Basic
import Mathlib.Data.List.Infix

/-!
# Reader — prefix readers over byte lists

A `Reader α` looks at the front of a byte list and either refuses it or answers a value, the bytes
it took and the bytes that follow.  The law that makes readers compose is *locality*: what a reader
takes does not depend on what comes after it.

* `Reader.Local` is the law, `Reader.Progress` says that a reader never succeeds on no bytes.
* `Reader.Exact r a u` says that `u` is one encoding of `a`.
* `Reader.all` reads a whole buffer as a sequence of values, and `Reader.all_eq_some_iff` says that
  it succeeds exactly on concatenations of encodings.
-/

namespace FunctionWasm

abbrev Bytes := List UInt8

/-- A prefix reader: the value, the bytes taken, the bytes that follow. -/
def Reader (α : Type) := Bytes → Option (α × Bytes × Bytes)

namespace Reader

variable {α β : Type}

/-- What the reader takes is a prefix, and it takes the same prefix whatever follows it. -/
def Local (r : Reader α) : Prop :=
  ∀ ⦃bs : Bytes⦄ ⦃a : α⦄ ⦃used rest : Bytes⦄, r bs = some (a, used, rest) →
    bs = used ++ rest ∧ ∀ tail : Bytes, r (used ++ tail) = some (a, used, tail)

def Progress (r : Reader α) : Prop :=
  ∀ ⦃bs : Bytes⦄ ⦃a : α⦄ ⦃used rest : Bytes⦄, r bs = some (a, used, rest) → used ≠ []

/-- `u` is an encoding of `a`: read off the front of any buffer that starts with it. -/
def Exact (r : Reader α) (a : α) (u : Bytes) : Prop :=
  ∀ tail : Bytes, r (u ++ tail) = some (a, u, tail)

theorem Local.exact {r : Reader α} (hr : r.Local) {bs : Bytes} {a : α} {used rest : Bytes}
    (h : r bs = some (a, used, rest)) : r.Exact a used :=
  (hr h).2

theorem Exact.ne_nil {r : Reader α} (hr : r.Progress) {a : α} {u : Bytes} (h : r.Exact a u) :
    u ≠ [] :=
  hr (h [])

/-! ## Combinators -/

/-- Takes the next `n` bytes. -/
def take (n : Nat) : Reader Bytes := fun bs =>
  if n ≤ bs.length then some (bs.take n, bs.take n, bs.drop n) else none

/-- Takes nothing and answers `a`. -/
def pure (a : α) : Reader α := fun bs => some (a, [], bs)

def fail : Reader α := fun _ => none

def map (f : α → β) (r : Reader α) : Reader β := fun bs =>
  match r bs with
  | some (a, used, rest) => some (f a, used, rest)
  | none => none

/-- Keeps the values that `f` accepts. -/
def filterMap (f : α → Option β) (r : Reader α) : Reader β := fun bs =>
  match r bs with
  | some (a, used, rest) =>
      match f a with
      | some b => some (b, used, rest)
      | none => none
  | none => none

/-- Answers the bytes taken beside the value. -/
def withUsed (r : Reader α) : Reader (α × Bytes) := fun bs =>
  match r bs with
  | some (a, used, rest) => some ((a, used), used, rest)
  | none => none

def andThen (r : Reader α) (f : α → Reader β) : Reader β := fun bs =>
  match r bs with
  | some (a, used, rest) =>
      match f a rest with
      | some (b, used', rest') => some (b, used ++ used', rest')
      | none => none
  | none => none

theorem take_local (n : Nat) : (take n).Local := by
  intro bs a used rest h
  by_cases hn : n ≤ bs.length
  · have hEq : some (bs.take n, bs.take n, bs.drop n) = some (a, used, rest) := by
      simpa [take, hn] using h
    cases hEq
    refine ⟨(List.take_append_drop n bs).symm, ?_⟩
    intro tail
    have hlen : (bs.take n).length = n := List.length_take_of_le hn
    simp [take, hlen]
  · simp [take, hn] at h

theorem pure_local (a : α) : (pure a).Local := by
  intro bs a' used rest h
  cases h
  exact ⟨rfl, fun tail => rfl⟩

theorem fail_local : (fail : Reader α).Local := by
  intro bs a used rest h
  cases h

theorem map_eq_some {f : α → β} {r : Reader α} {bs : Bytes} {b : β} {used rest : Bytes} :
    map f r bs = some (b, used, rest) ↔ ∃ a, r bs = some (a, used, rest) ∧ f a = b := by
  unfold map
  cases h : r bs with
  | none => simp
  | some x =>
      rcases x with ⟨a, used0, rest0⟩
      constructor
      · intro hEq
        cases hEq
        exact ⟨a, rfl, rfl⟩
      · rintro ⟨a', hEq, rfl⟩
        cases hEq
        rfl

theorem Local.map {r : Reader α} (hr : r.Local) (f : α → β) : (map f r).Local := by
  intro bs b used rest h
  rcases map_eq_some.1 h with ⟨a, ha, rfl⟩
  rcases hr ha with ⟨hbs, htail⟩
  exact ⟨hbs, fun tail => map_eq_some.2 ⟨a, htail tail, rfl⟩⟩

theorem filterMap_eq_some {f : α → Option β} {r : Reader α} {bs : Bytes} {b : β}
    {used rest : Bytes} :
    filterMap f r bs = some (b, used, rest) ↔
      ∃ a, r bs = some (a, used, rest) ∧ f a = some b := by
  unfold filterMap
  cases h : r bs with
  | none => simp
  | some x =>
      rcases x with ⟨a, used0, rest0⟩
      cases hf : f a with
      | none =>
          constructor
          · intro hEq
            simp [hf] at hEq
          · rintro ⟨a', hEq, hb⟩
            cases hEq
            simp [hf] at hb
      | some b0 =>
          constructor
          · intro hEq
            simp only [hf] at hEq
            cases hEq
            exact ⟨a, rfl, hf⟩
          · rintro ⟨a', hEq, hb⟩
            cases hEq
            simp only [hf] at hb ⊢
            cases hb
            rfl

theorem Local.filterMap {r : Reader α} (hr : r.Local) (f : α → Option β) :
    (filterMap f r).Local := by
  intro bs b used rest h
  rcases filterMap_eq_some.1 h with ⟨a, ha, hb⟩
  rcases hr ha with ⟨hbs, htail⟩
  exact ⟨hbs, fun tail => filterMap_eq_some.2 ⟨a, htail tail, hb⟩⟩

theorem withUsed_eq_some {r : Reader α} {bs : Bytes} {a : α} {u used rest : Bytes} :
    withUsed r bs = some ((a, u), used, rest) ↔ r bs = some (a, used, rest) ∧ u = used := by
  unfold withUsed
  cases h : r bs with
  | none => simp
  | some x =>
      rcases x with ⟨a0, used0, rest0⟩
      constructor
      · intro hEq
        cases hEq
        exact ⟨rfl, rfl⟩
      · rintro ⟨hEq, rfl⟩
        cases hEq
        rfl

theorem Local.withUsed {r : Reader α} (hr : r.Local) : (withUsed r).Local := by
  intro bs x used rest h
  rcases x with ⟨a, u⟩
  rcases withUsed_eq_some.1 h with ⟨ha, rfl⟩
  rcases hr ha with ⟨hbs, htail⟩
  exact ⟨hbs, fun tail => withUsed_eq_some.2 ⟨htail tail, rfl⟩⟩

theorem andThen_eq_some {r : Reader α} {f : α → Reader β} {bs : Bytes} {b : β}
    {used rest : Bytes} :
    andThen r f bs = some (b, used, rest) ↔
      ∃ a u mid u', r bs = some (a, u, mid) ∧ f a mid = some (b, u', rest) ∧ used = u ++ u' := by
  unfold andThen
  cases h : r bs with
  | none => simp
  | some x =>
      rcases x with ⟨a, u, mid⟩
      cases hf : f a mid with
      | none =>
          constructor
          · intro hEq
            simp [hf] at hEq
          · rintro ⟨a', u0, mid', u', hEq, hb, _⟩
            cases hEq
            simp [hf] at hb
      | some y =>
          rcases y with ⟨b0, u', rest'⟩
          constructor
          · intro hEq
            simp only [hf] at hEq
            cases hEq
            exact ⟨a, u, mid, u', rfl, hf, rfl⟩
          · rintro ⟨a', u0, mid', u1, hEq, hb, rfl⟩
            cases hEq
            simp only [hf] at hb ⊢
            cases hb
            rfl

theorem Local.andThen {r : Reader α} {f : α → Reader β} (hr : r.Local)
    (hf : ∀ a, (f a).Local) : (andThen r f).Local := by
  intro bs b used rest h
  rcases andThen_eq_some.1 h with ⟨a, u, mid, u', ha, hb, rfl⟩
  rcases hr ha with ⟨hbs, htail⟩
  rcases hf a hb with ⟨hmid, htail'⟩
  refine ⟨by simp [hbs, hmid], ?_⟩
  intro tail
  refine andThen_eq_some.2 ⟨a, u, u' ++ tail, u', ?_, htail' tail, rfl⟩
  simpa using htail (u' ++ tail)

theorem Progress.andThen {r : Reader α} {f : α → Reader β} (hr : r.Progress) :
    (andThen r f).Progress := by
  intro bs b used rest h
  rcases andThen_eq_some.1 h with ⟨a, u, mid, u', ha, _, rfl⟩
  have hu : u ≠ [] := hr ha
  simp [hu]

/-! ## Whole buffers -/

/-- Reads values until the buffer ends, `n` of them at most. -/
def allUpTo (r : Reader α) : Nat → Bytes → Option (List α)
  | 0, bs => if bs = [] then some [] else none
  | n + 1, bs =>
      if bs = [] then some []
      else
        match r bs with
        | some (a, _, rest) =>
            match allUpTo r n rest with
            | some as => some (a :: as)
            | none => none
        | none => none

/-- Reads a whole buffer as a sequence of values. -/
def all (r : Reader α) (bs : Bytes) : Option (List α) :=
  allUpTo r bs.length bs

theorem allUpTo_sound {r : Reader α} (hl : r.Local) :
    ∀ {n : Nat} {bs : Bytes} {as : List α}, allUpTo r n bs = some as →
      ∃ us : List Bytes, bs = us.flatten ∧ List.Forall₂ r.Exact as us := by
  intro n
  induction n with
  | zero =>
      intro bs as h
      by_cases hbs : bs = []
      · have hEq : some [] = some as := by
          simpa [allUpTo, hbs] using h
        cases hEq
        exact ⟨[], by simp [hbs], List.Forall₂.nil⟩
      · simp [allUpTo, hbs] at h
  | succ n ih =>
      intro bs as h
      by_cases hbs : bs = []
      · have hEq : some [] = some as := by
          simpa [allUpTo, hbs] using h
        cases hEq
        exact ⟨[], by simp [hbs], List.Forall₂.nil⟩
      · cases hr : r bs with
        | none => simp [allUpTo, hbs, hr] at h
        | some x =>
            rcases x with ⟨a, used, rest⟩
            cases hn : allUpTo r n rest with
            | none => simp [allUpTo, hbs, hr, hn] at h
            | some as' =>
                have hEq : some (a :: as') = some as := by
                  simpa [allUpTo, hbs, hr, hn] using h
                cases hEq
                rcases ih hn with ⟨us, hus, hex⟩
                refine ⟨used :: us, ?_, List.Forall₂.cons (hl.exact hr) hex⟩
                simpa [hus] using (hl hr).1

theorem allUpTo_complete {r : Reader α} (hp : r.Progress) :
    ∀ {as : List α} {us : List Bytes}, List.Forall₂ r.Exact as us →
      ∀ {n : Nat}, us.flatten.length ≤ n → allUpTo r n us.flatten = some as := by
  intro as us h
  induction h with
  | nil =>
      intro n _
      cases n with
      | zero => simp [allUpTo]
      | succ n => simp [allUpTo]
  | cons ha htail ih =>
      rename_i a u as us
      intro n hn
      have hne : u ≠ [] := ha.ne_nil hp
      have hpos : 0 < u.length := List.length_pos_iff.2 hne
      have hlen : u.length + us.flatten.length ≤ n := by
        simpa using hn
      cases n with
      | zero => omega
      | succ n =>
          have hrec : allUpTo r n us.flatten = some as := ih (by omega)
          have hr : r (u ++ us.flatten) = some (a, u, us.flatten) := ha us.flatten
          simp only [List.flatten_cons, allUpTo, List.append_eq_nil_iff, hne, false_and,
            if_false, hr, hrec]

/-- A buffer reads as `as` exactly when it is a concatenation of encodings of them. -/
theorem all_eq_some_iff {r : Reader α} (hl : r.Local) (hp : r.Progress) {bs : Bytes}
    {as : List α} :
    r.all bs = some as ↔ ∃ us : List Bytes, bs = us.flatten ∧ List.Forall₂ r.Exact as us := by
  constructor
  · intro h
    exact allUpTo_sound hl h
  · rintro ⟨us, rfl, hex⟩
    exact allUpTo_complete hp hex (Nat.le_refl _)

end Reader
end FunctionWasm

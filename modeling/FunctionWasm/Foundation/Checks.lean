import Mathlib.Order.Defs.PartialOrder

/-!
# Checks — sequences of checks that stop at the first refusal

* `bind_eq_ok` takes a sequence of two apart, `checkAll` checks everything on a list.
* `unlessRefused` is what comes after an answer of something that can fail as well.
* `mem_of_mapM_ok` says where the results of a list come from.
-/

namespace FunctionWasm

variable {ε α β : Type}

/-- A sequence succeeds when its first part does and the rest does on its result. -/
theorem bind_eq_ok {x : Except ε α} {f : α → Except ε β} {b : β} :
    x >>= f = .ok b ↔ ∃ a, x = .ok a ∧ f a = .ok b := by
  constructor
  · intro h
    cases x with
    | error e => cases h
    | ok a => exact ⟨a, rfl, h⟩
  · rintro ⟨a, rfl, hb⟩
    exact hb

theorem bind_eq_error {x : Except ε α} {f : α → Except ε β} {e : ε} :
    x >>= f = .error e ↔ x = .error e ∨ ∃ a, x = .ok a ∧ f a = .error e := by
  cases x with
  | error e' => simp [Bind.bind, Except.bind]
  | ok a => simp [Bind.bind, Except.bind]

@[simp] theorem ok_bind {a : α} {f : α → Except ε β} : Except.ok a >>= f = f a := rfl

/-- A check before something else. -/
theorem check_bind_eq_ok {check : Except ε Unit} {x : Except ε β} {b : β} :
    (check >>= fun _ => x) = .ok b ↔ check = .ok () ∧ x = .ok b := by
  rw [bind_eq_ok]
  constructor
  · rintro ⟨⟨⟩, hcheck, hx⟩
    exact ⟨hcheck, hx⟩
  · rintro ⟨hcheck, hx⟩
    exact ⟨(), hcheck, hx⟩

/-- The rest of a computation that can fail, after an answer that may be a refusal. -/
def unlessRefused {φ : Type} (x : Except φ (Except ε α)) (f : α → Except φ (Except ε β)) :
    Except φ (Except ε β) :=
  match x with
  | .error fault => .error fault
  | .ok (.error e) => .ok (.error e)
  | .ok (.ok a) => f a

theorem unlessRefused_eq_ok {φ : Type} {x : Except φ (Except ε α)}
    {f : α → Except φ (Except ε β)} {b : β} :
    unlessRefused x f = .ok (.ok b) ↔ ∃ a, x = .ok (.ok a) ∧ f a = .ok (.ok b) := by
  unfold unlessRefused
  rcases x with fault | e | a
  · simp
  · simp
  · simp

/-- Refuses with `e` what does not hold. -/
def demand (b : Bool) (e : ε) : Except ε Unit :=
  if b then .ok () else .error e

@[simp] theorem demand_eq_ok {b : Bool} {e : ε} : demand b e = .ok () ↔ b = true := by
  cases b <;> simp [demand]

/-- Refuses with `e` where there is nothing. -/
def orError (e : ε) : Option α → Except ε α
  | some a => .ok a
  | none => .error e

@[simp] theorem orError_eq_ok {e : ε} {x : Option α} {a : α} :
    orError e x = .ok a ↔ x = some a := by
  cases x <;> simp [orError]

@[simp] theorem mapError_ok {δ : Type} {f : ε → δ} {a : α} :
    (Except.ok a : Except ε α).mapError f = .ok a := rfl

@[simp] theorem mapError_error {δ : Type} {f : ε → δ} {e : ε} :
    (Except.error e : Except ε α).mapError f = .error (f e) := rfl

theorem mapError_eq_error {δ : Type} {f : ε → δ} {x : Except ε α} {d : δ} :
    x.mapError f = .error d ↔ ∃ e, x = .error e ∧ f e = d := by
  cases x with
  | error e => simp
  | ok a => simp

theorem mapError_eq_ok {δ : Type} {f : ε → δ} {x : Except ε α} {a : α} :
    x.mapError f = .ok a ↔ x = .ok a := by
  cases x <;> simp

/-- Checks one after the other. -/
def checkAll (check : α → Except ε Unit) : List α → Except ε Unit
  | [] => .ok ()
  | a :: rest => do
      check a
      checkAll check rest

theorem checkAll_congr {check check' : α → Except ε Unit} {l : List α}
    (h : ∀ a ∈ l, check a = check' a) : checkAll check l = checkAll check' l := by
  induction l with
  | nil => rfl
  | cons a rest ih =>
      rw [List.forall_mem_cons] at h
      rw [checkAll, checkAll, h.1, ih h.2]

theorem checkAll_eq_ok {check : α → Except ε Unit} {l : List α} :
    checkAll check l = .ok () ↔ ∀ a ∈ l, check a = .ok () := by
  induction l with
  | nil => simp [checkAll]
  | cons a rest ih =>
      rw [checkAll, bind_eq_ok, List.forall_mem_cons, ← ih]
      constructor
      · rintro ⟨⟨⟩, ha, hrest⟩
        exact ⟨ha, hrest⟩
      · rintro ⟨ha, hrest⟩
        exact ⟨(), ha, hrest⟩

/-- Each of the results was computed for one of the elements. -/
theorem mem_of_mapM_ok {f : α → Except ε β} {l : List α} {out : List β}
    (h : l.mapM f = .ok out) : ∀ b ∈ out, ∃ a ∈ l, f a = .ok b := by
  induction l generalizing out with
  | nil =>
      cases h
      simp
  | cons a rest ih =>
      rw [List.mapM_cons] at h
      rcases bind_eq_ok.1 h with ⟨c, hc, h⟩
      rcases bind_eq_ok.1 h with ⟨cs, hcs, heq⟩
      cases heq
      intro b hb
      rcases List.mem_cons.1 hb with rfl | hb
      · exact ⟨a, by simp, hc⟩
      · rcases ih hcs b hb with ⟨d, hd, hfd⟩
        exact ⟨d, List.mem_cons_of_mem _ hd, hfd⟩

/-- Each of the elements has its result. -/
theorem exists_of_mapM_ok {f : α → Except ε β} {l : List α} {out : List β}
    (h : l.mapM f = .ok out) : ∀ a ∈ l, ∃ b ∈ out, f a = .ok b := by
  induction l generalizing out with
  | nil => simp
  | cons a rest ih =>
      rw [List.mapM_cons] at h
      rcases bind_eq_ok.1 h with ⟨c, hc, h⟩
      rcases bind_eq_ok.1 h with ⟨cs, hcs, heq⟩
      cases heq
      intro x hx
      rcases List.mem_cons.1 hx with rfl | hx
      · exact ⟨c, List.mem_cons_self, hc⟩
      · rcases ih hcs x hx with ⟨b, hb, hfb⟩
        exact ⟨b, List.mem_cons_of_mem _ hb, hfb⟩

theorem exists_mapM_ok {f : α → Except ε β} {l : List α} (h : ∀ a ∈ l, ∃ b, f a = .ok b) :
    ∃ out, l.mapM f = .ok out := by
  induction l with
  | nil => exact ⟨[], rfl⟩
  | cons a rest ih =>
      rcases h a (by simp) with ⟨b, hb⟩
      rcases ih fun a ha => h a (List.mem_cons_of_mem _ ha) with ⟨bs, hbs⟩
      exact ⟨b :: bs, by rw [List.mapM_cons, hb, hbs]; rfl⟩

end FunctionWasm

import Mathlib.Data.List.Basic

/-!
# Program — programs that ask their surroundings

A program ends with a result, or asks something and goes on with the answer.  What answers is not
said: other programs may have gone on in between, so that every answer is possible.

* `Program.Leads` is what is left of a program after some questions and answers.
* `Program.Meets` says that every question is allowed after those before it, and what holds of the
  result, whatever the answers are among those that may come; `meets_bind` is its rule for one
  program after another.
* `Program.Alike` relates two programs that ask the same, as long as no answer is a telling one;
  `sameAfter_of_alike` says it of what they come to.
* `Program.run` lets a state answer; that is one of the ways that `Leads` allows.
-/

namespace FunctionWasm

/-- A program over questions `Op` with answers `Ret`. -/
inductive Program (Op : Type) (Ret : Op → Type) (α : Type) : Type
  | done (a : α)
  | ask (op : Op) (next : Ret op → Program Op Ret α)

namespace Program

variable {Op : Type} {Ret : Op → Type} {α β σ : Type}

def bind : Program Op Ret α → (α → Program Op Ret β) → Program Op Ret β
  | done a, f => f a
  | ask op next, f => ask op fun r => (next r).bind f

instance : Monad (Program Op Ret) where
  pure := done
  bind := bind

@[simp] theorem done_bind (a : α) (f : α → Program Op Ret β) : done a >>= f = f a := rfl

@[simp] theorem ask_bind (op : Op) (next : Ret op → Program Op Ret α)
    (f : α → Program Op Ret β) : ask op next >>= f = ask op fun r => next r >>= f := rfl

@[simp] theorem pure_eq_done (a : α) : (pure a : Program Op Ret α) = done a := rfl

/-! ## Runs -/

/-- A question and its answer. -/
abbrev Event (Op : Type) (Ret : Op → Type) : Type := (op : Op) × Ret op

/-- After these questions and answers, in order, this is what is left. -/
inductive Leads : Program Op Ret α → List (Event Op Ret) → Program Op Ret α → Prop
  | nil (p : Program Op Ret α) : Leads p [] p
  | cons {op : Op} {next : Ret op → Program Op Ret α} {r : Ret op} {t : List (Event Op Ret)}
      {q : Program Op Ret α} : Leads (next r) t q → Leads (ask op next) (⟨op, r⟩ :: t) q

/-! ## What a program asks and answers -/

/-- After `h`, every question is allowed by what came before it, and the result is as stated, as
long as nothing is answered that is not among the answers. -/
def Meets (answers : Event Op Ret → Prop) (allowed : List (Event Op Ret) → Op → Prop)
    (post : List (Event Op Ret) → α → Prop) : Program Op Ret α → List (Event Op Ret) → Prop
  | done a, h => post h a
  | ask op next, h =>
      allowed h op ∧
        ∀ r, answers ⟨op, r⟩ → Meets answers allowed post (next r) (h ++ [⟨op, r⟩])

section Meets

variable {answers : Event Op Ret → Prop} {allowed : List (Event Op Ret) → Op → Prop}
variable {h : List (Event Op Ret)}

theorem meets_bind {post : List (Event Op Ret) → β → Prop} {p : Program Op Ret α}
    {f : α → Program Op Ret β} :
    Meets answers allowed post (p >>= f) h ↔
      Meets answers allowed (fun h a => Meets answers allowed post (f a) h) p h := by
  induction p generalizing h with
  | done a => exact Iff.rfl
  | ask op next ih =>
      exact and_congr_right fun _ => forall_congr' fun r => imp_congr_right fun _ => ih r

theorem Meets.mono {post post' : List (Event Op Ret) → α → Prop} {p : Program Op Ret α}
    (hp : Meets answers allowed post p h) (hpost : ∀ h a, post h a → post' h a) :
    Meets answers allowed post' p h := by
  induction p generalizing h with
  | done a => exact hpost h a hp
  | ask op next ih => exact ⟨hp.1, fun r hr => ih r (hp.2 r hr)⟩

/-- What is left of a run still meets it. -/
theorem Meets.leads {post : List (Event Op Ret) → α → Prop} {p q : Program Op Ret α}
    {t : List (Event Op Ret)} (hp : Meets answers allowed post p h) (ht : Leads p t q)
    (hanswers : ∀ e ∈ t, answers e) : Meets answers allowed post q (h ++ t) := by
  induction ht generalizing h with
  | nil p =>
      rw [List.append_nil]
      exact hp
  | @cons op next r t q _ ih =>
      rw [List.forall_mem_cons] at hanswers
      have hnext := ih (hp.2 r hanswers.1) hanswers.2
      rwa [List.append_assoc, List.singleton_append] at hnext

/-- In every run from the start, a question is allowed by those before it. -/
theorem Meets.asked {post : List (Event Op Ret) → α → Prop} {p : Program Op Ret α} {op : Op}
    {next : Ret op → Program Op Ret α} {t : List (Event Op Ret)}
    (hp : Meets answers allowed post p []) (ht : Leads p t (ask op next))
    (hanswers : ∀ e ∈ t, answers e) : allowed t op :=
  (hp.leads ht hanswers).1

/-- In every run from the start, the result is as stated. -/
theorem Meets.answered {post : List (Event Op Ret) → α → Prop} {p : Program Op Ret α} {a : α}
    {t : List (Event Op Ret)} (hp : Meets answers allowed post p []) (ht : Leads p t (done a))
    (hanswers : ∀ e ∈ t, answers e) : post t a :=
  hp.leads ht hanswers

end Meets

/-! ## Programs that cannot be told apart -/

/-- Two programs that ask the same and end with related results, unless an answer is telling. -/
inductive Alike (R : α → β → Prop) (telling : Event Op Ret → Prop) :
    Program Op Ret α → Program Op Ret β → Prop
  | done {a : α} {b : β} : R a b → Alike R telling (done a) (done b)
  | ask {op : Op} {next : Ret op → Program Op Ret α} {next' : Ret op → Program Op Ret β} :
      (∀ r, ¬ telling ⟨op, r⟩ → Alike R telling (next r) (next' r)) →
        Alike R telling (ask op next) (ask op next')

section Alike

variable {R : α → β → Prop} {telling : Event Op Ret → Prop}

theorem Alike.bind {γ δ : Type} {S : γ → δ → Prop} {p : Program Op Ret α} {p' : Program Op Ret β}
    {f : α → Program Op Ret γ} {f' : β → Program Op Ret δ} (hp : Alike R telling p p')
    (hf : ∀ a b, R a b → Alike S telling (f a) (f' b)) :
    Alike S telling (p >>= f) (p' >>= f') := by
  induction hp with
  | done hab => exact hf _ _ hab
  | ask _ ih => exact .ask ih

theorem Alike.of_eq {R : α → α → Prop} (hR : ∀ a, R a a) (p : Program Op Ret α) :
    Alike R telling p p := by
  induction p with
  | done a => exact .done (hR a)
  | ask op next ih => exact .ask fun r _ => ih r

theorem Alike.symm {p : Program Op Ret α} {p' : Program Op Ret β} (hp : Alike R telling p p') :
    Alike (fun b a => R a b) telling p' p := by
  induction hp with
  | done hab => exact .done hab
  | ask _ ih => exact .ask ih

/-- A run of the one is a run of the other. -/
theorem Alike.leads {p q : Program Op Ret α} {p' : Program Op Ret β} {t : List (Event Op Ret)}
    (hp : Alike R telling p p') (ht : Leads p t q) (hquiet : ∀ e ∈ t, ¬ telling e) :
    ∃ q', Leads p' t q' ∧ Alike R telling q q' := by
  induction ht generalizing p' with
  | nil p => exact ⟨p', .nil p', hp⟩
  | @cons op next r t q _ ih =>
      cases hp with
      | ask hnext =>
          rcases ih (hnext r (hquiet _ List.mem_cons_self))
            (fun e he => hquiet e (List.mem_cons_of_mem _ he)) with ⟨q', ht', hq⟩
          exact ⟨q', .cons ht', hq⟩

/-- After these questions and answers both end with the same, or both ask the same. -/
def SameAfter (t : List (Event Op Ret)) (p p' : Program Op Ret α) : Prop :=
  (∀ a, Leads p t (done a) ↔ Leads p' t (done a)) ∧
    ∀ op, (∃ next, Leads p t (ask op next)) ↔ ∃ next, Leads p' t (ask op next)

theorem sameAfter_of_alike {p p' : Program Op Ret α} {t : List (Event Op Ret)}
    (hp : Alike Eq telling p p') (hquiet : ∀ e ∈ t, ¬ telling e) : SameAfter t p p' := by
  have hsymm : Alike Eq telling p' p := by
    have hflip : (fun b a : α => a = b) = Eq := funext fun b => funext fun a => propext eq_comm
    rw [← hflip]
    exact hp.symm
  have hdone : ∀ {p p' : Program Op Ret α}, Alike Eq telling p p' → ∀ a, Leads p t (done a) →
      Leads p' t (done a) := by
    intro p p' hp a ht
    rcases hp.leads ht hquiet with ⟨q, hq, halike⟩
    cases halike with
    | done heq => exact heq ▸ hq
  have hask : ∀ {p p' : Program Op Ret α}, Alike Eq telling p p' → ∀ op,
      (∃ next, Leads p t (ask op next)) → ∃ next, Leads p' t (ask op next) := by
    rintro p p' hp op ⟨next, ht⟩
    rcases hp.leads ht hquiet with ⟨q, hq, halike⟩
    cases halike with
    | ask _ => exact ⟨_, hq⟩
  exact ⟨fun a => ⟨hdone hp a, hdone hsymm a⟩, fun op => ⟨hask hp op, hask hsymm op⟩⟩

end Alike

/-! ## A state that answers -/

/-- A run where a state answers, with what was asked. -/
def run (answer : (op : Op) → σ → Ret op × σ) : Program Op Ret α → σ →
    List (Event Op Ret) × α × σ
  | done a, s => ([], a, s)
  | ask op next, s =>
      let (r, s) := answer op s
      let (t, a, s) := run answer (next r) s
      (⟨op, r⟩ :: t, a, s)

theorem leads_run (answer : (op : Op) → σ → Ret op × σ) (p : Program Op Ret α) (s : σ) :
    Leads p (p.run answer s).1 (done (p.run answer s).2.1) := by
  induction p generalizing s with
  | done a => exact .nil _
  | ask op next ih => exact .cons (ih _ _)

end Program
end FunctionWasm

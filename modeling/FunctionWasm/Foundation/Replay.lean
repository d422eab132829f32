import Mathlib.Order.Monotone.Defs

/-!
# Replay — computations that ask their environment

A computation runs on a state in which questions and answers pile up.  Where an answer does not
depend on when its question is asked, the result does not depend on when the computation is run.

* `Settles` says so of a computation: its runs that end in a state that fits return the same.
* `Settles.bind` takes a computation apart after its first part.
-/

namespace FunctionWasm

variable {σ α β : Type} [Preorder σ]

/-- A computation only adds to the state, and all its runs to states that fit return the same. -/
structure Settles (fits : σ → Prop) (op : σ → α × σ) : Prop where
  grows : ∀ s, s ≤ (op s).2
  same : ∀ s s', fits (op s).2 → fits (op s').2 → (op s).1 = (op s').1

namespace Settles

variable {fits : σ → Prop} {op : σ → α × σ} {f : σ → β × σ}

theorem pure (a : α) : Settles fits fun s => (a, s) where
  grows := fun s => le_refl s
  same := fun _ _ _ _ => rfl

/-- A computation settles when its first part does and the rest does after every result of that. -/
theorem bind (hfits : Antitone fits) (hop : Settles fits op)
    (hf : ∀ a, ∃ next, Settles fits next ∧ ∀ s t, op s = (a, t) → f s = next t) :
    Settles fits f := by
  have hgrows : ∀ s, (op s).2 ≤ (f s).2 := by
    intro s
    rcases hf (op s).1 with ⟨next, hnext, heq⟩
    rw [heq s _ rfl]
    exact hnext.grows _
  constructor
  · intro s
    exact le_trans (hop.grows s) (hgrows s)
  · intro s s' hs hs'
    -- what fits in the end fitted before the rest
    have hfirst : op s' = ((op s).1, (op s').2) := by
      rw [hop.same s s' (hfits (hgrows s) hs) (hfits (hgrows s') hs')]
    rcases hf (op s).1 with ⟨next, hnext, heq⟩
    rw [heq s _ rfl] at hs ⊢
    rw [heq s' _ hfirst] at hs' ⊢
    exact hnext.same _ _ hs hs'

end Settles
end FunctionWasm

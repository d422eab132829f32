import Mathlib.Logic.Relation
import Mathlib.Data.List.Basic

/-!
# DotSegments — removing the segments of a path that name nothing

A segment of a path names an entry, goes up to the parent or does nothing.  A path is cleaned by
removals, one after the other and anywhere in it.

* `Removal` is one removal: of a segment that does nothing, of a name and the step up from it, or of
  a step up from the root.
* `resolve` reads a path from left to right and keeps a stack.
* `cleaned_iff` says that removals in whatever order end in one path, and that `resolve` finds it.
* `Stacked` is the shape of a stack: steps up that stay, and after them names.
-/

namespace FunctionWasm

inductive SegmentKind where
  | skipped
  | up
  | name
  deriving DecidableEq

namespace DotSegments

open Relation

variable {σ : Type} (kind : σ → SegmentKind) (rooted : Bool)

inductive Removal : List σ → List σ → Prop where
  | skipped (front : List σ) {x : σ} (rest : List σ) :
      kind x = .skipped → Removal (front ++ x :: rest) (front ++ rest)
  | parent (front : List σ) {x y : σ} (rest : List σ) :
      kind x = .name → kind y = .up → Removal (front ++ x :: y :: rest) (front ++ rest)
  | root {y : σ} (rest : List σ) :
      rooted = true → kind y = .up → Removal (y :: rest) rest

/-- A path that removals lead to and from which they lead no further. -/
def Cleaned (segs out : List σ) : Prop :=
  ReflTransGen (Removal kind rooted) segs out ∧ ∀ next, ¬ Removal kind rooted out next

/-- A segment onto those that are kept so far. -/
def push (out : List σ) (x : σ) : List σ :=
  match kind x with
  | .skipped => out
  | .name => out ++ [x]
  | .up =>
      match out.getLast? with
      | some y => if kind y = .name then out.dropLast else out ++ [x]
      | none => if rooted then out else out ++ [x]

def resolve (segs : List σ) : List σ := segs.foldl (push kind rooted) []

variable {kind rooted}

theorem push_skipped {out : List σ} {x : σ} (h : kind x = .skipped) :
    push kind rooted out x = out := by
  simp [push, h]

theorem push_name {out : List σ} {x : σ} (h : kind x = .name) :
    push kind rooted out x = out ++ [x] := by
  simp [push, h]

theorem push_parent {out : List σ} {x y : σ} (hx : kind x = .name) (hy : kind y = .up) :
    push kind rooted (out ++ [x]) y = out := by
  simp [push, hx, hy]

theorem push_up {out : List σ} {y : σ} (hout : ∀ x ∈ out, kind x = .up) (hy : kind y = .up)
    (hrooted : rooted = false) : push kind rooted out y = out ++ [y] := by
  cases hlast : out.getLast? with
  | none => simp [push, hy, hlast, hrooted]
  | some x =>
      have hx : kind x = .up := hout x (List.mem_of_getLast? hlast)
      simp [push, hy, hlast, hx]

theorem push_root {y : σ} (hy : kind y = .up) (hrooted : rooted = true) :
    push kind rooted [] y = [] := by
  simp [push, hy, hrooted]

theorem mem_push {out : List σ} {x t : σ} (h : t ∈ push kind rooted out x) :
    t ∈ out ∨ t = x ∧ kind x ≠ .skipped := by
  have hconcat : t ∈ out ++ [x] → t ∈ out ∨ t = x := by
    intro hmem
    simpa using hmem
  cases hx : kind x with
  | skipped =>
      rw [push_skipped hx] at h
      exact .inl h
  | name =>
      rw [push_name hx] at h
      exact (hconcat h).imp_right fun heq => ⟨heq, by simp⟩
  | up =>
      unfold push at h
      simp only [hx] at h
      split at h
      · split at h
        · exact .inl (List.dropLast_subset out h)
        · exact (hconcat h).imp_right fun heq => ⟨heq, by simp⟩
      · split at h
        · exact .inl h
        · exact (hconcat h).imp_right fun heq => ⟨heq, by simp⟩

/-- What is kept are segments, and none that does nothing. -/
theorem mem_resolve {segs : List σ} {t : σ} (h : t ∈ resolve kind rooted segs) :
    t ∈ segs ∧ kind t ≠ .skipped := by
  have hfold : ∀ out, t ∈ segs.foldl (push kind rooted) out →
      t ∈ out ∨ t ∈ segs ∧ kind t ≠ .skipped := by
    clear h
    induction segs with
    | nil => exact fun out h => .inl h
    | cons x rest ih =>
        intro out h
        rcases ih _ h with hmem | ⟨hmem, hkept⟩
        · rcases mem_push hmem with hmem | ⟨rfl, hkept⟩
          · exact .inl hmem
          · exact .inr ⟨List.mem_cons_self, hkept⟩
        · exact .inr ⟨List.mem_cons_of_mem _ hmem, hkept⟩
  exact (hfold [] h).resolve_left fun hmem => nomatch hmem

/-- Names stay as they are. -/
theorem foldl_names {segs : List σ} (h : ∀ x ∈ segs, kind x = .name) (out : List σ) :
    segs.foldl (push kind rooted) out = out ++ segs := by
  induction segs generalizing out with
  | nil => simp
  | cons x rest ih =>
      obtain ⟨hx, hrest⟩ := List.forall_mem_cons.1 h
      rw [List.foldl_cons, push_name hx, ih hrest, List.append_assoc]
      rfl

/-! ## Removals and the stack -/

theorem Removal.length_lt {s t : List σ} (h : Removal kind rooted s t) : t.length < s.length := by
  cases h with
  | skipped front rest => simp
  | parent front rest =>
      simp only [List.length_append, List.length_cons]
      omega
  | root rest => simp

/-- A removal does not show on the stack. -/
theorem Removal.resolve_eq {s t : List σ} (h : Removal kind rooted s t) :
    resolve kind rooted s = resolve kind rooted t := by
  unfold resolve
  cases h with
  | skipped front rest hx =>
      rw [List.foldl_append, List.foldl_append, List.foldl_cons, push_skipped hx]
  | parent front rest hx hy =>
      rw [List.foldl_append, List.foldl_append, List.foldl_cons, List.foldl_cons, push_name hx,
        push_parent hx hy]
  | root rest hrooted hy => rw [List.foldl_cons, push_root hy hrooted]

theorem resolve_eq_of_removals {s t : List σ} (h : ReflTransGen (Removal kind rooted) s t) :
    resolve kind rooted s = resolve kind rooted t := by
  induction h with
  | refl => rfl
  | tail _ hstep ih => exact ih.trans hstep.resolve_eq

theorem length_le_of_removals {s t : List σ} (h : ReflTransGen (Removal kind rooted) s t) :
    t.length ≤ s.length := by
  induction h with
  | refl => exact Nat.le_refl _
  | tail _ hstep ih => exact Nat.le_trans (Nat.le_of_lt hstep.length_lt) ih

/-- What a segment does to the stack is a removal, or nothing but to put it there. -/
theorem push_removal (out : List σ) (x : σ) (rest : List σ) :
    ReflTransGen (Removal kind rooted) (out ++ x :: rest) (push kind rooted out x ++ rest) := by
  cases hx : kind x with
  | skipped =>
      rw [push_skipped hx]
      exact .single (.skipped out rest hx)
  | name =>
      rw [push_name hx, List.append_assoc]
      exact .refl
  | up =>
      unfold push
      simp only [hx]
      cases hlast : out.getLast? with
      | none =>
          obtain rfl := List.getLast?_eq_none_iff.1 hlast
          dsimp only
          split
          · next hrooted => exact .single (.root rest hrooted hx)
          · exact .refl
      | some y =>
          obtain ⟨front, rfl⟩ := List.getLast?_eq_some_iff.1 hlast
          dsimp only
          split
          · next hy =>
              rw [List.dropLast_concat, List.append_assoc]
              exact .single (.parent front rest hy hx)
          · rw [List.append_assoc (front ++ [y])]
            exact .refl

theorem foldl_removal (segs out : List σ) :
    ReflTransGen (Removal kind rooted) (out ++ segs) (segs.foldl (push kind rooted) out) := by
  induction segs generalizing out with
  | nil =>
      rw [List.append_nil]
      exact .refl
  | cons x rest ih => exact (push_removal out x rest).trans (ih _)

theorem resolve_removals (segs : List σ) :
    ReflTransGen (Removal kind rooted) segs (resolve kind rooted segs) :=
  foldl_removal segs []

theorem resolve_resolve (segs : List σ) :
    resolve kind rooted (resolve kind rooted segs) = resolve kind rooted segs :=
  (resolve_eq_of_removals (resolve_removals segs)).symm

/-- Nothing is left to remove on the stack: what would be left is shorter and has the same stack. -/
theorem resolve_irreducible (segs next : List σ) :
    ¬ Removal kind rooted (resolve kind rooted segs) next := by
  intro h
  have hsame : resolve kind rooted next = resolve kind rooted segs :=
    h.resolve_eq.symm.trans (resolve_resolve segs)
  have hremovals : ReflTransGen (Removal kind rooted) next (resolve kind rooted next) :=
    resolve_removals next
  have hle := length_le_of_removals hremovals
  have hlt := h.length_lt
  rw [hsame] at hle
  omega

/-- Removals end in one path, whatever their order. -/
theorem cleaned_iff {segs out : List σ} :
    Cleaned kind rooted segs out ↔ out = resolve kind rooted segs := by
  constructor
  · rintro ⟨hremovals, hnone⟩
    have hself : resolve kind rooted out = out := by
      rcases (resolve_removals out).cases_head with heq | ⟨next, hfirst, -⟩
      · exact heq.symm
      · exact absurd hfirst (hnone next)
    rw [resolve_eq_of_removals hremovals, hself]
  · rintro rfl
    exact ⟨resolve_removals segs, resolve_irreducible segs⟩

/-! ## The shape of a stack -/

variable (kind rooted)

/-- So many steps up, and after them names; there are no steps up from the root. -/
structure Stacked (ups : Nat) (out : List σ) : Prop where
  le : ups ≤ out.length
  steps : ∀ x ∈ out.take ups, kind x = .up
  names : ∀ x ∈ out.drop ups, kind x = .name
  root : rooted = true → ups = 0

variable {kind rooted} {ups : Nat} {out : List σ}

theorem stacked_nil : Stacked kind rooted 0 [] where
  le := Nat.le_refl 0
  steps := fun _ h => nomatch h
  names := fun _ h => nomatch h
  root := fun _ => rfl

theorem Stacked.name (h : Stacked kind rooted ups out) {x : σ} (hx : kind x = .name) :
    Stacked kind rooted ups (out ++ [x]) where
  le := by
    have hle := h.le
    simp only [List.length_append]
    omega
  steps := by
    rw [List.take_append_of_le_length h.le]
    exact h.steps
  names := by
    rw [List.drop_append_of_le_length h.le]
    intro y hy
    rcases List.mem_append.1 hy with hy | hy
    · exact h.names y hy
    · rw [List.mem_singleton.1 hy, hx]
  root := h.root

/-- On a stack without names a step up stays. -/
theorem Stacked.up (h : Stacked kind rooted ups out) (hlength : out.length ≤ ups) {y : σ}
    (hy : kind y = .up) (hrooted : rooted = false) :
    Stacked kind rooted (out.length + 1) (out ++ [y]) ∧ push kind rooted out y = out ++ [y] := by
  have hall : ∀ x ∈ out, kind x = .up := by
    have hsteps := h.steps
    rwa [List.take_of_length_le hlength] at hsteps
  refine ⟨⟨by simp, ?_, by simp, by simp [hrooted]⟩, push_up hall hy hrooted⟩
  intro x hx
  rcases List.mem_append.1 (List.mem_of_mem_take hx) with hx | hx
  · exact hall x hx
  · rw [List.mem_singleton.1 hx, hy]

/-- A step up takes the last name back. -/
theorem Stacked.parent (h : Stacked kind rooted ups out) (hlength : ups < out.length) {y : σ}
    (hy : kind y = .up) :
    Stacked kind rooted ups out.dropLast ∧ push kind rooted out y = out.dropLast := by
  have hne : out ≠ [] := List.ne_nil_of_length_pos (Nat.zero_lt_of_lt hlength)
  obtain ⟨front, x, rfl⟩ : ∃ front x, out = front ++ [x] :=
    ⟨out.dropLast, out.getLast hne, (List.dropLast_append_getLast hne).symm⟩
  have hle : ups ≤ front.length := by
    simp at hlength
    omega
  have hnames := h.names
  rw [List.drop_append_of_le_length hle] at hnames
  have hx : kind x = .name := hnames x (by simp)
  rw [List.dropLast_concat]
  refine ⟨⟨hle, ?_, fun z hz => hnames z (List.mem_append_left _ hz), h.root⟩, push_parent hx hy⟩
  have hsteps := h.steps
  rwa [List.take_append_of_le_length hle] at hsteps

end DotSegments
end FunctionWasm

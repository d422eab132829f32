import Mathlib.Data.List.MinMax
import Mathlib.Data.List.Nodup
import FunctionWasm.Cache.ModuleCache

/-!
# MemoryTier — what the memory tier of the module cache holds

Compiled modules are kept in memory up to a number, and as long as they are used.  Lookups and
inserts come in any order; what they leave is compared with what has happened.

* `lastPut` and `lastUse` read a history, `TierRun` is a history with the tier that it leaves.
* `TierRight` is what holds of the tier after every operation, `TierRun.right` says so.
* `memory_tier_kept` is what is then returned, kept and evicted.
-/

namespace FunctionWasm

variable {μ : Type}

/-! ## Histories -/

/-- A lookup with its answer, or an insert. -/
inductive TierOp (μ : Type) where
  | get (digest : Text) (answer : Option μ)
  | put (digest : Text) (value : μ)

structure TierEvent (μ : Type) where
  time : Nat
  op : TierOp μ

namespace TierOp

/-- The module that is put for a digest. -/
def putFor (digest : Text) : TierOp μ → Option μ
  | put d value => if d = digest then some value else none
  | get _ _ => none

/-- Whether a digest is used: it is put, or found. -/
def uses (digest : Text) : TierOp μ → Bool
  | put d _ => d = digest
  | get d answer => d = digest ∧ answer.isSome = true

end TierOp

/-- The module last put for a digest; histories are newest first. -/
def lastPut (digest : Text) : List (TierEvent μ) → Option μ
  | [] => none
  | e :: history => e.op.putFor digest <|> lastPut digest history

/-- When a digest was last used. -/
def lastUse (digest : Text) : List (TierEvent μ) → Option Nat
  | [] => none
  | e :: history => if e.op.uses digest then some e.time else lastUse digest history

/-- Nothing in a history is later than a time. -/
def Before (now : Nat) (history : List (TierEvent μ)) : Prop :=
  ∀ e ∈ history.head?, e.time ≤ now

/-- A history of a cache that starts empty, with the tier that it leaves. -/
inductive TierRun (o : CacheOptions) : List (TierEvent μ) → MemoryTier μ → Prop where
  | start : TierRun o [] []
  | get {history t} (h : TierRun o history t) {now : Nat} (hnow : Before now history)
      (digest : Text) :
      TierRun o (⟨now, .get digest (MemoryTier.get o now digest t).1⟩ :: history)
        (MemoryTier.get o now digest t).2
  | put {history t} (h : TierRun o history t) {now : Nat} (hnow : Before now history)
      {digest : Text} {value : μ} {victims : List Text} {t' : MemoryTier μ}
      (hput : MemoryTier.put o now digest value victims t = some t') :
      TierRun o (⟨now, .put digest value⟩ :: history) t'

/-- The tier is what the history says. -/
structure TierRight (o : CacheOptions) (history : List (TierEvent μ)) (t : MemoryTier μ) : Prop where
  off : o.noMemory = true → t = []
  keys : (t.map Prod.fst).Nodup
  bounded : 0 < o.maxEntries → t.length ≤ o.maxEntries
  value : ∀ x ∈ t, lastPut x.1 history = some x.2.value
  used : ∀ x ∈ t, lastUse x.1 history = some x.2.lastUsed

/-! ## Maps without a key twice -/

namespace MemoryTier

theorem eq_of_key {t : MemoryTier μ} (h : (t.map Prod.fst).Nodup) {x y : Text × MemoryEntry μ}
    (hx : x ∈ t) (hy : y ∈ t) (hkey : x.1 = y.1) : x = y :=
  List.inj_on_of_nodup_map h hx hy hkey

theorem lookup_of_mem {t : MemoryTier μ} (h : (t.map Prod.fst).Nodup) {x : Text × MemoryEntry μ}
    (hx : x ∈ t) : t.lookup x.1 = some x.2 := by
  cases hlookup : t.lookup x.1 with
  | none =>
      have hnone := List.lookup_eq_none_iff.1 hlookup x hx
      simp at hnone
  | some e =>
      have heq := eq_of_key h (mem_of_lookup hlookup) hx rfl
      rw [← heq]

theorem keys_filter {t : MemoryTier μ} (h : (t.map Prod.fst).Nodup)
    (p : Text × MemoryEntry μ → Bool) : ((t.filter p).map Prod.fst).Nodup :=
  h.sublist (List.filter_sublist.map Prod.fst)

/-- Only a module that was used recently is found. -/
theorem get_found {o : CacheOptions} {now : Nat} {digest : Text} {t : MemoryTier μ} {m : μ}
    (h : (get o now digest t).1 = some m) :
    ∃ e, (digest, e) ∈ t ∧ e.value = m ∧ now - e.lastUsed < o.ttl := by
  unfold get at h
  split at h
  · cases h
  · dsimp only at h
    split at h
    · next e he =>
        have hmem := List.mem_filter.1 (mem_of_lookup he)
        exact ⟨e, hmem.1, Option.some.inj h, by simpa using hmem.2⟩
    · cases h

/-- An entry after a lookup was one before it, used now if it is the one that was found. -/
theorem get_kept {o : CacheOptions} {now : Nat} {digest : Text} {t : MemoryTier μ}
    {x : Text × MemoryEntry μ} (hx : x ∈ (get o now digest t).2) :
    ∃ y ∈ t, y.1 = x.1 ∧ y.2.value = x.2.value ∧
      x.2.lastUsed =
        if digest = x.1 ∧ (get o now digest t).1.isSome = true then now else y.2.lastUsed := by
  by_cases hoff : o.noMemory = true
  · have hget : get o now digest t = (none, t) := if_pos hoff
    rw [hget] at hx ⊢
    exact ⟨x, hx, rfl, rfl, by simp⟩
  · cases hfound : (t.filter fun x => decide (now - x.2.lastUsed < o.ttl)).lookup digest with
    | some e =>
        have hget : get o now digest t = (some e.value,
            (t.filter fun x => decide (now - x.2.lastUsed < o.ttl)).map fun x =>
              if x.1 = digest then (x.1, { x.2 with lastUsed := now }) else x) := by
          unfold get
          rw [if_neg hoff]
          dsimp only
          rw [hfound]
        rw [hget] at hx ⊢
        rcases List.mem_map.1 hx with ⟨y, hy, rfl⟩
        refine ⟨y, List.mem_of_mem_filter hy, ?_⟩
        by_cases hkey : y.1 = digest
        · simp [hkey]
        · have hother : ¬ digest = y.1 := fun h => hkey h.symm
          simp [hkey, hother]
    | none =>
        have hget : get o now digest t =
            (none, t.filter fun x => decide (now - x.2.lastUsed < o.ttl)) := by
          unfold get
          rw [if_neg hoff]
          dsimp only
          rw [hfound]
        rw [hget] at hx ⊢
        exact ⟨x, List.mem_of_mem_filter hx, rfl, rfl, by simp⟩

theorem get_keys {o : CacheOptions} {now : Nat} {digest : Text} {t : MemoryTier μ} :
    ((get o now digest t).2.map Prod.fst).Sublist (t.map Prod.fst) := by
  have hkept : ∀ p : Text × MemoryEntry μ → Bool,
      ((t.filter p).map Prod.fst).Sublist (t.map Prod.fst) := fun p =>
    List.filter_sublist.map Prod.fst
  unfold get
  split
  · exact List.Sublist.refl _
  · dsimp only
    split
    · rw [List.map_map]
      have hfst : (Prod.fst ∘ fun x : Text × MemoryEntry μ =>
          if x.1 = digest then (x.1, { x.2 with lastUsed := now }) else x) = Prod.fst := by
        funext x
        simp only [Function.comp_apply]
        split <;> rfl
      rw [hfst]
      exact hkept _
    · exact hkept _

/-! ## Evictions -/

/-- What is evicted leaves an entry of the map, within the bound. -/
theorem evict_spec {o : CacheOptions} {victims : List Text} :
    ∀ {t t' : MemoryTier μ}, (t.map Prod.fst).Nodup → evict o victims t = some t' →
      t'.Sublist t ∧ (0 < o.maxEntries → t'.length ≤ o.maxEntries) ∧
        ∀ x ∈ t, x ∉ t' → ∀ y ∈ t', x.2.lastUsed ≤ y.2.lastUsed := by
  induction victims with
  | nil =>
      intro t t' _ h
      unfold evict at h
      split at h
      · next hdone =>
          cases h
          refine ⟨List.Sublist.refl t, fun hpos => ?_, fun x hx hgone => absurd hx hgone⟩
          exact hdone.resolve_left hpos.ne'
      · cases h
  | cons k victims ih =>
      intro t t' hkeys h
      unfold evict at h
      split at h
      · next e he =>
          split at h
          · next holdest =>
              rcases ih (keys_filter hkeys _) h with ⟨hsub, hbound, holder⟩
              refine ⟨hsub.trans List.filter_sublist, hbound, fun x hx hgone y hy => ?_⟩
              by_cases hvictim : x.1 = k
              · -- the victim is the oldest of those that were left
                have heq : x = (k, e) := eq_of_key hkeys hx (mem_of_lookup he) hvictim
                rw [heq]
                exact holdest.2.2 y (List.mem_of_mem_filter (hsub.subset hy))
              · exact holder x (List.mem_filter.2 ⟨hx, by simpa using hvictim⟩) hgone y hy
          · cases h
      · cases h

/-- There is always an oldest entry to evict. -/
theorem exists_evict (o : CacheOptions) (n : Nat) :
    ∀ t : MemoryTier μ, (t.map Prod.fst).Nodup → t.length ≤ n → ∃ victims t', evict o victims t = some t' := by
  induction n with
  | zero =>
      intro t _ hlength
      exact ⟨[], t, if_pos (Or.inr (hlength.trans (Nat.zero_le _)))⟩
  | succ n ih =>
      intro t hkeys hlength
      by_cases hdone : o.maxEntries = 0 ∨ t.length ≤ o.maxEntries
      · exact ⟨[], t, if_pos hdone⟩
      · push Not at hdone
        have hne : t ≠ [] := fun hnil => by
          rw [hnil] at hdone
          exact absurd hdone.2 (Nat.not_lt_zero _)
        have hsome : List.argmin (fun y : Text × MemoryEntry μ => y.2.lastUsed) t ≠ none := fun h =>
          hne (List.argmin_eq_none.1 h)
        rcases Option.ne_none_iff_exists'.1 hsome with ⟨x, hargmin⟩
        have hx : x ∈ t := List.argmin_mem hargmin
        have hmin : ∀ y ∈ t, x.2.lastUsed ≤ y.2.lastUsed := fun y hy =>
          List.le_of_mem_argmin (f := fun z : Text × MemoryEntry μ => z.2.lastUsed) hy hargmin
        have hshort : (t.filter fun y => y.1 ≠ x.1).length ≤ n := by
          have hlt : (t.filter fun y => y.1 ≠ x.1).length < t.length :=
            List.length_filter_lt_length_iff_exists.2 ⟨x, hx, by simp⟩
          omega
        rcases ih _ (keys_filter hkeys _) hshort with ⟨victims, t', hrest⟩
        refine ⟨x.1 :: victims, t', ?_⟩
        unfold evict
        rw [lookup_of_mem hkeys hx]
        dsimp only
        rw [if_pos ⟨Nat.pos_of_ne_zero hdone.1, hdone.2, hmin⟩]
        exact hrest

end MemoryTier

/-! ## What a history leaves -/

/-- The map with a module inserted, before anything is evicted. -/
def MemoryTier.inserted (now : Nat) (digest : Text) (value : μ) (t : MemoryTier μ) : MemoryTier μ :=
  (digest, ⟨value, now⟩) :: t.filter fun x => x.1 ≠ digest

theorem MemoryTier.inserted_keys {t : MemoryTier μ} (h : (t.map Prod.fst).Nodup) (now : Nat)
    (digest : Text) (value : μ) : ((t.inserted now digest value).map Prod.fst).Nodup := by
  unfold MemoryTier.inserted
  rw [List.map_cons, List.nodup_cons]
  refine ⟨fun hmem => ?_, keys_filter h _⟩
  rcases List.mem_map.1 hmem with ⟨x, hx, hkey⟩
  have hne := (List.mem_filter.1 hx).2
  simp [hkey] at hne

theorem MemoryTier.put_eq {o : CacheOptions} (hon : o.noMemory = false) (now : Nat) (digest : Text)
    (value : μ) (victims : List Text) (t : MemoryTier μ) :
    MemoryTier.put o now digest value victims t =
      MemoryTier.evict o victims (t.inserted now digest value) := by
  unfold MemoryTier.put
  rw [if_neg (by simp [hon])]
  rfl

theorem TierRight.get {o : CacheOptions} {history : List (TierEvent μ)} {t : MemoryTier μ}
    (h : TierRight o history t) (now : Nat) (digest : Text) :
    TierRight o (⟨now, .get digest (MemoryTier.get o now digest t).1⟩ :: history)
      (MemoryTier.get o now digest t).2 := by
  have hlength : ((MemoryTier.get o now digest t).2.map Prod.fst).Sublist (t.map Prod.fst) :=
    MemoryTier.get_keys
  refine ⟨fun hoff => ?_, h.keys.sublist hlength, fun hpos => ?_, fun x hx => ?_, fun x hx => ?_⟩
  · have hget : MemoryTier.get o now digest t = (none, t) := if_pos hoff
    rw [hget]
    exact h.off hoff
  · have hle := hlength.length_le
    rw [List.length_map, List.length_map] at hle
    exact hle.trans (h.bounded hpos)
  · rcases MemoryTier.get_kept hx with ⟨y, hy, hkey, hvalue, -⟩
    have hold := h.value y hy
    rw [hkey, hvalue] at hold
    exact hold
  · rcases MemoryTier.get_kept hx with ⟨y, hy, hkey, -, hused⟩
    have hold := h.used y hy
    rw [hkey] at hold
    rw [hused]
    by_cases hfound : digest = x.1 ∧ (MemoryTier.get o now digest t).1.isSome = true
    · have huses : TierOp.uses x.1 (.get digest (MemoryTier.get o now digest t).1) = true :=
        decide_eq_true hfound
      rw [if_pos hfound, lastUse, if_pos huses]
    · have huses : ¬ TierOp.uses x.1 (.get digest (MemoryTier.get o now digest t).1) = true := by
        simpa [TierOp.uses] using hfound
      rw [if_neg hfound, lastUse, if_neg huses, hold]

/-- What is inserted is what the history with the insert says. -/
theorem TierRight.inserted {o : CacheOptions} {history : List (TierEvent μ)} {t : MemoryTier μ}
    (h : TierRight o history t) (now : Nat) (digest : Text) (value : μ) :
    ∀ x ∈ t.inserted now digest value,
      lastPut x.1 (⟨now, .put digest value⟩ :: history) = some x.2.value ∧
        lastUse x.1 (⟨now, .put digest value⟩ :: history) = some x.2.lastUsed := by
  intro x hx
  rcases List.mem_cons.1 hx with rfl | hx
  · exact ⟨by simp [lastPut, TierOp.putFor], by simp [lastUse, TierOp.uses]⟩
  · rcases List.mem_filter.1 hx with ⟨hmem, hne⟩
    have hother : ¬ digest = x.1 := fun heq => by simp [heq] at hne
    have hvalue := h.value x hmem
    have hused := h.used x hmem
    exact ⟨by simpa [lastPut, TierOp.putFor, hother] using hvalue,
      by simpa [lastUse, TierOp.uses, hother] using hused⟩

theorem TierRight.put {o : CacheOptions} {history : List (TierEvent μ)} {t t' : MemoryTier μ}
    (h : TierRight o history t) {now : Nat} {digest : Text} {value : μ} {victims : List Text}
    (hput : MemoryTier.put o now digest value victims t = some t') :
    TierRight o (⟨now, .put digest value⟩ :: history) t' := by
  cases hmem : o.noMemory with
  | true =>
      have hsame : MemoryTier.put o now digest value victims t = some t := if_pos hmem
      cases hsame.symm.trans hput
      have hnil := h.off hmem
      subst hnil
      exact ⟨fun _ => rfl, h.keys, h.bounded, (fun x hx => by cases hx), fun x hx => by cases hx⟩
  | false =>
      rw [MemoryTier.put_eq hmem] at hput
      have hkeys := MemoryTier.inserted_keys h.keys now digest value
      rcases MemoryTier.evict_spec hkeys hput with ⟨hsub, hbound, -⟩
      refine ⟨fun hoff => ?_, hkeys.sublist (hsub.map Prod.fst), hbound,
        fun x hx => (h.inserted now digest value x (hsub.subset hx)).1,
        fun x hx => (h.inserted now digest value x (hsub.subset hx)).2⟩
      rw [hmem] at hoff
      cases hoff

theorem TierRun.right {o : CacheOptions} {history : List (TierEvent μ)} {t : MemoryTier μ}
    (h : TierRun o history t) : TierRight o history t := by
  induction h with
  | start =>
      exact ⟨fun _ => rfl, List.nodup_nil, fun _ => Nat.zero_le _, (fun x hx => by cases hx),
        fun x hx => by cases hx⟩
  | get _ _ digest ih => exact ih.get _ digest
  | put _ _ hput ih => exact ih.put hput

/-- An insert has an outcome, whatever is evicted. -/
theorem TierRight.exists_put {o : CacheOptions} {history : List (TierEvent μ)} {t : MemoryTier μ}
    (h : TierRight o history t) (now : Nat) (digest : Text) (value : μ) :
    ∃ victims t', MemoryTier.put o now digest value victims t = some t' := by
  cases hmem : o.noMemory with
  | true => exact ⟨[], t, if_pos hmem⟩
  | false =>
      have hkeys := MemoryTier.inserted_keys h.keys now digest value
      rcases MemoryTier.exists_evict o _ _ hkeys (Nat.le_refl _) with ⟨victims, t', hevict⟩
      exact ⟨victims, t', by rw [MemoryTier.put_eq hmem, hevict]⟩

/-- What was evicted was used before everything that was kept. -/
theorem TierRight.evicted {o : CacheOptions} {history : List (TierEvent μ)} {t t' : MemoryTier μ}
    (h : TierRight o history t) {now : Nat} {digest : Text} {value : μ} {victims : List Text}
    (hput : MemoryTier.put o now digest value victims t = some t') :
    ∀ x ∈ t.inserted now digest value, x ∉ t' → ∀ y ∈ t',
      ∃ a b, lastUse x.1 (⟨now, .put digest value⟩ :: history) = some a ∧
        lastUse y.1 (⟨now, .put digest value⟩ :: history) = some b ∧ a ≤ b := by
  intro x hx hgone y hy
  have hright := h.put hput
  refine ⟨x.2.lastUsed, y.2.lastUsed, (h.inserted now digest value x hx).2, hright.used y hy, ?_⟩
  cases hmem : o.noMemory with
  | true =>
      rw [hright.off hmem] at hy
      cases hy
  | false =>
      rw [MemoryTier.put_eq hmem] at hput
      have hkeys := MemoryTier.inserted_keys h.keys now digest value
      exact (MemoryTier.evict_spec hkeys hput).2.2 x hx hgone y hy

/-- After every run the tier is within its bound, a lookup finds the module last put for its digest
and only if that was used within the time to live, and an insert, which always has an outcome,
evicts nothing that was used after something that it keeps. -/
theorem memory_tier_kept {o : CacheOptions} {history : List (TierEvent μ)} {t : MemoryTier μ}
    (h : TierRun o history t) :
    (0 < o.maxEntries → t.length ≤ o.maxEntries) ∧
      (∀ now digest m, (MemoryTier.get o now digest t).1 = some m →
        lastPut digest history = some m ∧
          ∃ used, lastUse digest history = some used ∧ now - used < o.ttl) ∧
      ∀ now digest value,
        (∃ victims t', MemoryTier.put o now digest value victims t = some t') ∧
        ∀ victims t', MemoryTier.put o now digest value victims t = some t' →
          ∀ x ∈ t.inserted now digest value, x ∉ t' → ∀ y ∈ t',
            ∃ a b, lastUse x.1 (⟨now, .put digest value⟩ :: history) = some a ∧
              lastUse y.1 (⟨now, .put digest value⟩ :: history) = some b ∧ a ≤ b := by
  have hright := h.right
  refine ⟨hright.bounded, fun now digest m hget => ?_, fun now digest value => ⟨?_, ?_⟩⟩
  · rcases MemoryTier.get_found hget with ⟨e, hmem, hvalue, hfresh⟩
    refine ⟨?_, e.lastUsed, hright.used _ hmem, hfresh⟩
    rw [← hvalue]
    exact hright.value _ hmem
  · exact hright.exists_put now digest value
  · exact fun victims t' hput => hright.evicted hput

section Example

/-- Two modules at most. -/
def pairOptions : CacheOptions := { maxEntries := 2 }

/-- Two modules are put, the first is looked up, and a third is put. -/
def pairHistory : List (TierEvent Nat) :=
  [⟨3, .put "c".toList 3⟩, ⟨2, .get "a".toList (some 1)⟩, ⟨1, .put "b".toList 2⟩,
    ⟨0, .put "a".toList 1⟩]

def pairTier : MemoryTier Nat := [("c".toList, ⟨3, 3⟩), ("a".toList, ⟨1, 2⟩)]

theorem pairRun : TierRun pairOptions pairHistory pairTier := by
  have hfirst : MemoryTier.put pairOptions 0 "a".toList 1 [] [] =
      some [("a".toList, ⟨1, 0⟩)] := by decide +kernel
  have hsecond : MemoryTier.put pairOptions 1 "b".toList 2 [] [("a".toList, ⟨1, 0⟩)] =
      some [("b".toList, ⟨2, 1⟩), ("a".toList, ⟨1, 0⟩)] := by decide +kernel
  have hget : MemoryTier.get pairOptions 2 "a".toList
      [("b".toList, (⟨2, 1⟩ : MemoryEntry Nat)), ("a".toList, ⟨1, 0⟩)] =
        (some 1, [("b".toList, ⟨2, 1⟩), ("a".toList, ⟨1, 2⟩)]) := by decide +kernel
  have hthird : MemoryTier.put pairOptions 3 "c".toList 3 ["b".toList]
      [("b".toList, ⟨2, 1⟩), ("a".toList, ⟨1, 2⟩)] = some pairTier := by decide +kernel
  have h₁ := TierRun.start.put (fun e he => by cases he) hfirst
  have hnow₂ : Before 1 [(⟨0, .put "a".toList 1⟩ : TierEvent Nat)] := fun e he => by
    cases he
    decide
  have h₂ := h₁.put hnow₂ hsecond
  have hnow₃ : Before 2 [(⟨1, .put "b".toList 2⟩ : TierEvent Nat), ⟨0, .put "a".toList 1⟩] :=
    fun e he => by
      cases he
      decide
  have h₃ := h₂.get hnow₃ "a".toList
  rw [hget] at h₃
  refine h₃.put (fun e he => ?_) hthird
  cases he
  decide

theorem pair_kept :
    pairTier.length ≤ pairOptions.maxEntries ∧ lastPut "a".toList pairHistory = some 1 :=
  have hkept := memory_tier_kept pairRun
  ⟨hkept.1 (by decide), (hkept.2.1 4 "a".toList 1 (by decide +kernel)).1⟩

end Example
end FunctionWasm

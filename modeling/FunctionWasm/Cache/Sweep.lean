import Mathlib.Data.List.Sort
import FunctionWasm.Cache.Store
import FunctionWasm.Foundation.Checks
import FunctionWasm.Foundation.Machine

/-!
# Sweep — what is removed when the caches are full

Every ten minutes the least recently used entries of all stores are removed, down to nine tenths of
the bound.

* `Store.entries` lists the entries of a store, `sweep` removes the oldest ones.
* `sweepLoop_eq` says that the loop answers in every build, and what.
* `sweep_exact_iff` says for which entries and bounds exactly the shortest prefix goes.
-/

namespace FunctionWasm

/-! ## Entries -/

/-- What a directory lists; a file without a time was changed at the epoch. -/
structure DirEntry where
  name : Text
  isDir : Bool
  len : UInt64
  modified : Option Int

/-- One stored blob. -/
structure Entry where
  path : Text
  size : UInt64
  lastUsed : Int
  deriving DecidableEq

def tmpMarker : Text := ".put-".toList

def macSuffix : Text := ".mac".toList

/-- The blobs of a store; temporary files and sidecars are none.  What cannot be read is left out. -/
def Store.entries (st : Store) (listing : Option (List (Option DirEntry))) : List Entry :=
  (listing.getD []).filterMap fun found =>
    found.bind fun e =>
      if e.isDir ∨ tmpMarker <:+: e.name ∨ macSuffix <:+ e.name then none
      else some ⟨joinPath st.dir e.name, e.len, e.modified.getD 0⟩

/-- A removal of a file: of an entry, with what came of it, or of a sidecar. -/
inductive SweepOp where
  | entry (e : Entry) (removed : Bool)
  | sidecar (path : Text)
  deriving DecidableEq

/-- The entries that were removed. -/
def removedOf (ops : List SweepOp) : List Entry :=
  ops.filterMap fun op =>
    match op with
    | .entry e true => some e
    | _ => none

/-- The sizes of some entries, added up as 64-bit words. -/
def sumSizes (b : Build) (es : List Entry) : Checked Nat :=
  es.foldlM (fun total e => b.add total e.size.toNat) 0

/-! ## The sweep -/

/-- The removals, in order; whether the next one succeeds is up to the file system. -/
def sweepLoop (b : Build) (outcome : Nat → Bool) (target : Nat) :
    Nat → Nat → Nat → List Entry → Checked (Nat × List SweepOp)
  | _, _, freed, [] => .ok (freed, [])
  | attempt, remaining, freed, e :: es =>
      if remaining ≤ target then .ok (freed, [])
      else if outcome attempt then do
        let remaining ← b.sub remaining e.size.toNat
        let freed ← b.add freed e.size.toNat
        let (freed, ops) ← sweepLoop b outcome target (attempt + 1) remaining freed es
        return (freed, .entry e true :: .sidecar (macPath e.path) :: ops)
      else do
        let (freed, ops) ← sweepLoop b outcome target (attempt + 1) remaining freed es
        return (freed, .entry e false :: ops)

def UsedBefore (a b : Entry) : Prop := a.lastUsed ≤ b.lastUsed

instance : DecidableRel UsedBefore := fun _ _ => inferInstanceAs (Decidable (_ ≤ _))

instance : Std.Total UsedBefore := ⟨fun a b => Int.le_total a.lastUsed b.lastUsed⟩

instance : IsTrans Entry UsedBefore := ⟨fun _ _ _ => Int.le_trans⟩

/-- The entries in the order in which they were last used; a stable sort. -/
def oldestFirst (all : List Entry) : List Entry := all.insertionSort UsedBefore

/-- What is kept at least: nine times a tenth of the bound. -/
def sweepTarget (maxBytes : UInt64) : Nat := maxBytes.toNat / 10 * 9

/-- Removes the least recently used entries; answers the bytes freed. -/
def sweep (b : Build) (outcome : Nat → Bool) (all : List Entry) (maxBytes : UInt64) :
    Checked (Nat × List SweepOp) :=
  if maxBytes = 0 then .ok (0, [])
  else do
    let total ← sumSizes b all
    if total ≤ maxBytes.toNat then return (0, [])
    sweepLoop b outcome (sweepTarget maxBytes) 0 total 0 (oldestFirst all)

/-- The sweep of some stores, each with what its directory lists. -/
def sweepStores (b : Build) (outcome : Nat → Bool)
    (stores : List (Store × Option (List (Option DirEntry)))) (maxBytes : UInt64) :
    Checked (Nat × List SweepOp) :=
  sweep b outcome (stores.flatMap fun s => s.1.entries s.2) maxBytes

/-! ## What the loop does -/

/-- The bytes that some entries hold. -/
def totalSize (es : List Entry) : Nat := (es.map fun e => e.size.toNat).sum

@[simp] theorem totalSize_nil : totalSize [] = 0 := rfl

@[simp] theorem totalSize_cons (e : Entry) (es : List Entry) :
    totalSize (e :: es) = e.size.toNat + totalSize es := rfl

theorem totalSize_append (es fs : List Entry) :
    totalSize (es ++ fs) = totalSize es + totalSize fs := by
  simp [totalSize]

theorem totalSize_perm {es fs : List Entry} (h : es.Perm fs) : totalSize es = totalSize fs :=
  (h.map _).sum_nat

/-- The removals by the exact numbers. -/
def sweepOps (outcome : Nat → Bool) (target : Nat) : Nat → Nat → List Entry → List SweepOp
  | _, _, [] => []
  | attempt, remaining, e :: es =>
      if remaining ≤ target then []
      else if outcome attempt then
        .entry e true :: .sidecar (macPath e.path) ::
          sweepOps outcome target (attempt + 1) (remaining - e.size.toNat) es
      else .entry e false :: sweepOps outcome target (attempt + 1) remaining es

@[simp] theorem removedOf_nil : removedOf [] = [] := rfl

@[simp] theorem removedOf_true (e : Entry) (path : Text) (ops : List SweepOp) :
    removedOf (.entry e true :: .sidecar path :: ops) = e :: removedOf ops := rfl

@[simp] theorem removedOf_false (e : Entry) (ops : List SweepOp) :
    removedOf (.entry e false :: ops) = removedOf ops := rfl

theorem sumSizes_eq {b : Build} {es : List Entry} :
    ∀ {start : Nat}, start + totalSize es < usizeBound →
      es.foldlM (fun total e => b.add total e.size.toNat) start = .ok (start + totalSize es) := by
  induction es with
  | nil =>
      intro start _
      rfl
  | cons e es ih =>
      intro start h
      rw [totalSize_cons, ← Nat.add_assoc] at h
      have hfirst : start + e.size.toNat < usizeBound := Nat.lt_of_le_of_lt (Nat.le_add_right _ _) h
      rw [List.foldlM_cons, Build.add_of_lt hfirst, totalSize_cons, ← Nat.add_assoc]
      exact ih h

/-- The running totals are exact: no build faults, and none wraps. -/
theorem sweepLoop_eq {b : Build} {outcome : Nat → Bool} {target : Nat} {es : List Entry} :
    ∀ {attempt remaining freed : Nat}, totalSize es ≤ remaining →
      freed + totalSize es < usizeBound →
        sweepLoop b outcome target attempt remaining freed es =
          .ok (freed + totalSize (removedOf (sweepOps outcome target attempt remaining es)),
            sweepOps outcome target attempt remaining es) := by
  induction es with
  | nil =>
      intro attempt remaining freed _ _
      rfl
  | cons e es ih =>
      intro attempt remaining freed hremaining hfreed
      rw [totalSize_cons] at hremaining hfreed
      unfold sweepLoop sweepOps
      by_cases hdone : remaining ≤ target
      · rw [if_pos hdone, if_pos hdone]
        rfl
      · rw [if_neg hdone, if_neg hdone]
        cases houtcome : outcome attempt with
        | true =>
            have hsub : e.size.toNat ≤ remaining := by omega
            have hadd : freed + e.size.toNat < usizeBound := by omega
            have hleft : totalSize es ≤ remaining - e.size.toNat := by omega
            have hsum : freed + e.size.toNat + totalSize es < usizeBound := by omega
            have hrest := @ih (attempt + 1) _ _ hleft hsum
            rw [if_pos rfl, if_pos rfl, Build.sub_of_le hsub, ok_bind, Build.add_of_lt hadd, ok_bind,
              hrest, ok_bind, removedOf_true, totalSize_cons, Nat.add_assoc]
            rfl
        | false =>
            have hleft : totalSize es ≤ remaining := by omega
            have hsum : freed + totalSize es < usizeBound := by omega
            have hrest := @ih (attempt + 1) _ _ hleft hsum
            rw [if_neg Bool.false_ne_true, if_neg Bool.false_ne_true, hrest, ok_bind, removedOf_false]
            rfl

/-- With overflow checks only sizes whose sum is a word are added up. -/
theorem totalSize_lt_of_sumSizes {es : List Entry} :
    ∀ {start total : Nat}, start < usizeBound →
      es.foldlM (fun total e => Build.add ⟨true⟩ total e.size.toNat) start = .ok total →
        start + totalSize es < usizeBound := by
  induction es with
  | nil =>
      intro start total hstart _
      exact hstart
  | cons e es ih =>
      intro start total _ h
      rw [List.foldlM_cons] at h
      rcases bind_eq_ok.1 h with ⟨next, hnext, hrest⟩
      have hfits : start + e.size.toNat < usizeBound := by
        by_contra hlarge
        unfold Build.add at hnext
        rw [if_neg hlarge] at hnext
        cases hnext
      rw [Build.add_of_lt hfits] at hnext
      cases hnext
      rw [totalSize_cons, ← Nat.add_assoc]
      exact ih hfits hrest

/-- A sidecar is only removed with its entry. -/
theorem sidecar_mem_sweepOps {outcome : Nat → Bool} {target : Nat} {es : List Entry} {path : Text} :
    ∀ {attempt remaining : Nat},
      .sidecar path ∈ sweepOps outcome target attempt remaining es →
        ∃ e ∈ removedOf (sweepOps outcome target attempt remaining es), path = macPath e.path := by
  induction es with
  | nil =>
      intro attempt remaining h
      cases h
  | cons e es ih =>
      intro attempt remaining h
      unfold sweepOps at h ⊢
      split at h
      · cases h
      next hgoing =>
      rw [if_neg hgoing]
      split at h
      · next hremoved =>
          rw [if_pos hremoved, removedOf_true]
          rcases List.mem_cons.1 h with h | h
          · cases h
          rcases List.mem_cons.1 h with h | h
          · cases h
            exact ⟨e, List.mem_cons_self, rfl⟩
          rcases ih h with ⟨x, hx, hpath⟩
          exact ⟨x, List.mem_cons_of_mem _ hx, hpath⟩
      · next hkept =>
          rw [if_neg hkept, removedOf_false]
          rcases List.mem_cons.1 h with h | h
          · cases h
          exact ih h

/-- Where every removal succeeds a prefix goes, up to the first place where no more than the target
is left. -/
theorem sweepOps_prefix {outcome : Nat → Bool} (hall : ∀ i, outcome i = true) (target : Nat)
    (es : List Entry) : ∀ attempt, ∃ k ≤ es.length,
      removedOf (sweepOps outcome target attempt (totalSize es) es) = es.take k ∧
        totalSize (es.drop k) ≤ target ∧ ∀ j < k, target < totalSize (es.drop j) := by
  induction es with
  | nil =>
      intro attempt
      exact ⟨0, Nat.le_refl 0, rfl, Nat.zero_le _, fun j hj => absurd hj (Nat.not_lt_zero j)⟩
  | cons e es ih =>
      intro attempt
      unfold sweepOps
      by_cases hdone : totalSize (e :: es) ≤ target
      · rw [if_pos hdone]
        exact ⟨0, Nat.zero_le _, rfl, hdone, fun j hj => absurd hj (Nat.not_lt_zero j)⟩
      · have hrest : totalSize (e :: es) - e.size.toNat = totalSize es := by
          rw [totalSize_cons, Nat.add_sub_cancel_left]
        rcases ih (attempt + 1) with ⟨k, hk, hremoved, hleft, hbefore⟩
        rw [if_neg hdone, if_pos (hall attempt), hrest, removedOf_true, hremoved]
        refine ⟨k + 1, Nat.succ_le_succ hk, rfl, hleft, fun j hj => ?_⟩
        cases j with
        | zero => exact Nat.lt_of_not_le hdone
        | succ j => exact hbefore j (Nat.lt_of_succ_lt_succ hj)

theorem totalSize_drop_le {es : List Entry} {i j : Nat} (h : i ≤ j) :
    totalSize (es.drop j) ≤ totalSize (es.drop i) := by
  have hsplit := totalSize_append ((es.drop i).take (j - i)) ((es.drop i).drop (j - i))
  rw [List.take_append_drop, List.drop_drop, Nat.add_sub_cancel' h] at hsplit
  omega

/-! ## What is expected -/

theorem oldestFirst_perm (all : List Entry) : (oldestFirst all).Perm all :=
  List.perm_insertionSort UsedBefore all

theorem oldestFirst_sorted (all : List Entry) : (oldestFirst all).Pairwise UsedBefore :=
  List.pairwise_insertionSort UsedBefore all

/-- The shortest prefix whose removal leaves at most nine tenths of the bound. -/
structure ShortestPrefix (es : List Entry) (maxBytes k : Nat) : Prop where
  le_length : k ≤ es.length
  enough : 10 * totalSize (es.drop k) ≤ 9 * maxBytes
  needed : ∀ j < k, 9 * maxBytes < 10 * totalSize (es.drop j)

/-- What a sweep should come to. -/
structure SweptRight (all : List Entry) (maxBytes : Nat) (outcome : Nat → Bool) (freed : Nat)
    (ops : List SweepOp) : Prop where
  untouched : maxBytes = 0 ∨ totalSize all ≤ maxBytes → ops = []
  shortest : maxBytes ≠ 0 → maxBytes < totalSize all → (∀ i, outcome i = true) →
    ∃ k, ShortestPrefix (oldestFirst all) maxBytes k ∧ removedOf ops = (oldestFirst all).take k
  freed_eq : freed = totalSize (removedOf ops)
  oldest : (∀ i, outcome i = true) → ∃ kept, (removedOf ops ++ kept).Perm all ∧
    ∀ e ∈ removedOf ops, ∀ x ∈ kept, e.lastUsed ≤ x.lastUsed
  sidecars : ∀ path, .sidecar path ∈ ops → ∃ e ∈ removedOf ops, path = macPath e.path

/-- A sweep that comes to it in every build, whatever removals succeed. -/
def SweepExact (all : List Entry) (maxBytes : UInt64) : Prop :=
  ∀ outcome, ∃ freed ops, (∀ b, sweep b outcome all maxBytes = .ok (freed, ops)) ∧
    SweptRight all maxBytes.toNat outcome freed ops

/-- No number of bytes that may be left lies above the target and within nine tenths. -/
def NothingBetween (all : List Entry) (maxBytes : UInt64) : Prop :=
  ∀ k ≤ all.length, sweepTarget maxBytes < totalSize ((oldestFirst all).drop k) →
    9 * maxBytes.toNat < 10 * totalSize ((oldestFirst all).drop k)

theorem sweepTarget_le (maxBytes : UInt64) : 10 * sweepTarget maxBytes ≤ 9 * maxBytes.toNat := by
  unfold sweepTarget
  omega

theorem sweep_nothing {b : Build} {outcome : Nat → Bool} {all : List Entry} {maxBytes : UInt64}
    (h : maxBytes = 0 ∨ totalSize all < usizeBound ∧ totalSize all ≤ maxBytes.toNat) :
    sweep b outcome all maxBytes = .ok (0, []) := by
  unfold sweep
  split
  · rfl
  next hzero =>
    rcases h with h | ⟨hfits, hle⟩
    · exact absurd h hzero
    have hsum : sumSizes b all = .ok (totalSize all) := by
      have h := @sumSizes_eq b all 0 (by rwa [Nat.zero_add])
      rwa [Nat.zero_add] at h
    rw [hsum, ok_bind, if_pos hle]
    rfl

theorem sweep_something {b : Build} {outcome : Nat → Bool} {all : List Entry} {maxBytes : UInt64}
    (hzero : maxBytes ≠ 0) (hfits : totalSize all < usizeBound)
    (hlarge : maxBytes.toNat < totalSize all) :
    let ops := sweepOps outcome (sweepTarget maxBytes) 0 (totalSize all) (oldestFirst all)
    sweep b outcome all maxBytes = .ok (totalSize (removedOf ops), ops) := by
  intro ops
  have hsum : sumSizes b all = .ok (totalSize all) := by
    have h := @sumSizes_eq b all 0 (by rwa [Nat.zero_add])
    rwa [Nat.zero_add] at h
  have hperm := totalSize_perm (oldestFirst_perm all)
  have hloop := @sweepLoop_eq b outcome (sweepTarget maxBytes) (oldestFirst all) 0 (totalSize all) 0
    (Nat.le_of_eq hperm) (by rw [hperm, Nat.zero_add]; exact hfits)
  unfold sweep
  rw [if_neg hzero, hsum, ok_bind, if_neg (Nat.not_le.2 hlarge), hloop, Nat.zero_add]

/-- What holds of any removals, whichever succeed. -/
theorem sweptRight_of_prefix {all : List Entry} {maxBytes : UInt64} {outcome : Nat → Bool}
    (hlarge : maxBytes.toNat < totalSize all) (hzero : maxBytes.toNat ≠ 0)
    (hbetween : NothingBetween all maxBytes) :
    let ops := sweepOps outcome (sweepTarget maxBytes) 0 (totalSize all) (oldestFirst all)
    SweptRight all maxBytes.toNat outcome (totalSize (removedOf ops)) ops := by
  intro ops
  have hperm := totalSize_perm (oldestFirst_perm all)
  have hprefix : (∀ i, outcome i = true) → ∃ k ≤ (oldestFirst all).length,
      removedOf ops = (oldestFirst all).take k ∧
        totalSize ((oldestFirst all).drop k) ≤ sweepTarget maxBytes ∧
        ∀ j < k, sweepTarget maxBytes < totalSize ((oldestFirst all).drop j) := fun hall => by
    have h := sweepOps_prefix hall (sweepTarget maxBytes) (oldestFirst all) 0
    rwa [hperm] at h
  have hlength : (oldestFirst all).length = all.length := (oldestFirst_perm all).length_eq
  refine ⟨?_, fun _ _ hall => ?_, rfl, fun hall => ?_, fun path hpath => sidecar_mem_sweepOps hpath⟩
  · rintro (hnone | hle)
    · exact absurd hnone hzero
    · exact absurd hle (Nat.not_le.2 hlarge)
  · rcases hprefix hall with ⟨k, hk, hremoved, hleft, hbefore⟩
    refine ⟨k, ⟨hk, ?_, fun j hj => ?_⟩, hremoved⟩
    · exact (Nat.mul_le_mul_left 10 hleft).trans (sweepTarget_le maxBytes)
    · exact hbetween j (hlength ▸ (Nat.le_of_lt hj).trans hk) (hbefore j hj)
  · rcases hprefix hall with ⟨k, -, hremoved, -, -⟩
    refine ⟨(oldestFirst all).drop k, ?_, ?_⟩
    · rw [hremoved, List.take_append_drop]
      exact oldestFirst_perm all
    · rw [hremoved]
      have hsorted := oldestFirst_sorted all
      rw [← List.take_append_drop k (oldestFirst all)] at hsorted
      exact (List.pairwise_append.1 hsorted).2.2

/-- The sweep of the entries that are there takes exactly the shortest prefix where their sizes add
up to a word and none of the sums that may be left falls between the target and nine tenths. -/
theorem sweep_exact_iff (stores : List (Store × Option (List (Option DirEntry))))
    (maxBytes : UInt64) :
    SweepExact (stores.flatMap fun s => s.1.entries s.2) maxBytes ↔
      maxBytes = 0 ∨ totalSize (stores.flatMap fun s => s.1.entries s.2) < usizeBound ∧
        (maxBytes.toNat < totalSize (stores.flatMap fun s => s.1.entries s.2) →
          NothingBetween (stores.flatMap fun s => s.1.entries s.2) maxBytes) := by
  generalize (stores.flatMap fun s => s.1.entries s.2) = all
  by_cases hzero : maxBytes = 0
  · refine ⟨fun _ => Or.inl hzero, fun _ outcome => ⟨0, [], fun b => sweep_nothing (Or.inl hzero), ?_⟩⟩
    have hnat : maxBytes.toNat = 0 := by rw [hzero]; rfl
    exact ⟨fun _ => rfl, fun hne => absurd hnat hne, rfl,
      fun _ => ⟨all, List.Perm.refl all, fun e he => by cases he⟩, fun path h => by cases h⟩
  have hnat : maxBytes.toNat ≠ 0 := fun h => hzero (UInt64.toNat_inj.1 h)
  constructor
  · intro hexact
    rcases hexact (fun _ => true) with ⟨freed, ops, hbuilds, hright⟩
    have hfits : totalSize all < usizeBound := by
      -- a build that checks overflow answers only where the sum is a word
      have hchecked := hbuilds ⟨true⟩
      unfold sweep at hchecked
      rw [if_neg hzero] at hchecked
      rcases bind_eq_ok.1 hchecked with ⟨total, hsum, -⟩
      have h := totalSize_lt_of_sumSizes (by decide) hsum
      rwa [Nat.zero_add] at h
    refine Or.inr ⟨hfits, fun hlarge k hk habove => ?_⟩
    have hperm := totalSize_perm (oldestFirst_perm all)
    have hlength : (oldestFirst all).length = all.length := (oldestFirst_perm all).length_eq
    -- what the sweep did is the shortest prefix and the one its loop took: they are one
    have hrun := (hbuilds ⟨true⟩).symm.trans (sweep_something hzero hfits hlarge)
    cases hrun
    rcases hright.shortest hnat hlarge (fun _ => rfl) with ⟨k₁, hshortest, hremoved₁⟩
    rcases sweepOps_prefix (fun _ : Nat => rfl) (sweepTarget maxBytes) (oldestFirst all) 0 with
      ⟨k₂, hk₂, hremoved₂, hleft, -⟩
    rw [hperm] at hremoved₂
    have hsame : k₁ = k₂ := by
      have h := congrArg List.length (hremoved₁.symm.trans hremoved₂)
      rwa [List.length_take, List.length_take, Nat.min_eq_left hshortest.le_length,
        Nat.min_eq_left hk₂] at h
    subst hsame
    -- before the prefix ends every sum is above the target, after it none is
    rcases Nat.lt_or_ge k k₁ with hbefore | hafter
    · exact hshortest.needed k hbefore
    · exact absurd (Nat.lt_of_lt_of_le habove ((totalSize_drop_le hafter).trans hleft))
        (Nat.lt_irrefl _)
  · rintro (h | ⟨hfits, hbetween⟩)
    · exact absurd h hzero
    intro outcome
    rcases Nat.lt_or_ge maxBytes.toNat (totalSize all) with hlarge | hsmall
    · exact ⟨_, _, fun b => sweep_something hzero hfits hlarge,
        sweptRight_of_prefix hlarge hnat (hbetween hlarge)⟩
    · exact ⟨0, [], fun b => sweep_nothing (Or.inr ⟨hfits, hsmall⟩),
        fun _ => rfl, fun _ hlarge => absurd hsmall (Nat.not_le.2 hlarge), rfl,
        fun _ => ⟨all, List.Perm.refl all, fun e he => by cases he⟩, fun path h => by cases h⟩

/-- One mebibyte at most: without the older entry what is left is within nine tenths, and yet both
go. -/
theorem tenth_rounded_down :
    let old : Entry := ⟨"a".toList, 104859, 0⟩
    let new : Entry := ⟨"b".toList, 943718, 1⟩
    let listing : List (Option DirEntry) :=
      [some ⟨"b".toList, false, 943718, some 1⟩, some ⟨"a".toList, false, 104859, some 0⟩]
    let stores : List (Store × Option (List (Option DirEntry))) := [(⟨[], false, none⟩, some listing)]
    (stores.flatMap fun s => s.1.entries s.2) = [new, old] ∧
      sweepStores ⟨true⟩ (fun _ => true) stores 1048576 =
        .ok (1048577, [.entry old true, .sidecar "a.mac".toList, .entry new true,
          .sidecar "b.mac".toList]) ∧
      10 * totalSize [new] ≤ 9 * 1048576 := by
  decide +kernel

end FunctionWasm

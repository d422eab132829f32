import Mathlib.Data.List.AList
import Mathlib.Data.List.Dedup
import Mathlib.Data.List.Sort

/-!
# EntryMap — hash maps and sorted sets as lists

A hash map is a list of entries without two of one key, in the order it would be iterated in.  Two
maps compare equal when they have as many entries and the values under each key of one compare
equal in the other; nothing of that depends on the order.

* `sameEntries` is the comparison, `sameEntries_iff` reads it off the lookups.
* `insertAll` makes entries of the members of a list, one each where their keys differ.
* `sortedKeys` is the sorted set of some keys, `sortedKeys_congr` says that it is a set.
* `inOrder` are the entries of a map by key, which no order of iteration changes.
-/

namespace FunctionWasm

/-! ## Comparing maps -/

section Maps

variable {κ ν : Type} [DecidableEq κ]

abbrev EntryMap (κ ν : Type) := AList (fun _ : κ => ν)

/-- The same keys, each with what is made of its value. -/
def mapValues {ν' : Type} (f : ν → ν') (m : EntryMap κ ν) : EntryMap κ ν' where
  entries := m.entries.map fun e => ⟨e.1, f e.2⟩
  nodupKeys := by
    have hkeys : (m.entries.map fun e => (⟨e.1, f e.2⟩ : Sigma fun _ : κ => ν')).keys =
        m.entries.keys := by
      simp [List.keys]
    rw [List.NodupKeys, hkeys]
    exact m.nodupKeys

theorem lookup_mapValues {ν' : Type} (f : ν → ν') (m : EntryMap κ ν) (k : κ) :
    (mapValues f m).lookup k = (m.lookup k).map f := by
  rcases m with ⟨entries, hnodup⟩
  show List.dlookup k (entries.map fun e => (⟨e.1, f e.2⟩ : Sigma fun _ : κ => ν')) =
    (List.dlookup k entries).map f
  clear hnodup
  induction entries with
  | nil => rfl
  | cons e entries ih =>
      rcases e with ⟨k', v⟩
      by_cases hk : k = k'
      · subst hk
        simp
      · rw [List.map_cons, List.dlookup_cons_ne _ _ hk, List.dlookup_cons_ne _ _ hk, ih]

/-- The comparison of two optional values. -/
def sameOption (same : ν → ν → Bool) : Option ν → Option ν → Bool
  | none, none => true
  | some v, some v' => same v v'
  | _, _ => false

/-- The comparison of two maps. -/
def sameEntries (same : ν → ν → Bool) (m m' : EntryMap κ ν) : Bool :=
  m.keys.length == m'.keys.length &&
    m.entries.all fun e => (m'.lookup e.1).any fun v => same e.2 v

/-- Two maps compare equal exactly when every key has values that compare equal, or none in either
map. -/
theorem sameEntries_iff {same : ν → ν → Bool} {m m' : EntryMap κ ν} :
    sameEntries same m m' = true ↔
      ∀ k, sameOption same (m.lookup k) (m'.lookup k) = true := by
  have hkeys : ∀ {k : κ} {m : EntryMap κ ν}, k ∈ m.keys ↔ (m.lookup k).isSome = true := by
    intro k m
    rw [AList.lookup_isSome, AList.mem_keys]
  simp only [sameEntries, Bool.and_eq_true, beq_iff_eq, List.all_eq_true]
  constructor
  · rintro ⟨hlen, hall⟩ k
    -- as many keys, and all of them: no key of the other map is left over
    have hsub : m.keys ⊆ m'.keys := by
      intro k hk
      rcases Option.isSome_iff_exists.1 (hkeys.1 hk) with ⟨v, hv⟩
      have hany := hall ⟨k, v⟩ (AList.mem_lookup_iff.1 hv)
      cases hv' : m'.lookup k with
      | none => simp [hv'] at hany
      | some v' => exact hkeys.2 (by simp [hv'])
    have hperm : m.keys.Perm m'.keys :=
      (List.subperm_of_subset m.nodupKeys hsub).perm_of_length_le (Nat.le_of_eq hlen.symm)
    cases hv : m.lookup k with
    | none =>
        cases hv' : m'.lookup k with
        | none => rfl
        | some v' =>
            have hmem : k ∈ m.keys := hperm.mem_iff.2 (hkeys.2 (by simp [hv']))
            have hsome : (m.lookup k).isSome = true := hkeys.1 hmem
            simp [hv] at hsome
    | some v =>
        have hany := hall ⟨k, v⟩ (AList.mem_lookup_iff.1 hv)
        cases hv' : m'.lookup k with
        | none => simp [hv'] at hany
        | some v' => simpa [hv', sameOption] using hany
  · intro hsame
    have hiff : ∀ k, k ∈ m.keys ↔ k ∈ m'.keys := by
      intro k
      have hk := hsame k
      rw [hkeys, hkeys]
      cases hv : m.lookup k with
      | none =>
          cases hv' : m'.lookup k with
          | none => simp
          | some v' => simp [hv, hv', sameOption] at hk
      | some v =>
          cases hv' : m'.lookup k with
          | none => simp [hv, hv', sameOption] at hk
          | some v' => simp
    have hperm : m.keys.Perm m'.keys :=
      (List.perm_ext_iff_of_nodup m.nodupKeys m'.nodupKeys).2 hiff
    refine ⟨hperm.length_eq, ?_⟩
    rintro ⟨k, v⟩ he
    have hv : m.lookup k = some v := AList.mem_lookup_iff.2 he
    have hk := hsame k
    cases hv' : m'.lookup k with
    | none => simp [hv, hv', sameOption] at hk
    | some v' => simpa [hv, hv', sameOption] using hk

end Maps

/-! ## Maps from lists -/

section Entries

variable {α κ ν : Type} [DecidableEq κ]

/-- Inserts an entry for each member of a list. -/
def insertAll (key : α → κ) (value : α → ν) (m : EntryMap κ ν) (l : List α) : EntryMap κ ν :=
  l.foldl (fun m a => m.insert (key a) (value a)) m

variable {key : α → κ} {value : α → ν}

theorem lookup_insertAll_of_notMem {m : EntryMap κ ν} {l : List α} {k : κ} (hk : k ∉ l.map key) :
    (insertAll key value m l).lookup k = m.lookup k := by
  induction l generalizing m with
  | nil => rfl
  | cons a l ih =>
      rw [List.map_cons, List.mem_cons, not_or] at hk
      calc
        (insertAll key value m (a :: l)).lookup k
            = (m.insert (key a) (value a)).lookup k := ih hk.2
        _ = m.lookup k := AList.lookup_insert_ne hk.1

theorem lookup_insertAll {m : EntryMap κ ν} {l : List α} (hkeys : (l.map key).Nodup) {a : α}
    (ha : a ∈ l) : (insertAll key value m l).lookup (key a) = some (value a) := by
  induction l generalizing m with
  | nil => simp at ha
  | cons b l ih =>
      rw [List.map_cons, List.nodup_cons] at hkeys
      rcases List.mem_cons.1 ha with rfl | ha
      · exact (lookup_insertAll_of_notMem hkeys.1).trans (AList.lookup_insert m)
      · exact ih hkeys.2 ha

/-- What is there was there before, or is one of the members. -/
theorem lookup_insertAll_eq_some {m : EntryMap κ ν} {l : List α} {k : κ} {v : ν}
    (h : (insertAll key value m l).lookup k = some v) :
    m.lookup k = some v ∨ ∃ a ∈ l, key a = k ∧ value a = v := by
  induction l generalizing m with
  | nil => exact Or.inl h
  | cons a l ih =>
      rcases ih h with hm | ⟨b, hb, hkey, hvalue⟩
      · by_cases hk : k = key a
        · subst hk
          rw [AList.lookup_insert] at hm
          exact Or.inr ⟨a, List.mem_cons_self, rfl, Option.some.inj hm⟩
        · rw [AList.lookup_insert_ne hk] at hm
          exact Or.inl hm
      · exact Or.inr ⟨b, List.mem_cons_of_mem a hb, hkey, hvalue⟩

theorem lookup_insertAll_const {m : EntryMap κ ν} {v : ν} {l : List α} {k : κ}
    (hk : k ∈ l.map key ∨ m.lookup k = some v) :
    (insertAll key (fun _ => v) m l).lookup k = some v := by
  induction l generalizing m with
  | nil => simpa [insertAll] using hk
  | cons b l ih =>
      refine ih ?_
      by_cases hb : k = key b
      · exact .inr (hb ▸ AList.lookup_insert m)
      · rw [AList.lookup_insert_ne hb]
        simpa [hb] using hk

/-- One entry for each member, where the keys differ. -/
theorem keys_insertAll {m : EntryMap κ ν} {l : List α} (hkeys : (l.map key).Nodup)
    (hnew : ∀ a ∈ l, key a ∉ m.keys) :
    (insertAll key value m l).keys = (l.map key).reverse ++ m.keys := by
  induction l generalizing m with
  | nil => rfl
  | cons b l ih =>
      rw [List.map_cons, List.nodup_cons] at hkeys
      have hinsert : (m.insert (key b) (value b)).keys = key b :: m.keys := by
        rw [AList.keys_insert, List.erase_of_not_mem (hnew b List.mem_cons_self)]
      have hrest : ∀ a ∈ l, key a ∉ (m.insert (key b) (value b)).keys := by
        intro a ha hmem
        rw [hinsert, List.mem_cons] at hmem
        rcases hmem with heq | hmem
        · exact hkeys.1 (heq ▸ List.mem_map_of_mem ha)
        · exact hnew a (List.mem_cons_of_mem _ ha) hmem
      calc
        (insertAll key value m (b :: l)).keys
            = (l.map key).reverse ++ (m.insert (key b) (value b)).keys := ih hkeys.2 hrest
        _ = ((b :: l).map key).reverse ++ m.keys := by
            rw [hinsert, List.map_cons, List.reverse_cons, List.append_assoc]
            rfl

end Entries

/-- What is read alike of related values is read alike of related optional values. -/
theorem map_eq_of_rel {α β γ : Type} {R : α → β → Prop} {f : α → γ} {g : β → γ} {a : Option α}
    {b : Option β} (h : Option.Rel R a b) (hread : ∀ {x y}, R x y → f x = g y) :
    a.map f = b.map g := by
  cases h with
  | none => rfl
  | some h => exact congrArg some (hread h)

/-! ## Sorted sets -/

section Keys

variable {κ : Type} [LinearOrder κ]

/-- The keys among `ks`, each once and in order. -/
def sortedKeys (ks : List κ) : List κ :=
  ks.dedup.insertionSort (· ≤ ·)

@[simp] theorem mem_sortedKeys {ks : List κ} {k : κ} : k ∈ sortedKeys ks ↔ k ∈ ks := by
  simp [sortedKeys, List.mem_insertionSort]

/-- The sorted set depends on which keys there are only. -/
theorem sortedKeys_congr {ks ks' : List κ} (h : ∀ k, k ∈ ks ↔ k ∈ ks') :
    sortedKeys ks = sortedKeys ks' := by
  have hdedup : ks.dedup.Perm ks'.dedup := by
    refine (List.perm_ext_iff_of_nodup (List.nodup_dedup ks) (List.nodup_dedup ks')).2 ?_
    intro k
    rw [List.mem_dedup, List.mem_dedup]
    exact h k
  have hperm : (sortedKeys ks).Perm (sortedKeys ks') :=
    (List.perm_insertionSort _ _).trans (hdedup.trans (List.perm_insertionSort _ _).symm)
  exact hperm.eq_of_sortedLE List.sortedLE_insertionSort List.sortedLE_insertionSort

theorem nodup_sortedKeys (ks : List κ) : (sortedKeys ks).Nodup :=
  ((List.perm_insertionSort _ _).nodup_iff).2 (List.nodup_dedup ks)

/-! ## Entries by key -/

variable {ν : Type} [DecidableEq κ]

/-- The entries of a map in the order of their keys. -/
def inOrder (m : EntryMap κ ν) : List (κ × ν) :=
  (sortedKeys m.keys).filterMap fun k => (m.lookup k).map fun v => (k, v)

theorem mem_inOrder {m : EntryMap κ ν} {k : κ} {v : ν} :
    (k, v) ∈ inOrder m ↔ m.lookup k = some v := by
  simp only [inOrder, List.mem_filterMap, mem_sortedKeys, Option.map_eq_some_iff, Prod.mk.injEq]
  constructor
  · rintro ⟨_, _, _, hlookup, rfl, rfl⟩
    exact hlookup
  · intro hlookup
    have hkey : k ∈ m.keys := by
      rw [← AList.mem_keys, ← AList.lookup_isSome, hlookup]
      rfl
    exact ⟨k, hkey, v, hlookup, rfl, rfl⟩

theorem map_fst_inOrder (m : EntryMap κ ν) : (inOrder m).map Prod.fst = sortedKeys m.keys := by
  have hall : ∀ ks : List κ, (∀ k ∈ ks, k ∈ m.keys) →
      (ks.filterMap fun k => (m.lookup k).map fun v => (k, v)).map Prod.fst = ks := by
    intro ks
    induction ks with
    | nil => intro _; rfl
    | cons k ks ih =>
        intro hks
        have hsome : (m.lookup k).isSome = true := by
          rw [AList.lookup_isSome, AList.mem_keys]
          exact hks k List.mem_cons_self
        rcases Option.isSome_iff_exists.1 hsome with ⟨v, hv⟩
        simp [hv, ih fun k' hk' => hks k' (List.mem_cons_of_mem _ hk')]
  exact hall _ fun k hk => mem_sortedKeys.1 hk

theorem nodup_map_fst_inOrder (m : EntryMap κ ν) : ((inOrder m).map Prod.fst).Nodup := by
  rw [map_fst_inOrder]
  exact nodup_sortedKeys _

/-- What is read of the entries by key depends on what is read of each value only. -/
theorem map_inOrder_congr {β : Type} {m m' : EntryMap κ ν} {f : κ → ν → β}
    (h : ∀ k, (m.lookup k).map (f k) = (m'.lookup k).map (f k)) :
    (inOrder m).map (fun e => f e.1 e.2) = (inOrder m').map fun e => f e.1 e.2 := by
  have hkeys : sortedKeys m.keys = sortedKeys m'.keys := by
    refine sortedKeys_congr fun k => ?_
    rw [← AList.mem_keys, ← AList.mem_keys, ← AList.lookup_isSome, ← AList.lookup_isSome]
    have hsome := congrArg Option.isSome (h k)
    simpa only [Option.isSome_map, ← Bool.eq_iff_iff] using hsome
  have hentry : ∀ m : EntryMap κ ν,
      (inOrder m).map (fun e => f e.1 e.2) =
        (sortedKeys m.keys).filterMap fun k => (m.lookup k).map (f k) := by
    intro m
    rw [inOrder, List.map_filterMap]
    refine List.filterMap_congr fun k _ => ?_
    cases m.lookup k <;> rfl
  rw [hentry, hentry, hkeys]
  exact List.filterMap_congr fun k _ => h k

end Keys
end FunctionWasm

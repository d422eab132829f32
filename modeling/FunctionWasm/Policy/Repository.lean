import FunctionWasm.Policy.Authz
import FunctionWasm.Source.Location

/-!
# Repository — the hierarchy that a location is decided in

A rule names a repository and means everything below it.  The hierarchy of a location makes that so:
its ancestors are the locations that fence it at a `/`.

* `Fences p location` is what a rule on `p` means to say of `location`.
* `WellFormedHierarchy` says that the entities are a store in which `in` is `Fences`.
* `hierarchy_wellFormed_iff` says of which locations that is true.
-/

namespace FunctionWasm
namespace Authz

open Cedar

/-- `p` is a non-empty prefix that ends immediately before a `/`, or one with that slash. -/
def BoundaryPrefix (p location : Text) : Prop :=
  ∃ q rest, location = q ++ '/' :: rest ∧ q ≠ [] ∧ (p = q ∨ p = q ++ ['/'])

/-- The location is `p`, or goes on from it at a `/`. -/
def Fences (p location : Text) : Prop :=
  p = location ∨ BoundaryPrefix p location

/-- The entities of a location are a store, whose hierarchy is the boundary prefixes. -/
structure WellFormedHierarchy (location : Text) : Prop where
  consistent : Consistent (repositoryEntities location).2
  acyclic : Acyclic (repositoryEntities location).2
  ancestors : ∀ v, Relation.TransGen (Parent (repositoryEntities location).2)
      (repositoryEntities location).1 v ↔ ∃ p, BoundaryPrefix p location ∧ v = repositoryUid p
  isIn : ∃ store, Store.ofEntities (repositoryEntities location).2 = some store ∧
    ∀ p, store.isIn (repositoryEntities location).1 (repositoryUid p) = true ↔ Fences p location

/-! ## The ancestors -/

theorem ofEntities_eq_some {es : List (Entity Value)} (hconsistent : Consistent es)
    (hacyclic : Acyclic es) : Store.ofEntities es = some ⟨es, hconsistent, hacyclic⟩ :=
  dif_pos ⟨hconsistent, hacyclic⟩

/-- The ancestors of a location are its parents. -/
theorem transGen_repositoryEntities {location : Text} (hself : location ∉ boundaryPrefixes location)
    {v : EntityUid} :
    Relation.TransGen (Parent (repositoryEntities location).2) (repositoryUid location) v ↔
      ∃ p ∈ boundaryPrefixes location, v = repositoryUid p := by
  constructor
  · intro hpath
    rcases Relation.TransGen.head'_iff.1 hpath with ⟨w, hstep, hrest⟩
    rcases parent_repositoryEntities.1 hstep with ⟨-, p, hp, rfl⟩
    rcases Relation.ReflTransGen.cases_head hrest with rfl | ⟨x, hnext, -⟩
    · exact ⟨p, hp, rfl⟩
    · -- a prefix has no parents, for it is not the location
      have heq := repositoryUid_inj.1 (parent_repositoryEntities.1 hnext).1
      exact absurd (heq ▸ hp) hself
  · rintro ⟨p, hp, rfl⟩
    exact .single (parent_repositoryEntities.2 ⟨rfl, p, hp, rfl⟩)

/-- No prefix is left out where none holds a NUL. -/
theorem mem_boundaryPrefixes_iff {location p : Text}
    (hnul : ∀ q rest, location = q ++ '/' :: rest → nul ∉ q) :
    p ∈ boundaryPrefixes location ↔ BoundaryPrefix p location := by
  rw [mem_boundaryPrefixes]
  constructor
  · rintro ⟨q, rest, heq, hne, -, hp⟩
    exact ⟨q, rest, heq, hne, hp⟩
  · rintro ⟨q, rest, heq, hne, hp⟩
    exact ⟨q, rest, heq, hne, hnul q rest heq, hp⟩

theorem wellFormedHierarchy_of {location : Text} (hself : location ∉ boundaryPrefixes location)
    (hnul : ∀ q rest, location = q ++ '/' :: rest → nul ∉ q) : WellFormedHierarchy location := by
  have hconsistent := consistent_repositoryEntities.2 hself
  have hacyclic := acyclic_repositoryEntities.2 hself
  have hancestors : ∀ v, Relation.TransGen (Parent (repositoryEntities location).2)
      (repositoryEntities location).1 v ↔ ∃ p, BoundaryPrefix p location ∧ v = repositoryUid p := by
    intro v
    rw [show (repositoryEntities location).1 = repositoryUid location from rfl,
      transGen_repositoryEntities hself]
    simp only [mem_boundaryPrefixes_iff hnul]
  refine ⟨hconsistent, hacyclic, hancestors, _, ofEntities_eq_some hconsistent hacyclic, ?_⟩
  intro p
  rw [Store.isIn_iff, Relation.reflTransGen_iff_eq_or_transGen, hancestors]
  refine or_congr repositoryUid_inj ?_
  constructor
  · rintro ⟨q, hq, heq⟩
    exact repositoryUid_inj.1 heq ▸ hq
  · intro hp
    exact ⟨p, hp, rfl⟩

/-- Where an ancestor is as it should be, no prefix holds a NUL. -/
theorem nul_of_wellFormedHierarchy {location : Text} (h : WellFormedHierarchy location) :
    ∀ q rest, location = q ++ '/' :: rest → nul ∉ q := by
  intro q rest heq hmem
  have hself := consistent_repositoryEntities.1 h.consistent
  have hne : q ≠ [] := List.ne_nil_of_mem hmem
  have hancestor := (h.ancestors (repositoryUid q)).2 ⟨q, ⟨q, rest, heq, hne, .inl rfl⟩, rfl⟩
  rcases (transGen_repositoryEntities hself).1 hancestor with ⟨p, hp, huid⟩
  rw [← repositoryUid_inj.1 huid] at hp
  rcases mem_boundaryPrefixes.1 hp with ⟨q', -, -, -, hnul, rfl | rfl⟩
  · exact hnul hmem
  · have hslash : nul ≠ '/' := by decide
    simp [hnul, hslash] at hmem

/-! ## The locations there are -/

section Locations

variable [UnicodeTables]

/-- The locations that a reference or a URL can have. -/
def IsLocation (location : Text) : Prop :=
  (∃ r, ociLocation r = .ok location) ∨ ∃ field raw, httpLocation field raw = .ok location

theorem IsLocation.ne_slash {location : Text} (h : IsLocation location) : location ≠ ['/'] := by
  rcases h with ⟨r, hr⟩ | ⟨field, raw, hraw⟩
  · intro heq
    exact ociLocation_last hr (by simp [heq])
  · rcases httpLocation_eq_ok.1 hraw with ⟨scheme, rest, hscheme, -, -, -, -, rfl⟩
    rcases hscheme with rfl | rfl <;> simp

/-- The hierarchy of a location is well formed exactly when the location does not end in a slash and
holds no NUL before one. -/
theorem hierarchy_wellFormed_iff {location : Text} (hlocation : IsLocation location) :
    WellFormedHierarchy location ↔
      location.getLast? ≠ some '/' ∧ ∀ q rest, location = q ++ '/' :: rest → nul ∉ q := by
  constructor
  · intro h
    refine ⟨?_, nul_of_wellFormedHierarchy h⟩
    intro hlast
    rcases List.getLast?_eq_some_iff.1 hlast with ⟨p, heq⟩
    have hne : p ≠ [] := by
      rintro rfl
      exact hlocation.ne_slash heq
    have hnul := nul_of_wellFormedHierarchy h p [] heq
    exact consistent_repositoryEntities.1 h.consistent
      (self_mem_boundaryPrefixes.2 ⟨p, heq, hne, hnul⟩)
  · rintro ⟨hlast, hnul⟩
    refine wellFormedHierarchy_of ?_ hnul
    intro hself
    rcases self_mem_boundaryPrefixes.1 hself with ⟨p, heq, -, -⟩
    exact hlast (by simp [heq])

end Locations

section Examples

attribute [local instance] asciiTables

theorem module_hierarchy :
    WellFormedHierarchy "https://a.b/m".toList ↔
      "https://a.b/m".toList.getLast? ≠ some '/' ∧
        ∀ q rest, "https://a.b/m".toList = q ++ '/' :: rest → nul ∉ q :=
  hierarchy_wellFormed_iff (.inr ⟨"module.http.url".toList, "https://A.b/m".toList, by rfl⟩)

/-- A URL that ends in a slash is its own parent. -/
theorem directory_hierarchy :
    IsLocation "https://a.b/m/".toList ∧ ¬ WellFormedHierarchy "https://a.b/m/".toList := by
  refine ⟨.inr ⟨"module.http.url".toList, "https://a.b/m/".toList, by rfl⟩, ?_⟩
  intro h
  refine consistent_repositoryEntities.1 h.consistent (self_mem_boundaryPrefixes.2 ?_)
  exact ⟨"https://a.b/m".toList, rfl, by decide, by decide⟩

end Examples
end Authz
end FunctionWasm

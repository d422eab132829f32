import Mathlib.Data.Prod.Lex
import FunctionWasm.Foundation.Decimal

/-!
# SemanticVersion — versions and the order they stand in

* `SemanticVersion` is a version with what may follow its three numbers, `SemanticVersion.text` how
  it is written.
* `SemanticVersion.Precedes` compares the numbers and puts a prerelease before its release; build
  metadata has no part in it.
* `core_hyphen`, `marked_hyphen` and `build_hyphen` say where a hyphen stands in what is written.
-/

namespace FunctionWasm

def isIdentifierChar (c : Char) : Bool :=
  c.isAlphanum || c = '-'

/-- An identifier of a prerelease or of build metadata. -/
structure VersionIdentifier where
  text : Text
  ne_nil : text ≠ []
  spelled : ∀ c ∈ text, isIdentifierChar c = true
  deriving DecidableEq

structure SemanticVersion where
  major : Nat
  minor : Nat
  patch : Nat
  prerelease : List VersionIdentifier
  build : List VersionIdentifier
  deriving DecidableEq

/-- Texts with a dot between them. -/
def withDots (parts : List Text) : Text :=
  ['.'].intercalate parts

theorem mem_withDots {c : Char} (hc : c ≠ '.') {parts : List Text} :
    c ∈ withDots parts ↔ ∃ p ∈ parts, c ∈ p := by
  unfold withDots
  induction parts with
  | nil => simp
  | cons p rest ih =>
      cases rest with
      | nil => simp
      | cons q rest =>
          rw [List.intercalate_cons_cons, List.mem_append, List.mem_append, List.mem_singleton, ih]
          simp [hc]

namespace SemanticVersion

/-- The three numbers. -/
def numbers (v : SemanticVersion) : List Text :=
  [decimalText v.major, decimalText v.minor, decimalText v.patch]

/-- Identifiers after their mark; nothing where there are none. -/
def marked (mark : Char) (ids : List VersionIdentifier) : Text :=
  if ids = [] then [] else mark :: withDots (ids.map VersionIdentifier.text)

/-- What is written after the numbers. -/
def suffix (v : SemanticVersion) : Text :=
  marked '-' v.prerelease ++ marked '+' v.build

def text (v : SemanticVersion) : Text :=
  withDots v.numbers ++ v.suffix

/-- A version with the `v` before it or without. -/
def spelled (v : SemanticVersion) (leading : Bool) : Text :=
  if leading then 'v' :: v.text else v.text

/-! ## The order -/

/-- What versions are compared by. -/
def precedence (v : SemanticVersion) : ℕ ×ₗ ℕ ×ₗ ℕ ×ₗ Bool :=
  toLex (v.major, toLex (v.minor, toLex (v.patch, decide (v.prerelease = []))))

def Precedes (v w : SemanticVersion) : Prop :=
  v.precedence < w.precedence

instance (v w : SemanticVersion) : Decidable (v.Precedes w) :=
  inferInstanceAs (Decidable (v.precedence < w.precedence))

/-! ## Hyphens -/

theorem numbers_digit {v : SemanticVersion} {p : Text} (hp : p ∈ v.numbers) {c : Char}
    (hc : c ∈ p) : c.isDigit = true := by
  have hdecimal : ∃ n, p = decimalText n := by
    simp only [numbers, List.mem_cons, List.not_mem_nil, or_false] at hp
    rcases hp with rfl | rfl | rfl <;> exact ⟨_, rfl⟩
  obtain ⟨n, rfl⟩ := hdecimal
  exact decimalText_digit hc

/-- What the numbers are written with. -/
theorem core_digit {v : SemanticVersion} {c : Char} (hc : c ∈ withDots v.numbers) :
    c = '.' ∨ c.isDigit = true := by
  by_cases hdot : c = '.'
  · exact .inl hdot
  · obtain ⟨p, hp, hcp⟩ := (mem_withDots hdot).1 hc
    exact .inr (numbers_digit hp hcp)

theorem core_hyphen (v : SemanticVersion) : '-' ∉ withDots v.numbers := by
  intro hmem
  have hdigit := core_digit hmem
  exact absurd hdigit (by decide)

theorem marked_hyphen (ids : List VersionIdentifier) : '-' ∈ marked '-' ids ↔ ids ≠ [] := by
  unfold marked
  split
  · next hnone => simp [hnone]
  · next hsome => simp [hsome]

/-- A hyphen in build metadata is one of an identifier. -/
def HyphenInBuild (v : SemanticVersion) : Prop :=
  ∃ i ∈ v.build, '-' ∈ i.text

instance (v : SemanticVersion) : Decidable v.HyphenInBuild :=
  inferInstanceAs (Decidable (∃ i ∈ v.build, '-' ∈ i.text))

theorem build_hyphen (v : SemanticVersion) : '-' ∈ marked '+' v.build ↔ v.HyphenInBuild := by
  have hplus : '-' ≠ '+' := by decide
  unfold marked HyphenInBuild
  split
  · next hnone => simp [hnone]
  · simp [hplus, mem_withDots (show '-' ≠ '.' by decide)]

theorem suffix_hyphen (v : SemanticVersion) :
    '-' ∈ v.suffix ↔ v.prerelease ≠ [] ∨ v.HyphenInBuild := by
  rw [suffix, List.mem_append, marked_hyphen, build_hyphen]

/-- What is after the numbers starts with a mark. -/
theorem suffix_head (v : SemanticVersion) : ∀ c ∈ v.suffix.head?, c = '-' ∨ c = '+' := by
  unfold suffix marked
  split
  · split
    · simp
    · simp
  · simp

/-- The text starts with a digit. -/
theorem text_cons (v : SemanticVersion) : ∃ c rest, v.text = c :: rest ∧ c.isDigit = true := by
  obtain ⟨c, rest, hmajor⟩ := List.exists_cons_of_ne_nil (decimalText_ne_nil v.major)
  have hdigit : c.isDigit = true := decimalText_digit (n := v.major) (hmajor ▸ List.mem_cons_self)
  refine ⟨c, rest ++ ('.' :: withDots [decimalText v.minor, decimalText v.patch]) ++ v.suffix, ?_,
    hdigit⟩
  simp [text, numbers, withDots, hmajor]

end SemanticVersion
end FunctionWasm

import FunctionWasm.Foundation.SemanticVersion
import FunctionWasm.Validate.Manifest

/-!
# MinRuntime — the oldest runtime a manifest asks for

What is parsed of a version is three words and a flag, and the flag is a hyphen anywhere after the
numbers.

* `parse_spelled` says what is parsed of a semantic version.
* `Misread` are the pairs where a hyphen of build metadata decides.
* `minRuntime_exact_iff` says for which pairs a manifest is refused exactly when the runtime precedes
  its minimum.
-/

namespace FunctionWasm

open Authz Egress SemanticVersion

/-! ## What is parsed -/

/-- Every number is one that a word of 64 bits holds. -/
def SemanticVersion.Fits (v : SemanticVersion) : Prop :=
  v.major < 2 ^ 64 ∧ v.minor < 2 ^ 64 ∧ v.patch < 2 ^ 64

instance (v : SemanticVersion) : Decidable v.Fits :=
  inferInstanceAs (Decidable (_ ∧ _))

/-- What a version is parsed to. -/
def SemanticVersion.parsed (v : SemanticVersion) : Semver where
  major := v.major
  minor := v.minor
  patch := v.patch
  release := decide (v.prerelease = [] ∧ ¬ v.HyphenInBuild)

theorem canonical_spelled (v : SemanticVersion) (leading : Bool) :
    canonical (v.spelled leading) = 'v' :: v.text := by
  unfold canonical SemanticVersion.spelled
  cases leading with
  | true => simp
  | false =>
      obtain ⟨c, rest, htext, hdigit⟩ := v.text_cons
      have hc : c ≠ 'v' := by
        rintro rfl
        exact absurd hdigit (by decide)
      simp [htext, hc]

theorem takeWhile_text (v : SemanticVersion) :
    (v.text.takeWhile fun c => c ≠ '-' && c ≠ '+') = withDots v.numbers := by
  have hcore : ∀ c ∈ withDots v.numbers, (c ≠ '-' && c ≠ '+') = true := by
    intro c hc
    rcases core_digit hc with rfl | hdigit
    · decide
    · have hminus : c ≠ '-' := by rintro rfl; exact absurd hdigit (by decide)
      have hplus : c ≠ '+' := by rintro rfl; exact absurd hdigit (by decide)
      simp [hminus, hplus]
  have hsuffix : (v.suffix.takeWhile fun c => c ≠ '-' && c ≠ '+') = [] := by
    have hhead := v.suffix_head
    cases htail : v.suffix with
    | nil => rfl
    | cons c rest =>
        rcases hhead c (by simp [htail]) with rfl | rfl
        · simp
        · simp
  rw [text, List.takeWhile_append_of_pos hcore, hsuffix, List.append_nil]

theorem splitOn_numbers (v : SemanticVersion) : (withDots v.numbers).splitOn '.' = v.numbers := by
  have hdot : ∀ p ∈ v.numbers, '.' ∉ p := by
    intro p hp hmem
    exact absurd (numbers_digit hp hmem) (by decide)
  exact List.splitOn_intercalate '.' hdot (by simp [numbers])

/-- The flag: a hyphen anywhere after the numbers. -/
theorem flag_text (v : SemanticVersion) :
    (withDots v.numbers ≠ v.text ∧ '-' ∈ v.text) ↔ v.prerelease ≠ [] ∨ v.HyphenInBuild := by
  rw [← suffix_hyphen]
  have htext : '-' ∈ v.text ↔ '-' ∈ v.suffix := by
    rw [text, List.mem_append]
    simp [core_hyphen]
  rw [htext]
  constructor
  · exact And.right
  · intro hmem
    refine ⟨fun heq => ?_, hmem⟩
    have hnil : v.suffix = [] := by
      rw [text] at heq
      exact List.self_eq_append_right.1 heq
    simp [hnil] at hmem

theorem parse_spelled (v : SemanticVersion) (leading : Bool) :
    parseSemver (canonical (v.spelled leading)) = if v.Fits then some v.parsed else none := by
  have hflag : (!decide (withDots v.numbers ≠ v.text ∧ '-' ∈ v.text)) = v.parsed.release := by
    simp only [flag_text, parsed, ← decide_not, not_or, not_not]
  have hread : ∀ n, readWord (2 ^ 64) (decimalText n) = if n < 2 ^ 64 then some n else none := by
    intro n
    split
    · next hlt => exact readWord_decimalText hlt
    · next hle => exact readWord_decimalText_of_le (Nat.not_lt.1 hle)
  rw [canonical_spelled]
  simp only [parseSemver]
  rw [takeWhile_text, splitOn_numbers, hflag]
  simp only [numbers, List.getD_cons_zero, List.getD_cons_succ, hread]
  by_cases hmajor : v.major < 2 ^ 64
  · by_cases hminor : v.minor < 2 ^ 64
    · by_cases hpatch : v.patch < 2 ^ 64
      · rw [if_pos hmajor, if_pos hminor, if_pos hpatch, if_pos ⟨hmajor, hminor, hpatch⟩]
        rfl
      · rw [if_neg hpatch, if_neg fun hfits : v.Fits => hpatch hfits.2.2]
        simp
    · rw [if_neg hminor, if_neg fun hfits : v.Fits => hminor hfits.2.1]
      simp
  · rw [if_neg hmajor, if_neg fun hfits : v.Fits => hmajor hfits.1]

/-! ## How two versions compare -/

theorem Semver.lt_iff {a b : Semver} :
    a.lt b = true ↔
      (toLex (a.major, toLex (a.minor, toLex (a.patch, a.release))) : ℕ ×ₗ ℕ ×ₗ ℕ ×ₗ Bool) <
        toLex (b.major, toLex (b.minor, toLex (b.patch, b.release))) := by
  simp [Semver.lt, Prod.Lex.toLex_lt_toLex, Bool.lt_iff]

/-- The three numbers as one key, and a flag after it. -/
theorem lex_flag_iff {a b c a' b' c' : ℕ} {f f' : Bool} :
    (toLex (a, toLex (b, toLex (c, f))) : ℕ ×ₗ ℕ ×ₗ ℕ ×ₗ Bool) <
        toLex (a', toLex (b', toLex (c', f'))) ↔
      (toLex (a, toLex (b, c)) : ℕ ×ₗ ℕ ×ₗ ℕ) < toLex (a', toLex (b', c')) ∨
        (a, b, c) = (a', b', c') ∧ f < f' := by
  simp only [Prod.Lex.toLex_lt_toLex, Prod.mk.injEq]
  tauto

/-- The numbers of one version come before those of the other. -/
def SemanticVersion.Older (v w : SemanticVersion) : Prop :=
  (toLex (v.major, toLex (v.minor, v.patch)) : ℕ ×ₗ ℕ ×ₗ ℕ) <
    toLex (w.major, toLex (w.minor, w.patch))

theorem precedes_iff (v w : SemanticVersion) :
    v.Precedes w ↔ v.Older w ∨ (v.major, v.minor, v.patch) = (w.major, w.minor, w.patch) ∧
      v.prerelease ≠ [] ∧ w.prerelease = [] := by
  unfold Precedes precedence
  rw [lex_flag_iff, Bool.lt_iff]
  simp [Older]

theorem parsed_lt_iff (v w : SemanticVersion) :
    v.parsed.lt w.parsed = true ↔
      v.Older w ∨ (v.major, v.minor, v.patch) = (w.major, w.minor, w.patch) ∧
        (v.prerelease ≠ [] ∨ v.HyphenInBuild) ∧ w.prerelease = [] ∧ ¬ w.HyphenInBuild := by
  rw [Semver.lt_iff, lex_flag_iff, Bool.lt_iff]
  simp only [Older, parsed, decide_eq_false_iff_not, decide_eq_true_eq]
  tauto

/-- Equal numbers and a minimum that is a release, where a hyphen in build metadata makes a
prerelease: of the minimum, or of a runtime that is a release too. -/
def Misread (have_ want : SemanticVersion) : Prop :=
  (have_.major, have_.minor, have_.patch) = (want.major, want.minor, want.patch) ∧
    want.prerelease = [] ∧
      if have_.prerelease = [] then have_.HyphenInBuild ∧ ¬ want.HyphenInBuild
      else want.HyphenInBuild

instance (have_ want : SemanticVersion) : Decidable (Misread have_ want) :=
  inferInstanceAs (Decidable (_ ∧ _))

theorem lt_faithful_iff (have_ want : SemanticVersion) :
    (have_.parsed.lt want.parsed = true ↔ have_.Precedes want) ↔ ¬ Misread have_ want := by
  rw [parsed_lt_iff, precedes_iff]
  unfold Misread
  by_cases hcore : (have_.major, have_.minor, have_.patch) = (want.major, want.minor, want.patch)
  · have hnot : ¬ have_.Older want := by
      simp only [Prod.mk.injEq] at hcore
      simp [Older, hcore]
    by_cases hpre : have_.prerelease = []
    · simp [hcore, hnot, hpre]
      tauto
    · simp [hcore, hnot, hpre]
  · simp [hcore]

/-! ## The check -/

/-- A version is neither empty nor a development build's. -/
theorem spelled_ne (v : SemanticVersion) (leading : Bool) :
    v.spelled leading ≠ [] ∧ v.spelled leading ≠ "(devel)".toList := by
  obtain ⟨c, rest, htext, hdigit⟩ := v.text_cons
  have hc : c ≠ '(' := by
    rintro rfl
    exact absurd hdigit (by decide)
  unfold SemanticVersion.spelled
  cases leading with
  | true => simp
  | false => simp [htext, hc]

namespace Manifest

variable [SchemaLibrary]

/-- What is refused for its minimum, where the versions are semantic. -/
theorem checkRuntime_spelled {m : Manifest} {have_ want : SemanticVersion} {l l' : Bool}
    (hm : m.minRuntime = want.spelled l) :
    m.checkRuntime (have_.spelled l') ≠ .ok () ↔
      (have_.Fits ∧ want.Fits) ∧ have_.parsed.lt want.parsed = true := by
  have hmin : m.minRuntime ≠ [] := hm ▸ (spelled_ne want l).1
  obtain ⟨hnil, hdevel⟩ := spelled_ne have_ l'
  unfold checkRuntime
  rw [if_neg (by simp only [hmin, hnil, hdevel, or_self, not_false_eq_true]), hm]
  simp only [parse_spelled]
  by_cases hfits : have_.Fits
  · by_cases hwant : want.Fits
    · simp [hfits, hwant, demand_eq_ok]
    · simp [hwant]
  · simp [hfits]

variable [HttpLibrary]

/-- A manifest with a minimum is accepted where it is without one and its minimum is met. -/
theorem check_minRuntime (m : Manifest) (g : Grants) (config : Option SchemaLibrary.Json)
    (runtimeVersion : Text) :
    m.check g config runtimeVersion = .ok () ↔
      ({ m with minRuntime := [] } : Manifest).check g config runtimeVersion = .ok () ∧
        m.checkRuntime runtimeVersion = .ok () := by
  have hnone : ({ m with minRuntime := [] } : Manifest).checkRuntime runtimeVersion = .ok () :=
    if_pos (.inl rfl)
  unfold check
  simp only [check_bind_eq_ok, hnone]
  have hkind : ({ m with minRuntime := [] } : Manifest).kind = m.kind := rfl
  have hconfig : ({ m with minRuntime := [] } : Manifest).validateConfig config =
      m.validateConfig config := rfl
  rw [hkind, hconfig]
  tauto

/-- Which versions are compared as their order has it, with or without a leading `v`. -/
theorem minRuntime_exact_iff (m : Manifest) (have_ want : SemanticVersion) (l l' : Bool) :
    let asked : Manifest := { m with minRuntime := want.spelled l }
    let runtime := have_.spelled l'
    (∀ g config, asked.check g config runtime = .ok () ↔
        ({ m with minRuntime := [] } : Manifest).check g config runtime = .ok () ∧
          asked.checkRuntime runtime = .ok ()) ∧
      ((asked.checkRuntime runtime ≠ .ok () ↔ have_.Precedes want) ↔
        if have_.Fits ∧ want.Fits then ¬ Misread have_ want else ¬ have_.Precedes want) := by
  intro asked runtime
  have hrefused : asked.checkRuntime runtime ≠ .ok () ↔
      (have_.Fits ∧ want.Fits) ∧ have_.parsed.lt want.parsed = true := checkRuntime_spelled rfl
  refine ⟨fun g config => check_minRuntime asked g config runtime, ?_⟩
  rw [hrefused]
  split
  · next hfits =>
      rw [← lt_faithful_iff]
      simp only [hfits, true_and]
  · next hfits => simp only [hfits, false_and, false_iff]

end Manifest

/-! ## A hyphen in build metadata -/

section Sample

/-- No schema is compiled. -/
@[reducible] def unusedSchemas : SchemaLibrary where
  Json := Unit
  isNull _ := true
  emptyObject := ()
  compile _ := .ok ()
  firstError _ _ := none

attribute [local instance] unusedSchemas

def release123 : SemanticVersion := ⟨1, 2, 3, [], []⟩

def built123 : SemanticVersion where
  __ := release123
  build := [⟨"build-1".toList, by decide, by decide⟩]

def asks123 : Manifest where
  type := []
  abi := 2
  requires := none
  config := none
  minRuntime := release123.spelled true
  composes := []

/-- The runtime is the version that is asked for. -/
theorem build_read_as_prerelease :
    built123.spelled true = "v1.2.3+build-1".toList ∧
      asks123.minRuntime = "v1.2.3".toList ∧ ¬ built123.Precedes release123 ∧
      asks123.checkRuntime (built123.spelled true) =
        .error "requires runtime v1.2.3 or newer, this is v1.2.3+build-1".toList := by
  refine ⟨?_, ?_, ?_, ?_⟩ <;> decide +kernel

end Sample
end FunctionWasm

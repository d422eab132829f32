import FunctionWasm.Foundation.Unicode
import Mathlib.Data.List.Forall2

/-!
# LetterCase — texts that differ in the case of their letters

The lower case of a text is put together from the lower cases of its parts, but for the capital
sigmas, which look at what is around them.

* `SameLetters t t'` says that two texts are the same up to the case of each character.
* `finalSigmas` are the places of the capital sigmas that end their words.
* `toLowercase_eq_iff` says when such texts have one lower case, `toLowercase_append_mark` and
  `toLowercase_append_marks` what becomes of a text with marks after it.

`WordBoundaries` is what Unicode states of the marks in a text and of the sigma.
-/

namespace FunctionWasm
namespace Unicode

open UnicodeTables

variable [UnicodeTables]

/-! ## Parts of a text -/

theorem lowerIn_mark {before after : Text} {c : Char} (h : isMark c = true) :
    lowerIn before c after = [c] := by
  simp only [isMark, Bool.and_eq_true, Bool.not_eq_true'] at h
  have hne : c ≠ capitalSigma := by
    rintro rfl
    exact absurd h.1 (by decide)
  rw [lowerIn, if_neg hne, lowerChar_ascii c h.1, toLower_eq_self h.2]

theorem lowerFrom_marks {before t : Text} (h : ∀ c ∈ t, isMark c = true) :
    lowerFrom before t = t := by
  induction t generalizing before with
  | nil => rfl
  | cons c rest ih =>
      have hrest : lowerFrom (before ++ [c]) rest = rest := ih fun d hd => h d (by simp [hd])
      rw [lowerFrom, lowerIn_mark (h c (by simp)), hrest, List.singleton_append]

/-- The lower case of the rest stands at the end, whatever is before it. -/
theorem lowerFrom_append (before t rest : Text) :
    ∃ front, lowerFrom before (t ++ rest) = front ++ lowerFrom (before ++ t) rest := by
  induction t generalizing before with
  | nil => exact ⟨[], by simp⟩
  | cons c t ih =>
      rcases ih (before ++ [c]) with ⟨front, heq⟩
      refine ⟨lowerIn before c (t ++ rest) ++ front, ?_⟩
      simp only [List.cons_append, lowerFrom, heq, List.append_assoc, List.nil_append]

theorem toLowercase_marks_suffix {t marks : Text} (h : ∀ c ∈ marks, isMark c = true) :
    marks <:+ toLowercase (t ++ marks) := by
  rcases lowerFrom_append [] t marks with ⟨front, heq⟩
  exact ⟨front, by rw [toLowercase, heq, lowerFrom_marks h]⟩

/-! ## Words -/

/-- What Unicode states of the marks in a text and of the sigma. -/
structure WordBoundaries : Prop where
  sigma : lowerChar capitalSigma = ['σ']
  uncased : ∀ c, isMark c = true → cased c = false
  number : caseIgnorable '#' = false
  backslash : caseIgnorable '\\' = false

/-- No word goes on into the text. -/
def quiet (t : Text) : Bool := !(t.dropWhile caseIgnorable).head?.any cased

theorem quiet_cons {c : Char} {rest : Text} (hc : cased c = false) (hrest : quiet rest = true) :
    quiet (c :: rest) = true := by
  cases hignore : caseIgnorable c with
  | true => simpa [quiet, hignore] using hrest
  | false => simp [quiet, hignore, hc]

theorem finalSigma_append {before after rest : Text} (h : quiet rest = true) :
    finalSigma before (after ++ rest) = finalSigma before after := by
  simp only [quiet, Bool.not_eq_true'] at h
  have hafter : ((after ++ rest).dropWhile caseIgnorable).head?.any cased =
      (after.dropWhile caseIgnorable).head?.any cased := by
    rw [List.dropWhile_append]
    split
    · next hempty =>
        rw [h, List.isEmpty_iff.1 hempty]
        rfl
    · next hsome =>
        rcases List.exists_cons_of_ne_nil (mt List.isEmpty_iff.2 hsome) with ⟨c, left, heq⟩
        rw [heq, List.cons_append, List.head?_cons, List.head?_cons]
  rw [finalSigma, hafter, finalSigma]

/-- A character that no word goes on across hides what is before it. -/
theorem finalSigma_hidden {front before after : Text} {m : Char} (hm : caseIgnorable m = false) :
    finalSigma (front ++ m :: before) after = finalSigma (m :: before) after := by
  have hfirst : ((front ++ m :: before).reverse.dropWhile caseIgnorable).head? =
      ((m :: before).reverse.dropWhile caseIgnorable).head? := by
    have hrev : (front ++ m :: before).reverse = (m :: before).reverse ++ front.reverse := by simp
    have hsome : ((m :: before).reverse.dropWhile caseIgnorable).isEmpty = false := by
      rw [List.reverse_cons, List.dropWhile_append]
      split <;> simp [hm]
    rw [hrev, List.dropWhile_append, hsome, if_neg (by simp), List.head?_append_of_ne_nil]
    simpa [List.isEmpty_iff] using hsome
  rw [finalSigma, hfirst, finalSigma]

theorem lowerFrom_hidden {front before t : Text} {m : Char} (hm : caseIgnorable m = false) :
    lowerFrom (front ++ m :: before) t = lowerFrom (m :: before) t := by
  induction t generalizing before with
  | nil => rfl
  | cons c rest ih =>
      have hstep : lowerIn (front ++ m :: before) c rest = lowerIn (m :: before) c rest := by
        simp only [lowerIn, finalSigma_hidden hm]
      have hnext : front ++ m :: before ++ [c] = front ++ m :: (before ++ [c]) := by simp
      rw [lowerFrom, hstep, hnext, ih, lowerFrom, List.cons_append]

theorem lowerFrom_append_quiet {before t rest : Text} (h : quiet rest = true) :
    lowerFrom before (t ++ rest) = lowerFrom before t ++ lowerFrom (before ++ t) rest := by
  induction t generalizing before with
  | nil => simp [lowerFrom]
  | cons c t ih =>
      have hstep : lowerIn before c (t ++ rest) = lowerIn before c t := by
        simp only [lowerIn, finalSigma_append h]
      have hnext : before ++ [c] ++ t = before ++ c :: t := by simp
      rw [List.cons_append, lowerFrom, hstep, ih, lowerFrom, hnext, List.append_assoc]

/-- What stands after a text and marks: nothing, or what a word cannot go on into. -/
def Breaks (rest : Text) : Prop := ∀ c, rest.head? = some c → c = '#' ∨ c = '\\'

/-- The lower case of a text with marks after it, and what comes after them. -/
theorem toLowercase_append_marks (w : WordBoundaries) {rest : Text} (hrest : Breaks rest) :
    ∃ tail, ∀ t marks, (∀ c ∈ marks, isMark c = true) →
      toLowercase (t ++ marks ++ rest) = toLowercase t ++ marks ++ tail := by
  have hquiet : quiet rest = true ∧ ∃ tail, ∀ before, lowerFrom before rest = tail := by
    cases rest with
    | nil => exact ⟨rfl, [], fun _ => rfl⟩
    | cons m rest =>
        have hm : isMark m = true ∧ caseIgnorable m = false := by
          rcases hrest m rfl with rfl | rfl
          · exact ⟨by decide, w.number⟩
          · exact ⟨by decide, w.backslash⟩
        refine ⟨by simp [quiet, hm.2, w.uncased m hm.1], m :: lowerFrom [m] rest, ?_⟩
        intro before
        rw [lowerFrom, lowerIn_mark hm.1, lowerFrom_hidden hm.2]
        rfl
  rcases hquiet with ⟨hquiet, tail, htail⟩
  refine ⟨tail, ?_⟩
  intro t marks hmarks
  have hboth : quiet (marks ++ rest) = true := by
    induction marks with
    | nil => exact hquiet
    | cons c marks ih =>
        exact quiet_cons (w.uncased c (hmarks c (by simp))) (ih fun d hd => hmarks d (by simp [hd]))
  calc toLowercase (t ++ marks ++ rest) = lowerFrom [] (t ++ (marks ++ rest)) := by
        rw [toLowercase, List.append_assoc]
    _ = lowerFrom [] t ++ lowerFrom t (marks ++ rest) := lowerFrom_append_quiet hboth
    _ = lowerFrom [] t ++ (lowerFrom t marks ++ lowerFrom (t ++ marks) rest) := by
        rw [lowerFrom_append_quiet hquiet]
    _ = toLowercase t ++ marks ++ tail := by
        rw [lowerFrom_marks hmarks, htail, toLowercase, List.append_assoc]

/-! ## Texts with the same letters -/

/-- The same text up to the case of each character. -/
def SameLetters (t t' : Text) : Prop := List.Forall₂ (fun c c' => lowerChar c = lowerChar c') t t'

/-- Whether each character is a capital sigma that ends its word. -/
def finalSigmasFrom (before : Text) : Text → List Bool
  | [] => []
  | c :: after =>
      (c = capitalSigma && finalSigma before after) :: finalSigmasFrom (before ++ [c]) after

def finalSigmas (t : Text) : List Bool := finalSigmasFrom [] t

theorem length_lowerIn (w : WordBoundaries) {before after : Text} {c : Char} :
    (lowerIn before c after).length = (lowerChar c).length := by
  unfold lowerIn
  split
  · next hc =>
      rw [hc, w.sigma]
      rfl
  · rfl

theorem lowerIn_eq_iff (w : WordBoundaries) {before after before' after' : Text} {c c' : Char}
    (h : lowerChar c = lowerChar c') :
    lowerIn before c after = lowerIn before' c' after' ↔
      (decide (c = capitalSigma) && finalSigma before after) =
        (decide (c' = capitalSigma) && finalSigma before' after') := by
  have hsigmas : ∀ b b' : Bool, ([if b then 'ς' else 'σ'] : Text) = [if b' then 'ς' else 'σ'] ↔
      b = b' := by decide
  by_cases hc : c = capitalSigma
  · by_cases hc' : c' = capitalSigma
    · simp [lowerIn, hc, hc', hsigmas]
    · -- the other is the small sigma, or what has its lower case
      have hlower : lowerChar c' = ([if false then 'ς' else 'σ'] : Text) := by
        rw [← h, hc, w.sigma]
        rfl
      simp only [lowerIn, if_pos hc, if_neg hc', hlower, hsigmas]
      simp [hc, hc']
  · by_cases hc' : c' = capitalSigma
    · have hlower : lowerChar c = ([if false then 'ς' else 'σ'] : Text) := by
        rw [h, hc', w.sigma]
        rfl
      simp only [lowerIn, if_neg hc, if_pos hc', hlower, hsigmas]
      simp [hc, hc']
    · simp [lowerIn, hc, hc', h]

theorem length_lowerFrom (w : WordBoundaries) {before before' t t' : Text}
    (h : SameLetters t t') : (lowerFrom before t).length = (lowerFrom before' t').length := by
  induction h generalizing before before' with
  | nil => rfl
  | cons hc _ ih =>
      rw [lowerFrom, lowerFrom, List.length_append, List.length_append, length_lowerIn w,
        length_lowerIn w, hc, ih]

theorem lowerFrom_eq_iff (w : WordBoundaries) {before before' t t' : Text}
    (h : SameLetters t t') : lowerFrom before t = lowerFrom before' t' ↔
      finalSigmasFrom before t = finalSigmasFrom before' t' := by
  induction h generalizing before before' with
  | nil => exact iff_of_true rfl rfl
  | @cons c c' after after' hc _ ih =>
      have hlength : (lowerIn before c after).length = (lowerIn before' c' after').length := by
        rw [length_lowerIn w, length_lowerIn w, hc]
      calc lowerFrom before (c :: after) = lowerFrom before' (c' :: after')
          ↔ lowerIn before c after = lowerIn before' c' after' ∧
              lowerFrom (before ++ [c]) after = lowerFrom (before' ++ [c']) after' := by
            rw [lowerFrom, lowerFrom]
            constructor
            · intro heq
              exact List.append_inj heq hlength
            · rintro ⟨hhead, htail⟩
              rw [hhead, htail]
        _ ↔ _ := by
            rw [lowerIn_eq_iff w hc, ih, finalSigmasFrom, finalSigmasFrom, List.cons.injEq]

/-- Texts with the same letters have one lower case when the same sigmas end their words. -/
theorem toLowercase_eq_iff (w : WordBoundaries) {t t' : Text} (h : SameLetters t t') :
    toLowercase t = toLowercase t' ↔ finalSigmas t = finalSigmas t' :=
  lowerFrom_eq_iff w h

end Unicode
end FunctionWasm

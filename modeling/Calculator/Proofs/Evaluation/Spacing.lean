import Calculator.Evaluation
import Mathlib.Control.Monad.Basic

/-!
# Blanks and separators

An evaluation begins by throwing blanks and thousands separators away, wherever they stand: inside a
number, a name or a double star, or between the digits of a factorial and its sign.  Every later
stage, its failures included, works on what is left, which is the same for two texts with the same
`significant` characters.  So such texts are reduced to the same text and have the same value, or
fail for the same cause with the same text and position in it (`evaluate_ignores_spacing`).

Separating the thousands changes none of the significant characters, and may therefore be done, done
twice or undone in front of every evaluation.
-/

set_option autoImplicit false

namespace Calculator

/-- What is left of a text without its blanks and separators. -/
def significant (cs : List Char) : List Char := cs.filter fun c ↦ !isIgnored c

theorem normalize_significant (cs : List Char) : normalize (significant cs) = normalize cs :=
  normalize_filter cs

/-- Separators are among the characters that are not significant. -/
theorem significant_strip (cs : List Char) : significant (Text.strip cs) = significant cs := by
  rw [significant, Text.strip, List.filter_filter]
  refine List.filter_congr fun c _ ↦ ?_
  cases hc : c == Text.separator <;> simp [isIgnored, hc, bne]

theorem significant_applyGrouping (cs : List Char) :
    significant (Text.applyGrouping cs) = significant cs := by
  rw [← significant_strip, Text.strip_applyGrouping, significant_strip]

variable {x y : List Char}

theorem reduce_eq_of_significant_eq (h : significant x = significant y) : reduce x = reduce y := by
  rw [reduce, ← normalize_significant, h, normalize_significant, reduce]

theorem evaluate_eq_of_significant_eq (h : significant x = significant y) :
    evaluate x = evaluate y := by
  rw [evaluate, reduce_eq_of_significant_eq h, evaluate]

/-- Separating the thousands makes no difference to what is evaluated. -/
theorem evaluate_applyGrouping (cs : List Char) :
    evaluate (Text.applyGrouping cs) = evaluate cs :=
  evaluate_eq_of_significant_eq (significant_applyGrouping cs)

/-- **Spacing and grouping never matter.**  Texts that differ only in blanks and separators are
reduced and evaluated alike, be it to a value or to an error.  In particular nothing depends on
whether the thousands are separated, which is never done twice. -/
theorem evaluate_ignores_spacing :
    (∀ x y : List Char,
      (x.filter fun c ↦ !(Text.isBlank c || c == ',')) =
        (y.filter fun c ↦ !(Text.isBlank c || c == ',')) →
      reduce x = reduce y ∧ evaluate x = evaluate y) ∧
    ∀ x : List Char,
      Text.strip (Text.applyGrouping x) = Text.strip x ∧
      evaluate (Text.applyGrouping x) = evaluate (Text.strip x) ∧
      evaluate (Text.strip x) = evaluate x ∧
      Text.applyGrouping (Text.applyGrouping x) = Text.applyGrouping x := by
  refine ⟨fun x y h ↦ ?_, fun x ↦ ?_⟩
  · have hsignificant : significant x = significant y := h
    exact ⟨reduce_eq_of_significant_eq hsignificant, evaluate_eq_of_significant_eq hsignificant⟩
  · have hstrip : evaluate (Text.strip x) = evaluate x :=
      evaluate_eq_of_significant_eq (significant_strip x)
    exact ⟨Text.strip_applyGrouping x, (evaluate_applyGrouping x).trans hstrip.symm, hstrip,
      Text.applyGrouping_idem x⟩

/-- Blanks and separators inside a name, a double star and a factorial, and in front of a character
whose position is reported. -/
theorem evaluate_ignores_spacing_everywhere :
    let spaced := "s\u00a0in(3 0)* *2+ 1,0 !".toList
    let plain := "sin(30)**2+10!".toList
    let misspelled := "1 ,2\u3000@".toList
    (spaced.filter fun c ↦ !(Text.isBlank c || c == ',')) =
        (plain.filter fun c ↦ !(Text.isBlank c || c == ',')) ∧
      reduce spaced = reduce plain ∧ evaluate spaced = evaluate plain ∧
      evaluate misspelled = .error (.arithmetic (.unexpectedChar '@' 2)) := by
  intro spaced plain misspelled
  have hsame : (spaced.filter fun c ↦ !(Text.isBlank c || c == ',')) =
      (plain.filter fun c ↦ !(Text.isBlank c || c == ',')) := by decide
  have hvalues := evaluate_ignores_spacing.1 spaced plain hsame
  have herrors := evaluate_ignores_spacing.1 misspelled "12@".toList (by decide)
  exact ⟨hsame, hvalues.1, hvalues.2, herrors.2.trans (by decide +kernel)⟩

end Calculator

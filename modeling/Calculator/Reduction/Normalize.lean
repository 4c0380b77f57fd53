import Calculator.Decimal.Writing
import Calculator.MathFunction
import Calculator.Text.Blank
import Calculator.Text.Grouping

/-!
# Normalising what was typed

The first step of an evaluation looks at one character at a time.  Blanks and thousands separators
disappear, wherever they stand; the display signs for products, quotients and powers become the
signs of the arithmetic language; and pi becomes its digits.
-/

set_option autoImplicit false

namespace Calculator

/-- A character that means nothing to an expression. -/
def isIgnored (c : Char) : Bool := Text.isBlank c || c == Text.separator

/-- What one character stands for. -/
def normalizeChar (c : Char) : List Char :=
  if isIgnored c then []
  else if c = '×' then ['*']
  else if c = '÷' then ['/']
  else if c = 'π' then numberText pi
  else if c = '^' then ['*', '*']
  else [c]

/-- The text in the signs of the arithmetic language. -/
def normalize (cs : List Char) : List Char := cs.flatMap normalizeChar

theorem normalize_append (a b : List Char) : normalize (a ++ b) = normalize a ++ normalize b :=
  List.flatMap_append

/-- Only the characters that are not ignored matter. -/
theorem normalize_filter (cs : List Char) :
    normalize (cs.filter fun c ↦ !isIgnored c) = normalize cs := by
  induction cs with
  | nil => rfl
  | cons c cs ih =>
    rw [List.filter_cons]
    by_cases hc : isIgnored c = true
    · simpa [normalize, hc, normalizeChar] using ih
    · simpa [normalize, hc] using ih

end Calculator

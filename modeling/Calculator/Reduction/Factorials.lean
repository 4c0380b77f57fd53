import Calculator.Reduction.Calls
import Calculator.Text.DecimalDigit

/-!
# Factorials

A run of decimal digits directly followed by an exclamation mark is a factorial, and the digits are
all that belongs to it: the sign, the point or the parenthesis in front of them do not.  Any
script's digits are recognised, but only the ASCII ones denote a number.

A factorial is the product of doubles, which is finite up to `maxFactorial`.  Beyond it, and for a
number that cannot be read, the value counts as not finite.
-/

set_option autoImplicit false

namespace Calculator

/-- The product of the whole numbers up to `n`, in doubles. -/
def factorial : Nat → Float
  | 0 => 1
  | n + 1 => factorial n * Float.ofNat (n + 1)

/-- The largest number whose factorial is a finite double. -/
def maxFactorial : Nat := 170

/-- The digits of a factorial at the start of the text, and the text behind it. -/
def factorial? (cs : List Char) : Option (List Char × List Char) :=
  match cs.takeWhile Text.isDecimalDigit, cs.dropWhile Text.isDecimalDigit with
  | d :: ds, '!' :: rest => some (d :: ds, rest)
  | _, _ => none

/-- Factorials of literal numbers. -/
def factorials : Pattern (List Char) where
  match? := factorial?
  shorter {cs digits rest} h := by
    unfold factorial? at h
    split at h
    · rename_i d ds rest' htake hdrop
      have hlen := congrArg List.length
        (List.takeWhile_append_dropWhile (p := Text.isDecimalDigit) (l := cs))
      rw [List.length_append, hdrop] at hlen
      cases h
      simp only [List.length_cons] at hlen
      omega
    · cases h

/-- The text of a factorial's value. -/
def factorialText (digits : List Char) : Except EvalError (List Char) :=
  let n := Nat.ofDigitChars 10 digits 0
  if digits.all Char.isDigit && n ≤ maxFactorial then finiteText (factorial n)
  else .error .notFinite

/-- Replace the factorials by their values. -/
def resolveFactorials (cs : List Char) : Except EvalError (List Char) :=
  factorials.replaceAll factorialText cs

end Calculator

import Calculator.Proofs.Decimal.Bits
import Calculator.Reduction.Factorials

/-!
# The values of factorials

A factorial is a product of doubles, and the calculator does not compute it beyond `maxFactorial`.
Nothing is lost by that: a product that is not finite stays so, and the first factorial that is not
finite is the next one (`isFinite_factorial_iff`).  So a factorial is replaced by its exact text if
it is finite, and is an error otherwise (`factorialText_eq`).
-/

set_option autoImplicit false

namespace Calculator

/-- A product that is not finite stays so. -/
theorem isFinite_factorial_of_le {m n : Nat} (hle : m ≤ n) (h : (factorial m).isFinite = false) :
    (factorial n).isFinite = false := by
  induction n, hle using Nat.le_induction with
  | base => exact h
  | succ n _ ih => exact Double.isFinite_mul ih _

/-- **The bound is where factorials stop being finite**: it changes no value. -/
theorem isFinite_factorial_iff {n : Nat} : (factorial n).isFinite = true ↔ n ≤ maxFactorial := by
  obtain ⟨hlast, hnext⟩ : (factorial maxFactorial).isFinite = true ∧
      (factorial (maxFactorial + 1)).isFinite = false := by decide +kernel
  constructor
  · intro h
    by_contra hlt
    rw [isFinite_factorial_of_le (Nat.lt_of_not_le hlt) hnext] at h
    cases h
  · intro hle
    by_contra h
    rw [isFinite_factorial_of_le hle (Bool.eq_false_iff.mpr h)] at hlast
    cases hlast

/-- A factorial has no minus. -/
theorem isNegative_factorial (n : Nat) : Double.isNegative (factorial n) = false := by
  induction n with
  | zero => exact Double.isNegative_ofNat 1
  | succ n ih => exact Double.isNegative_mul ih (Double.isNegative_ofNat _)

/-- **A factorial of ASCII digits** is replaced by the exact text of the product, if that is
finite. -/
theorem factorialText_eq {digits : List Char} (h : ∀ c ∈ digits, c.isDigit = true) :
    factorialText digits = finiteText (factorial (Nat.ofDigitChars 10 digits 0)) := by
  have hall : digits.all Char.isDigit = true := List.all_eq_true.mpr h
  simp only [factorialText, hall, Bool.true_and]
  split
  · rfl
  · rename_i hlt
    have hfinite : (factorial (Nat.ofDigitChars 10 digits 0)).isFinite = false :=
      Bool.eq_false_iff.mpr fun h ↦ hlt (decide_eq_true (isFinite_factorial_iff.mp h))
    rw [finiteText, hfinite]
    rfl

end Calculator

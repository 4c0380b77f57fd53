import Calculator.Decimal.Numeral
import Calculator.Decimal.Writing
import Calculator.Proofs.Decimal.Bits
import Calculator.Proofs.Decimal.ReadBack
import Calculator.Proofs.Decimal.Scanning

/-!
# The text of a number is a numeral

A decimal is written as a numeral without an exponent, `Decimal.numeral`, whose digits are those of
the coefficient and whose scale is minus the number of places.  For the shortest decimal of a double
the numeral's value is therefore the double, and so the exact text of a finite number is a numeral
of the number's magnitude, with a minus in front if the number has one (`exists_numeral`).
-/

set_option autoImplicit false

namespace Calculator

namespace Decimal

/-- The numeral as which a decimal is written. -/
def numeral (d : Decimal) : Numeral :=
  ⟨d.integerDigits, if d.places = 0 then none else some d.fractionDigits, none⟩

variable (d : Decimal)

theorem numeral_text : d.numeral.text = d.text := by
  rw [numeral, Numeral.text, Decimal.text]
  split
  · exact (List.append_nil _).trans (List.append_nil _)
  · exact List.append_nil _

theorem numeral_wellFormed : d.numeral.WellFormed where
  integer _ := isDigit_of_mem_integerDigits
  fraction ds hds c hc := by
    simp only [numeral] at hds
    split at hds
    · cases hds
    · cases hds
      exact isDigit_of_mem_fractionDigits hc
  exponent e he := by cases he

theorem numeral_isComplete : d.numeral.isComplete = true := by
  have hne : d.integerDigits ≠ [] := Nat.toDigits_ne_nil
  simp [Numeral.isComplete, numeral, hne]

theorem length_fraction : (d.numeral.fraction.getD []).length = d.places := by
  simp only [numeral]
  split
  · rename_i h
    exact h.symm
  · rename_i h
    exact length_fractionDigits h

/-- The digits of a decimal are those of its coefficient. -/
theorem ofDigitChars_digits : Nat.ofDigitChars 10 d.numeral.digits 0 = d.coefficient := by
  have hinteger : Nat.ofDigitChars 10 d.integerDigits 0 = d.coefficient / Nat.pow 10 d.places :=
    Nat.ofDigitChars_ten_toDigits
  rw [Numeral.digits, numeral, Nat.ofDigitChars_append, hinteger]
  split
  · rename_i h
    rw [h]
    exact Nat.div_one _
  · rename_i h
    have hfraction : Nat.ofDigitChars 10 d.fractionDigits 0
        = d.coefficient % Nat.pow 10 d.places := by
      rw [fractionDigits, List.leftpad, Nat.ofDigitChars_append, Nat.ofDigitChars_replicate_zero,
        Nat.mul_zero, Nat.ofDigitChars_ten_toDigits]
    rw [Option.getD_some, Nat.ofDigitChars_eq_ofDigitChars_zero, hfraction,
      length_fractionDigits h]
    exact Nat.div_add_mod _ _

theorem numeral_scale : d.numeral.scale = -(d.places : Int) := by
  rw [Numeral.scale, length_fraction]
  rfl

theorem numeral_clampedScale : d.numeral.clampedScale = -(d.places : Int) := by
  have hle : d.places ≤ d.numeral.digits.length := by
    rw [Numeral.digits, List.length_append, length_fraction]
    exact Nat.le_add_left _ _
  rw [Numeral.clampedScale, numeral_scale]
  omega

/-- What a decimal reads as. -/
theorem numeral_magnitude :
    d.numeral.magnitude = Double.nearest d.coefficient (Nat.pow 10 d.places) := by
  rw [Numeral.magnitude, ofDigitChars_digits, numeral_clampedScale, Int.neg_neg, Int.toNat_natCast,
    Int.toNat_neg_natCast]
  exact congrArg (Double.nearest · _) (Nat.mul_one _)

end Decimal

namespace Double

theorem nearest_zero (den : Nat) : nearest 0 den = 0 := by
  simp [nearest, roundHalfEven]

/-- Zero is written like a decimal, too. -/
theorem exists_decimal {m : Nat} (h : m ≤ infinity) :
    ∃ d : Decimal, nearest d.coefficient (Nat.pow 10 d.places) = m ∧
      d.text = if m = 0 then ['0'] else (shortest m).text := by
  rcases Nat.eq_zero_or_pos m with rfl | hpos
  · exact ⟨⟨0, 0⟩, nearest_zero _, by decide⟩
  · exact ⟨shortest m, nearest_shortest hpos h, (if_neg (Nat.ne_of_gt hpos)).symm⟩

end Double

/-- The exact text of a finite number is that of a decimal near to it, with or without a minus. -/
theorem exists_decimal_numberText {x : Float} (h : x.isFinite = true) :
    ∃ d : Decimal, Double.nearest d.coefficient (Nat.pow 10 d.places) = Double.magnitude x ∧
      numberText x = signed (Double.isNegative x) d.text := by
  have hlt := Double.isFinite_iff.mp h
  obtain ⟨d, hd, htext⟩ := Double.exists_decimal (Nat.le_of_lt hlt)
  refine ⟨d, hd, ?_⟩
  simp only [numberText]
  rw [if_neg (Nat.lt_asymm hlt), if_neg (Nat.ne_of_lt hlt), htext]
  split <;> rfl

/-- **The exact text of a finite number** is a numeral of its magnitude, with or without a minus. -/
theorem exists_numeral {x : Float} (h : x.isFinite = true) :
    ∃ n : Numeral, n.WellFormed ∧ n.isComplete = true ∧
      n.magnitude = Double.magnitude x ∧ numberText x = signed (Double.isNegative x) n.text := by
  obtain ⟨d, hd, htext⟩ := exists_decimal_numberText h
  refine ⟨d.numeral, d.numeral_wellFormed, d.numeral_isComplete, ?_, ?_⟩
  · rw [d.numeral_magnitude, hd]
  · rw [htext, d.numeral_text]

end Calculator

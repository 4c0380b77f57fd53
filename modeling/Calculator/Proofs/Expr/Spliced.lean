import Calculator.Proofs.Decimal.NumberText
import Calculator.Proofs.Expr.Lexing
import Calculator.Proofs.Expr.Reading

/-!
# Values spliced into a text

A finite value that is written into a text is read again as an expression: a number, or a number
behind a minus.  `Expr.ofFloat` is that expression, and its value is the value that was written.
Because of the minus it binds only as strongly as an operand with a sign.
-/

set_option autoImplicit false

namespace Calculator

/-- The exact text of a finite number is a complete numeral or a minus and one. -/
theorem numberText_cases {x : Float} (h : x.isFinite = true) :
    ∃ n : Numeral, n.WellFormed ∧ n.isComplete = true ∧
      (numberText x = n.text ∨ numberText x = '-' :: n.text) := by
  obtain ⟨n, hn, hc, -, htext⟩ := exists_numeral h
  refine ⟨n, hn, hc, ?_⟩
  rw [htext, signed]
  split
  · exact Or.inr rfl
  · exact Or.inl rfl

/-- The characters of the exact text of a finite number. -/
theorem mem_numberText {x : Float} (h : x.isFinite = true) : ∀ c ∈ numberText x,
    Numeral.starts c = true ∨ Numeral.isMark c = true ∨ c = '+' ∨ c = '-' := by
  obtain ⟨n, hn, -, htext | htext⟩ := numberText_cases h
  · rw [htext]
    exact Numeral.mem_text hn
  · rw [htext]
    exact List.forall_mem_cons.mpr ⟨Or.inr (Or.inr (Or.inr rfl)), Numeral.mem_text hn⟩

/-- The text of a number has no blanks. -/
theorem isBlank_of_mem_numberText {x : Float} (h : x.isFinite = true) :
    ∀ c ∈ numberText x, Text.isBlank c = false := by
  obtain ⟨n, hn, -, htext | htext⟩ := numberText_cases h
  · rw [htext]
    exact Token.isBlank_of_mem_text hn
  · rw [htext]
    exact List.forall_mem_cons.mpr ⟨by decide, Token.isBlank_of_mem_text hn⟩

/-- The expression that the exact text of a number spells. -/
def Expr.ofFloat (x : Float) : Expr :=
  if Double.isNegative x then .signed .minus (.number (-x)) else .number x

namespace Expr

theorem ofFloat_of_not_isNegative {x : Float} (h : Double.isNegative x = false) :
    ofFloat x = .number x := by
  rw [ofFloat, h]
  rfl

/-- Nothing is lost by writing a value and reading it again. -/
theorem value_ofFloat (x : Float) : (ofFloat x).value = x := by
  rw [ofFloat]
  split
  · exact Double.neg_neg x
  · rfl

theorem ofFloat_wellFormed (x : Float) :
    (ofFloat x).BindsAtLeast .signed ∧ (ofFloat x).WellFormed := by
  have hprimary : (Expr.number (-x)).BindsAtLeast .signed :=
    (by decide : Strength.signed.rank ≤ Strength.primary.rank)
  rw [ofFloat]
  split
  · exact ⟨Nat.le_refl _, hprimary, True.intro⟩
  · exact ⟨hprimary, True.intro⟩

end Expr

/-- A numeral of a number's magnitude, behind a minus if the number has one, spells its
expression. -/
theorem Token.spells_signed {x : Float} {n : Numeral} (hn : n.WellFormed)
    (hcomplete : n.isComplete = true) (hx : Double.magnitude x ≤ Double.infinity)
    (hvalue : n.magnitude = Double.magnitude x) :
    Spells (signed (Double.isNegative x) n.text) (Expr.ofFloat x).tokens := by
  have hnumeral := spells_numeral hn hcomplete
  have heq := Double.eq_ofMagnitude hx
  rw [Numeral.value, hvalue] at hnumeral
  rw [signed, Expr.ofFloat]
  split
  · rename_i hneg
    rw [if_pos hneg] at heq
    rw [← Double.neg_neg (Double.ofMagnitude (Double.magnitude x)), ← heq] at hnumeral
    exact .ofChar rfl hnumeral
  · rename_i hneg
    rw [if_neg hneg] at heq
    rw [← heq] at hnumeral
    exact hnumeral

/-- **The exact text of a finite number** spells its expression. -/
theorem Token.spells_numberText {x : Float} (h : x.isFinite = true) :
    Spells (numberText x) (Expr.ofFloat x).tokens := by
  obtain ⟨n, hn, hcomplete, hvalue, htext⟩ := exists_numeral h
  rw [htext]
  exact spells_signed hn hcomplete (Nat.le_of_lt (Double.isFinite_iff.mp h)) hvalue

end Calculator

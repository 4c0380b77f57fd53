import Calculator.Proofs.Evaluation.Accepted
import Calculator.Proofs.Language.Passes

/-!
# The exact text of a number

Pi, calls and factorials are replaced by the exact texts of their values, and everything after that
works on these texts.  So much depends on three things, which hold of every finite double.

* The text has one form: an optional minus, digits, and possibly a point with digits on both sides
  of it (`IsPositional`).  There is no exponent, hence no letter in it and no other sign.
* It is read back as the double itself.  The lexer takes the minus off and reads the digits as a
  double without sign, and the parser negates it; the sign of zero survives this.
* Nothing that is still to be done changes it: it holds nothing to normalise, no call and no
  factorial.
-/

set_option autoImplicit false

namespace Calculator

/-! ## The form of the text -/

/-- Digits, and possibly a point and digits behind them. -/
def IsPositional (cs : List Char) : Prop :=
  ∃ whole fraction : List Char, whole ≠ [] ∧ (∀ c ∈ whole ++ fraction, c.isDigit = true) ∧
    (fraction = [] ∧ cs = whole ∨ fraction ≠ [] ∧ cs = whole ++ '.' :: fraction)

/-- A decimal is written with its places behind the point, if it has any. -/
theorem Decimal.isPositional_text (d : Decimal) : IsPositional d.text := by
  have hwhole : d.integerDigits ≠ [] := Nat.toDigits_ne_nil
  rw [text]
  split
  · refine ⟨d.integerDigits, [], hwhole, ?_, .inl ⟨rfl, rfl⟩⟩
    rw [List.append_nil]
    exact fun _ ↦ isDigit_of_mem_integerDigits
  · rename_i hplaces
    have hfraction : d.fractionDigits ≠ [] :=
      List.ne_nil_of_length_pos (length_fractionDigits hplaces ▸ Nat.pos_of_ne_zero hplaces)
    exact ⟨d.integerDigits, d.fractionDigits, hwhole,
      List.forall_mem_append.mpr ⟨fun _ ↦ isDigit_of_mem_integerDigits,
        fun _ ↦ isDigit_of_mem_fractionDigits⟩, .inr ⟨hfraction, rfl⟩⟩

/-! ## What is done with it -/

variable {x : Float}

theorem evaluateArithmetic_numberText (hx : x.isFinite = true) :
    evaluateArithmetic (numberText x) = .ok x := by
  rw [evaluateArithmetic_of_spells (Token.spells_numberText hx) (Expr.ofFloat_wellFormed x).2,
    Expr.value_ofFloat]

theorem normalize_numberText (hx : x.isFinite = true) :
    normalize (numberText x) = numberText x :=
  normalize_of_isTokenChar fun c hc ↦ ⟨Token.isTokenChar_of_spells (Token.spells_numberText hx) c hc,
    isBlank_of_mem_numberText hx c hc⟩

/-- No pass for calls changes an inert text. -/
theorem Inert.resolveFunctions_eq {u : List Char} (h : Inert u) : resolveFunctions u = .ok u :=
  foldlM_of_keep fun f _ ↦ h.resolveCalls_eq f

/-- **The exact text of a number** has digits on both sides of its point and no exponent, is read
back as the number, down to the sign of a zero, and is left as it is by everything else. -/
theorem numberText_exact (hx : x.isFinite = true) :
    (∃ digits, IsPositional digits ∧ numberText x = signed (Double.isNegative x) digits) ∧
    evaluateArithmetic (numberText x) = .ok x ∧
    normalize (numberText x) = numberText x ∧
    resolveFunctions (numberText x) = .ok (numberText x) ∧
    resolveFactorials (numberText x) = .ok (numberText x) := by
  obtain ⟨d, -, htext⟩ := exists_decimal_numberText hx
  have hinert := inert_numberText x
  exact ⟨⟨d.text, d.isPositional_text, htext⟩, evaluateArithmetic_numberText hx,
    normalize_numberText hx, hinert.resolveFunctions_eq, hinert.resolveFactorials_eq⟩

/-- The smallest double below zero takes 324 places, and minus zero keeps its sign. -/
theorem numberText_exact_tiny :
    let tiny := Float.ofBits 0x8000000000000001
    let zero := Float.ofBits 0x8000000000000000
    tiny.isFinite = true ∧ zero.isFinite = true ∧
      numberText tiny = '-' :: '0' :: '.' :: (List.replicate 323 '0' ++ ['5']) ∧
      evaluateArithmetic (numberText tiny) = .ok tiny ∧
      numberText zero = ['-', '0'] ∧ evaluateArithmetic (numberText zero) = .ok zero ∧
      zero ≠ 0 := by
  intro tiny zero
  have htiny : tiny.isFinite = true := by decide +kernel
  have hzero : zero.isFinite = true := by decide +kernel
  exact ⟨htiny, hzero, by decide +kernel, (numberText_exact htiny).2.1, by decide +kernel,
    (numberText_exact hzero).2.1, by decide +kernel⟩

end Calculator

import Calculator.Proofs.Language.Passes

/-!
# What a text of the language means

The calculator rewrites a text many times before it computes anything, and the formula that the text
looks like has a value of its own.  The two agree (`evaluate_written`): whatever blanks, separators
and forms of operators the text uses, its value is that of the formula, and it is an error exactly
if a call, a factorial or the whole is not finite.

What the passes leave of an atom is the exact text of its value, which is read as one number or as a
number behind a minus (`Atom.toExpr`).  The minus is why a call that is the base of a power has to
stand in parentheses.
-/

set_option autoImplicit false

namespace Calculator

/-! ## Atoms -/

namespace MathFunction

theorem normalize_opening (f : MathFunction) : normalize f.opening = f.opening := by
  cases f <;> decide

end MathFunction

theorem Digits.normalize_chars (ds : Digits) : normalize ds.chars = ds.chars := by
  refine normalize_of_isTokenChar fun c hc ↦ ?_
  have hstarts : Numeral.starts c = true := by rw [Numeral.starts, ds.ascii c hc, Bool.true_or]
  refine ⟨?_, Token.isBlank_of_starts hstarts⟩
  rw [Token.isTokenChar, hstarts, Bool.or_true, Bool.true_or, Bool.true_or]

namespace Atom

/-- Normalising leaves one text of an atom, in which nothing has been replaced. -/
theorem normalize_written {a : Atom} {s : List Char} (h : a.Written s) :
    normalize s = a.textAt MathFunction.all := by
  cases a with
  | plain a =>
    subst h
    exact a.normalize_text
  | factorial ds =>
    subst h
    rw [normalize_append, ds.normalize_chars, (by decide : normalize ['!'] = ['!'])]
    rfl
  | call f argument =>
    obtain ⟨t, ht, rfl⟩ := h
    rw [normalize_append, normalize_append, f.normalize_opening, Plain.normalize_written ht,
      (by decide : normalize [')'] = [')']), textAt, if_pos f.mem_all]

/-- The tree that is left of an atom. -/
def toExpr : Atom → Expr
  | plain a => a.toExpr
  | factorial ds => .number (Calculator.factorial ds.number)
  | call f argument => .ofFloat (f.apply argument.value)

theorem value_toExpr (a : Atom) : a.toExpr.value = a.value := by
  cases a with
  | plain a => rfl
  | factorial ds => rfl
  | call f argument => exact Expr.value_ofFloat _

theorem bindsAtLeast_toExpr {a : Atom} (h : a.isCall = false) : a.toExpr.BindsAtLeast .primary := by
  cases a with
  | plain a => exact Nat.le_refl _
  | factorial ds => exact Nat.le_refl _
  | call f argument => cases h

theorem toExpr_wellFormed (a : Atom) : a.toExpr.BindsAtLeast .signed ∧ a.toExpr.WellFormed := by
  cases a with
  | plain a => exact Derivation.number_wellFormed _
  | factorial ds => exact Derivation.number_wellFormed _
  | call f argument => exact Expr.ofFloat_wellFormed _

/-- The text that is left of an atom spells the tree that is left of it. -/
theorem spells_finalText {a : Atom} (h : a.isDefined = true) :
    Token.Spells a.finalText a.toExpr.tokens := by
  cases a with
  | plain a => exact a.spells_normalText
  | factorial ds =>
    have hspells := Token.spells_numberText (x := Calculator.factorial ds.number) h
    rw [Expr.ofFloat_of_not_isNegative (isNegative_factorial _)] at hspells
    exact hspells
  | call f argument => exact Token.spells_numberText h

end Atom

/-! ## Formulas -/

namespace Formula

variable {φ : Formula} {s : List Char}

/-- The passes leave one text of a formula, if every value they meet is finite. -/
theorem reduce_written (h : φ.Written s) :
    reduce s = whenFinite φ.isDefined (Symbol.texts Atom.finalText φ.derivation.symbols) := by
  have hnormalize : normalize s
      = Symbol.texts (Atom.textAt MathFunction.all) φ.derivation.symbols := by
    rw [← normalize_filter]
    exact Symbol.normalize_yield (fun a t ht ↦ Atom.normalize_written ht) h
  have hdefined : Atom.isDefinedAt MathFunction.all = Atom.isDefined := funext Atom.isDefinedAt_all
  rw [reduce_eq_resolve, hnormalize, resolve_texts (by decide), hdefined, isDefined]

theorem wellFormed_toExpr (φ : Formula) : Expr.WellFormed (φ.derivation.toExpr Atom.toExpr) :=
  Derivation.toExpr_wellFormed Atom.toExpr_wellFormed (fun _ ↦ Atom.bindsAtLeast_toExpr)
    φ.derivation φ.wrapped

/-- What the passes leave spells the tree of the formula. -/
theorem spells_finalText (h : φ.isDefined = true) :
    Token.Spells (Symbol.texts Atom.finalText φ.derivation.symbols)
      (Expr.tokens (φ.derivation.toExpr Atom.toExpr)) := by
  refine Derivation.spells_texts φ.wellFormed_toExpr fun a ha ↦ ?_
  exact Atom.spells_finalText (List.all_eq_true.mp h _ ha)

theorem value_toExpr (φ : Formula) : Expr.value (φ.derivation.toExpr Atom.toExpr) = φ.value := by
  have h : Expr.value (φ.derivation.toExpr Atom.toExpr)
      = φ.derivation.value fun a ↦ a.toExpr.value :=
    Derivation.value_toExpr Atom.toExpr φ.derivation
  rw [h, funext Atom.value_toExpr, value]

/-- **The value of a text** is that of the formula it looks like, and it is an error if a call, a
factorial or the whole is not finite. -/
theorem evaluate_written (h : φ.Written s) :
    evaluate s
      = if φ.isDefined && φ.value.isFinite then .ok φ.value else .error .notFinite := by
  have hreduce := reduce_written h
  cases hdefined : φ.isDefined with
  | false =>
    rw [hdefined] at hreduce
    rw [evaluate, hreduce]
    rfl
  | true =>
    rw [hdefined] at hreduce
    rw [evaluate_of_reduce hreduce (spells_finalText hdefined) φ.wellFormed_toExpr, φ.value_toExpr,
      finiteValue, Bool.true_and]

/-- The argument `16`. -/
def sixteen : Plain where
  derivation :=
    .expr (.term (.unsigned (.bare (.atom (.literal
      ⟨⟨['1', '6'], none, none⟩, ⟨by simp, by simp, by simp⟩, rfl⟩)))) .noFactors) .noTerms
  noParens := by simp [Derivation.symbols, Symbol.isParen]

/-- The formula `3! ÷ sqrt(16)`. -/
def factorialOverRoot : Formula where
  derivation :=
    .expr (.term (.unsigned (.bare (.atom (.factorial ⟨['3'], by simp, by simp⟩))))
      (.moreFactors .noFactors .divide rfl
        (.unsigned (.bare (.atom (.call .sqrt sixteen)))))) .noTerms
  wrapped := by simp [Derivation.BasesSatisfy]

theorem evaluate_factorialOverRoot :
    factorialOverRoot.Written ['3', '!', ' ', '÷', 's', 'q', 'r', 't', '(', '1', ',', '6', ')'] ∧
      evaluate ['3', '!', ' ', '÷', 's', 'q', 'r', 't', '(', '1', ',', '6', ')'] = .ok 1.5 := by
  have hargument : sixteen.Written ['1', '6'] := .cons (a := ['1', '6']) rfl .nil
  have hwritten : factorialOverRoot.Written
      ['3', '!', ' ', '÷', 's', 'q', 'r', 't', '(', '1', ',', '6', ')'] :=
    .cons (a := ['3', '!']) rfl (.cons (a := ['÷']) (by simp [Symbol.Written, Operator.forms])
      (.cons (a := ['s', 'q', 'r', 't', '(', '1', '6', ')']) ⟨['1', '6'], hargument, rfl⟩ .nil))
  refine ⟨hwritten, ?_⟩
  rw [evaluate_written hwritten]
  decide +kernel

end Formula

end Calculator

import Calculator.Proofs.Expr.Spliced
import Calculator.Proofs.Language.Symbols

/-!
# Arguments of calls

Normalising replaces every form of a symbol by its normal spelling and pi by its digits, so that
only one text is left of whatever was typed (`Symbol.normalize_yield`).  Of an argument this is
already an arithmetic text.  Its value is the argument's (`Plain.evaluateArithmetic_normalText`),
and it has no parenthesis that would end the call too early (`Plain.closeParen_notMem`).
-/

set_option autoImplicit false

namespace Calculator

/-! ## Normalising -/

/-- Normalising works symbol by symbol. -/
theorem Symbol.normalize_yield {α : Type} {atomWritten : α → List Char → Prop}
    {atomText : α → List Char} (h : ∀ a s, atomWritten a s → normalize s = atomText a)
    {xs : List (Symbol α)} {s : List Char} (hs : Symbol.Yield atomWritten xs s) :
    normalize s = Symbol.texts atomText xs := by
  induction hs with
  | nil => rfl
  | @cons x xs a b hx _ ih =>
    rw [normalize_append, ih, texts_cons]
    refine congrArg (· ++ _) ?_
    cases x with
    | atom y => exact h y a hx
    | sign s =>
      subst hx
      cases s with
      | plus => exact (by decide : normalize ['+'] = ['+'])
      | minus => exact (by decide : normalize ['-'] = ['-'])
    | operator op => exact normalize_form hx
    | openParen => subst hx; exact (by decide : normalize ['('] = ['('])
    | closeParen => subst hx; exact (by decide : normalize [')'] = [')'])

namespace PlainAtom

/-- What is left of a number after normalising. -/
def normalText : PlainAtom → List Char
  | literal n => n.numeral.text
  | pi => numberText Calculator.pi

/-- The tree of a number. -/
def toExpr (a : PlainAtom) : Expr := .number a.value

theorem normalize_text (a : PlainAtom) : normalize a.text = a.normalText := by
  cases a with
  | literal n =>
    exact normalize_of_isTokenChar fun c hc ↦ ⟨Token.isTokenChar_of_mem_text n.wellFormed c hc,
      Token.isBlank_of_mem_text n.wellFormed c hc⟩
  | pi =>
    rw [text, normalize, List.flatMap_singleton, normalizeChar, if_neg (by decide),
      if_neg (by decide), if_neg (by decide), if_pos rfl]
    rfl

theorem isFinite_pi : Calculator.pi.isFinite = true := by decide +kernel

theorem isNegative_pi : Double.isNegative Calculator.pi = false := by decide +kernel

theorem spells_normalText (a : PlainAtom) : Token.Spells a.normalText a.toExpr.tokens := by
  cases a with
  | literal n => exact Token.spells_numeral n.wellFormed n.complete
  | pi =>
    have h := Token.spells_numberText isFinite_pi
    rwa [Expr.ofFloat_of_not_isNegative isNegative_pi] at h

end PlainAtom

namespace Plain

/-- What is left of an argument after normalising. -/
def normalText (p : Plain) : List Char := Symbol.texts PlainAtom.normalText p.derivation.symbols

theorem normalize_written {p : Plain} {s : List Char} (h : p.Written s) :
    normalize s = p.normalText :=
  Symbol.normalize_yield (fun a _ ht ↦ ht ▸ a.normalize_text) h

/-- The tree of an argument. -/
def toExpr (p : Plain) : Expr := p.derivation.toExpr PlainAtom.toExpr

variable (p : Plain)

theorem wellFormed_toExpr : p.toExpr.WellFormed :=
  Derivation.suits_numbers PlainAtom.value p.derivation

theorem value_toExpr : p.toExpr.value = p.value :=
  Derivation.value_toExpr PlainAtom.toExpr p.derivation

theorem spells_normalText : Token.Spells p.normalText p.toExpr.tokens :=
  Derivation.spells_texts p.wellFormed_toExpr fun a _ ↦ a.spells_normalText

/-- The value that a call computes with is that of its argument. -/
theorem evaluateArithmetic_normalText : evaluateArithmetic p.normalText = .ok p.value := by
  rw [evaluateArithmetic_of_spells p.spells_normalText p.wellFormed_toExpr, p.value_toExpr]

/-- An argument does not end before its call does. -/
theorem closeParen_notMem : ')' ∉ p.normalText := by
  intro h
  have hmem := Token.closeParen_mem_of_spells p.spells_normalText h
  have htokens : p.toExpr.tokens
      = p.derivation.symbols.flatMap (Symbol.tokens fun a ↦ a.toExpr.tokens) :=
    (Derivation.tokens_toExpr _ p.derivation).trans (Derivation.tokens_eq_flatMap _ _)
  rw [htokens, List.mem_flatMap] at hmem
  obtain ⟨x, hx, ht⟩ := hmem
  have hparen := p.noParens x hx
  cases x with
  | atom a => simp [Symbol.tokens, PlainAtom.toExpr, Expr.tokens] at ht
  | sign s => cases s <;> simp [Symbol.tokens, Symbol.mark, Sign.token] at ht
  | operator op => cases op <;> simp [Symbol.tokens, Symbol.mark, Operator.token] at ht
  | openParen => cases hparen
  | closeParen => cases hparen

end Plain

end Calculator

import Calculator.Proofs.Evaluation.Accepted
import Calculator.Proofs.Expr.Neighbours
import Calculator.Proofs.Language.Formula

/-!
# Texts of symbols

A symbol is either a mark, which is one token with one normal spelling, or an atom, and what an atom
looks like is left open: it changes from pass to pass.  `Symbol.texts` is the text of symbols for a
given look of the atoms.

If every atom spells the tokens of its tree, then the symbols of a derivation spell the tokens of
the derivation's tree (`Derivation.spells_texts`), because the tokens of a tree can be put one
behind the other.  The same fact, for atoms that are single numbers, says that no two atoms stand
next to each other (`Derivation.isChain_symbols`), and that is what keeps the digits of a number
apart from those of a factorial.
-/

set_option autoImplicit false

namespace Calculator

namespace Symbol

variable {α : Type}

/-- The token of a mark; an atom counts as a number. -/
def mark : Symbol α → Token
  | atom _ => .number 0
  | sign s => s.token
  | operator op => op.token
  | openParen => .openParen
  | closeParen => .closeParen

/-- The tokens of a symbol, given those of atoms. -/
def tokens (atomTokens : α → List Token) : Symbol α → List Token
  | atom a => atomTokens a
  | x => [x.mark]

/-- The text of a symbol, given that of atoms. -/
def text (atomText : α → List Char) : Symbol α → List Char
  | atom a => atomText a
  | x => x.mark.spelling

/-- The text of symbols, one behind the other. -/
def texts (atomText : α → List Char) (xs : List (Symbol α)) : List Char :=
  xs.flatMap (text atomText)

theorem texts_cons (atomText : α → List Char) (x : Symbol α) (xs : List (Symbol α)) :
    texts atomText (x :: xs) = x.text atomText ++ texts atomText xs := rfl

/-- Not both symbols are atoms. -/
def CanPrecede (x y : Symbol α) : Prop := ¬ (x.mark.isNumber = true ∧ y.mark.isNumber = true)

/-! ### Marks -/

/-- A symbol is an atom, or its mark is not that of one. -/
theorem eq_atom_or_isMark (x : Symbol α) : (∃ a, x = atom a) ∨ x.mark.isNumber = false := by
  cases x with
  | atom a => exact Or.inl ⟨a, rfl⟩
  | sign s => cases s <;> exact Or.inr rfl
  | operator op => cases op <;> exact Or.inr rfl
  | openParen => exact Or.inr rfl
  | closeParen => exact Or.inr rfl

theorem text_of_isMark {x : Symbol α} (h : x.mark.isNumber = false) (atomText : α → List Char) :
    x.text atomText = x.mark.spelling := by
  cases x with
  | atom a => cases h
  | _ => rfl

theorem tokens_of_isMark {x : Symbol α} (h : x.mark.isNumber = false)
    (atomTokens : α → List Token) : x.tokens atomTokens = [x.mark] := by
  cases x with
  | atom a => cases h
  | _ => rfl

theorem allAtoms_of_isMark {x : Symbol α} (h : x.mark.isNumber = false) (p : α → Bool) :
    x.allAtoms p = true := by
  cases x with
  | atom a => cases h
  | _ => rfl

/-- A symbol spells its tokens, if atoms do. -/
theorem spells_text {atomText : α → List Char} {atomTokens : α → List Token} {x : Symbol α}
    (h : ∀ a, x = .atom a → Token.Spells (atomText a) (atomTokens a)) :
    Token.Spells (x.text atomText) (x.tokens atomTokens) := by
  rcases x.eq_atom_or_isMark with ⟨a, rfl⟩ | hmark
  · exact h a rfl
  · rw [text_of_isMark hmark, tokens_of_isMark hmark]
    exact Token.spells_spelling hmark

end Symbol

namespace Derivation

variable {α : Type}

/-- The tokens of a derivation are those of its symbols. -/
theorem tokens_eq_flatMap (spell : α → List Token) {n : Nonterminal} (d : Derivation α n) :
    d.tokens spell = d.symbols.flatMap (Symbol.tokens spell) := by
  induction d with
  | expr first rest ih1 ih2 => rw [tokens, symbols, List.flatMap_append, ih1, ih2]
  | noTerms => rfl
  | moreTerms before op _ last ih1 ih2 =>
    rw [tokens, symbols, List.flatMap_append, List.flatMap_cons, ih1, ih2]
    rfl
  | term first rest ih1 ih2 => rw [tokens, symbols, List.flatMap_append, ih1, ih2]
  | noFactors => rfl
  | moreFactors before op _ last ih1 ih2 =>
    rw [tokens, symbols, List.flatMap_append, List.flatMap_cons, ih1, ih2]
    rfl
  | signed sign operand ih =>
    rw [tokens, symbols, List.flatMap_cons, ih]
    rfl
  | unsigned operand ih => exact ih
  | bare operand ih => exact ih
  | raised base exponent ih1 ih2 =>
    rw [tokens, symbols, List.flatMap_append, List.flatMap_cons, ih1, ih2]
    rfl
  | atom a => exact (List.append_nil _).symm
  | paren inner ih =>
    rw [tokens, symbols, List.flatMap_cons, List.flatMap_append, ih]
    rfl

/-- No two atoms of a derivation stand next to each other. -/
theorem isChain_symbols (d : Derivation α .expr) : d.symbols.IsChain Symbol.CanPrecede := by
  have hwell : Expr.WellFormed (d.toExpr fun _ ↦ .number 0) := suits_numbers (fun _ ↦ 0) d
  have hmark : Symbol.tokens (fun _ : α ↦ [Token.number 0]) = fun x ↦ [x.mark] := by
    funext x
    cases x <;> rfl
  have htokens : Expr.tokens (d.toExpr fun _ ↦ .number 0)
      = d.symbols.flatMap (Symbol.tokens fun _ ↦ [.number 0]) :=
    (tokens_toExpr (fun _ ↦ .number 0) d).trans (tokens_eq_flatMap _ d)
  have hchain := Expr.isChain_tokens hwell
  rw [htokens, hmark, ← List.map_eq_flatMap, List.isChain_map] at hchain
  exact hchain.imp fun x y h ↦ h.1

/-- **The symbols of a derivation** spell the tokens of its tree, if its atoms spell theirs. -/
theorem spells_texts {atomText : α → List Char} {atomExpr : α → Expr} {d : Derivation α .expr}
    (hwell : Expr.WellFormed (d.toExpr atomExpr))
    (hatom : ∀ a, .atom a ∈ d.symbols → Token.Spells (atomText a) (atomExpr a).tokens) :
    Token.Spells (Symbol.texts atomText d.symbols) (Expr.tokens (d.toExpr atomExpr)) := by
  have htokens : Expr.tokens (d.toExpr atomExpr)
      = d.symbols.flatMap (Symbol.tokens fun a ↦ (atomExpr a).tokens) :=
    (tokens_toExpr atomExpr d).trans (tokens_eq_flatMap _ d)
  have hchain := Expr.isChain_tokens hwell
  rw [htokens] at hchain ⊢
  refine Token.spells_flatMap (fun x hx ↦ Symbol.spells_text fun a ha ↦ hatom a ?_) hchain
  rw [← ha]
  exact hx

end Derivation

end Calculator

import Calculator.Proofs.Expr.Grammar
import Calculator.Proofs.Reduction.Stages

/-!
# Accepted texts

A text is accepted if it has a value.  For an arithmetic text this means that it spells the tokens
of a well-formed tree (`evaluateArithmetic_eq_ok_iff`), and for a text of the calculator that it is
reduced to such a text and that the tree's value is finite (`evaluate_eq_ok_iff`).

Trees are spelled from the spellings of their parts: a tree in parentheses needs nothing else
(`spells_paren`), and neither does an operator or a sign in front of a parenthesis
(`spells_operator`, `spells_sign`).
-/

set_option autoImplicit false

namespace Calculator

/-! ## Texts of trees -/

namespace Token

/-- Nothing touches a closing parenthesis behind it. -/
theorem apart_closeParen (a b : List Char) : Apart a (')' :: b) :=
  apart_of_head fun c hc ↦ by cases hc; decide

theorem spells_paren {s rest : List Char} {e : Expr} {ts : List Token} (h : Spells s e.tokens)
    (hrest : Spells rest ts) :
    Spells ('(' :: (s ++ ')' :: rest)) ((Expr.paren e).tokens ++ ts) := by
  have hclose : Spells (')' :: rest) (.closeParen :: ts) := .ofChar rfl hrest
  have hopen : Spells ('(' :: (s ++ ')' :: rest)) (.openParen :: (e.tokens ++ .closeParen :: ts)) :=
    .ofChar rfl (h.append hclose (apart_closeParen s rest))
  rw [Expr.tokens, List.cons_append, List.append_assoc]
  exact hopen

theorem spells_operator (op : Operator) {rest : List Char} {ts : List Token} (h : Spells rest ts)
    (hstar : '*' ∉ rest.head?) : Spells (op.token.spelling ++ rest) (op.token :: ts) := by
  cases op with
  | add => exact .ofChar rfl h
  | subtract => exact .ofChar rfl h
  | multiply => exact .times hstar h
  | divide => exact .ofChar rfl h
  | power => exact .power h

theorem spells_sign (s : Sign) {rest : List Char} {ts : List Token} (h : Spells rest ts) :
    Spells (s.token.spelling ++ rest) (s.token :: ts) := by
  cases s <;> exact .ofChar rfl h

end Token

/-! ## Arithmetic texts -/

theorem evaluateArithmetic_nil : evaluateArithmetic [] = .error .empty := by
  rw [evaluateArithmetic, tokenize, Token.lex_nil]

/-- The value of a text that spells a tree. -/
theorem evaluateArithmetic_of_spells {s : List Char} {e : Expr} (h : Token.Spells s e.tokens)
    (he : e.WellFormed) : evaluateArithmetic s = .ok e.value := by
  have hs : tokenize s = .ok e.tokens := Token.lex_eq_ok_iff.mpr h
  rw [evaluateArithmetic_of_tokenize hs e.tokens_ne_nil, parse_eq_ok_iff.mpr ⟨he, rfl⟩]
  rfl

/-- **An arithmetic text has a value** if it spells a tree with that value. -/
theorem evaluateArithmetic_eq_ok_iff {s : List Char} {v : Float} :
    evaluateArithmetic s = .ok v ↔
      ∃ e : Expr, e.WellFormed ∧ Token.Spells s e.tokens ∧ e.value = v := by
  constructor
  · intro h
    rcases hs : tokenize s with cause | ts
    · rw [evaluateArithmetic, hs] at h
      cases h
    · have hne : ts ≠ [] := by
        rintro rfl
        rw [evaluateArithmetic, hs] at h
        cases h
      rw [evaluateArithmetic_of_tokenize hs hne] at h
      rcases hparse : parse ts with cause | e
      · rw [hparse] at h
        cases h
      · rw [hparse] at h
        obtain ⟨he, rfl⟩ := parse_eq_ok_iff.mp hparse
        exact ⟨e, he, Token.lex_eq_ok_iff.mp hs, Except.ok.inj h⟩
  · rintro ⟨e, he, hs, rfl⟩
    exact evaluateArithmetic_of_spells hs he

/-! ## Texts of the calculator -/

/-- The value of a text that is reduced to the spelling of a tree. -/
theorem evaluate_of_reduce {cs r : List Char} {e : Expr} (hr : reduce cs = .ok r)
    (hs : Token.Spells r e.tokens) (he : e.WellFormed) : evaluate cs = finiteValue e.value := by
  rw [evaluate, hr, Except.bind, evaluateArithmetic_of_spells hs he]

theorem finiteValue_eq_ok_iff {x v : Float} :
    finiteValue x = .ok v ↔ x = v ∧ x.isFinite = true := by
  rw [finiteValue]
  split
  · rename_i h
    exact ⟨fun heq ↦ ⟨Except.ok.inj heq, h⟩, fun heq ↦ congrArg Except.ok heq.1⟩
  · rename_i h
    exact ⟨fun heq ↦ (nomatch heq), fun heq ↦ absurd heq.2 h⟩

/-- **An accepted text** is reduced to the spelling of a tree whose value is finite. -/
theorem evaluate_eq_ok_iff {cs : List Char} {v : Float} :
    evaluate cs = .ok v ↔
      ∃ (r : List Char) (e : Expr), reduce cs = .ok r ∧ Token.Spells r e.tokens ∧ e.WellFormed ∧
        e.value = v ∧ v.isFinite = true := by
  constructor
  · intro h
    rcases hr : reduce cs with cause | r
    · rw [evaluate, hr] at h
      cases h
    · rcases hv : evaluateArithmetic r with cause | x
      · rw [evaluate, hr, Except.bind, hv] at h
        cases h
      · rw [evaluate, hr, Except.bind, hv] at h
        obtain ⟨rfl, hfinite⟩ := finiteValue_eq_ok_iff.mp h
        obtain ⟨e, he, hs, hvalue⟩ := evaluateArithmetic_eq_ok_iff.mp hv
        exact ⟨r, e, rfl, hs, he, hvalue, hfinite⟩
  · rintro ⟨r, e, hr, hs, he, rfl, hfinite⟩
    rw [evaluate_of_reduce hr hs he]
    exact finiteValue_eq_ok_iff.mpr ⟨rfl, hfinite⟩

end Calculator

import Calculator.Proofs.Decimal.Bits
import Calculator.Proofs.Evaluation.Accepted
import Calculator.Proofs.Reduction.Forms

/-!
# Evaluation is compositional

Accepted texts can be put in parentheses and joined by an operator, and the value of the whole is
what the operator computes from the values of the parts (`evaluate_compose`).  Nothing is asked of
the parts but that they have a value, so they may hold calls inside of calls, factorials of a
fraction's digits, or numerals without a space between them and a factorial.

The reason is the same for all of it.  What is accepted has been reduced by itself to a text that
spells a tree (`evaluate_eq_ok_iff`), it is reduced to the same text when it stands in parentheses
(`resolve_paren`), and trees are put together as texts are.
-/

set_option autoImplicit false

namespace Calculator

/-- A text in parentheses. -/
def parenthesized (cs : List Char) : List Char := '(' :: (cs ++ [')'])

/-! ## Reduction of the whole -/

theorem normalize_parenthesized (cs rest : List Char) :
    normalize (parenthesized cs ++ rest) = '(' :: (normalize cs ++ ')' :: normalize rest) := by
  have hopen : normalize ['('] = ['('] := by decide
  have hclose : normalize [')'] = [')'] := by decide
  show normalize (['('] ++ (cs ++ [')']) ++ rest) = _
  rw [normalize_append, normalize_append, normalize_append, hopen, hclose, List.append_assoc,
    List.append_assoc]
  rfl

/-- An operator stays in front of what is reduced behind it. -/
theorem resolve_form {op : Operator} {form : List Char} (h : form ∈ op.forms)
    (rest : List Char) :
    resolve MathFunction.all (normalize (form ++ rest))
      = inOrder (.ok op.token.spelling) (resolve MathFunction.all (normalize rest)) := by
  have hop : op.token.isNumber = false := by cases op <;> rfl
  rw [normalize_append, normalize_form h, resolve_keep (startsNothing_spelling hop)]

/-- In parentheses, an accepted text is reduced as by itself. -/
theorem resolve_parenthesized {x r : List Char} {e : Expr} (hr : reduce x = .ok r)
    (hs : Token.Spells r e.tokens) (rest : List Char) :
    resolve MathFunction.all (normalize (parenthesized x ++ rest))
      = inOrder (.ok (parenthesized r)) (resolve MathFunction.all (normalize rest)) := by
  rw [reduce_eq_resolve] at hr
  rw [normalize_parenthesized, resolve_paren hr (Token.isTokenChar_of_spells hs)]
  rfl

theorem reduce_parenthesized {x r : List Char} {e : Expr} (hr : reduce x = .ok r)
    (hs : Token.Spells r e.tokens) : reduce (parenthesized x) = .ok (parenthesized r) := by
  have h := resolve_parenthesized hr hs []
  rw [List.append_nil, show normalize [] = [] from rfl, resolve_nil, inOrder_ok_nil] at h
  rw [reduce_eq_resolve, h]

theorem reduce_form {op : Operator} {form cs t : List Char} (h : form ∈ op.forms)
    (ht : reduce cs = .ok t) : reduce (form ++ cs) = .ok (op.token.spelling ++ t) := by
  rw [reduce_eq_resolve] at ht
  rw [reduce_eq_resolve, resolve_form h, ht]
  rfl

theorem reduce_parenthesized_append {x r cs t : List Char} {e : Expr} (hr : reduce x = .ok r)
    (hs : Token.Spells r e.tokens) (ht : reduce cs = .ok t) :
    reduce (parenthesized x ++ cs) = .ok (parenthesized r ++ t) := by
  rw [reduce_eq_resolve] at ht
  rw [reduce_eq_resolve, resolve_parenthesized hr hs, ht]
  rfl

/-! ## Trees of the whole -/

theorem spells_parenthesized {s : List Char} {e : Expr} (h : Token.Spells s e.tokens) :
    Token.Spells (parenthesized s) (Expr.paren e).tokens := by
  have hs := Token.spells_paren h .nil
  rwa [List.append_nil] at hs

theorem star_notMem_parenthesized (s : List Char) : '*' ∉ (parenthesized s).head? := by
  intro h
  cases h

/-- Parentheses and an operator between them make a tree of two trees. -/
theorem spells_binary (op : Operator) {s t : List Char} {e f : Expr}
    (hs : Token.Spells s e.tokens) (ht : Token.Spells t f.tokens) :
    Token.Spells (parenthesized s ++ (op.token.spelling ++ parenthesized t))
      (Expr.binary op (.paren e) (.paren f)).tokens := by
  have hright := Token.spells_operator op (spells_parenthesized ht) (star_notMem_parenthesized t)
  have hwhole := Token.spells_paren hs hright
  have htext : parenthesized s ++ (op.token.spelling ++ parenthesized t)
      = '(' :: (s ++ ')' :: (op.token.spelling ++ parenthesized t)) := by
    simp [parenthesized]
  rw [htext]
  exact hwhole

theorem Strength.rank_le_primary (s : Strength) : s.rank ≤ Strength.primary.rank := by
  cases s <;> decide

theorem wellFormed_binary_paren (op : Operator) {e f : Expr} (he : e.WellFormed)
    (hf : f.WellFormed) : (Expr.binary op (.paren e) (.paren f)).WellFormed := by
  have hprimary : ∀ (g : Expr) (s : Strength), (Expr.paren g).BindsAtLeast s :=
    fun _ s ↦ s.rank_le_primary
  exact ⟨hprimary e _, he, hprimary f _, hf⟩

/-! ## Values -/

/-- **The value of a composition** is that of its parts, whatever the parts look like. -/
theorem evaluate_compose {x y : List Char} {v w : Float} (hx : evaluate x = .ok v)
    (hy : evaluate y = .ok w) :
    (∀ op : Operator, ∀ form ∈ op.forms,
      evaluate (parenthesized x ++ (form ++ parenthesized y))
        = if (op.apply v w).isFinite then .ok (op.apply v w) else .error .notFinite) ∧
      evaluate (parenthesized x) = .ok v ∧
      evaluate ('-' :: parenthesized x) = .ok (-v) := by
  obtain ⟨r, e, hr, hs, he, rfl, hv⟩ := evaluate_eq_ok_iff.mp hx
  obtain ⟨t, f, ht, hf, hfw, rfl, -⟩ := evaluate_eq_ok_iff.mp hy
  have hparen := reduce_parenthesized hr hs
  have hspells := spells_parenthesized hs
  refine ⟨fun op form hform ↦ ?_, ?_, ?_⟩
  · have hwhole := reduce_parenthesized_append hr hs
      (reduce_form hform (reduce_parenthesized ht hf))
    rw [evaluate_of_reduce hwhole (spells_binary op hs hf) (wellFormed_binary_paren op he hfw),
      finiteValue, Expr.value, Expr.value, Expr.value]
  · rw [evaluate_of_reduce hparen hspells he]
    exact finiteValue_eq_ok_iff.mpr ⟨rfl, hv⟩
  · have hminus : ['-'] ∈ Operator.subtract.forms := List.mem_singleton.mpr rfl
    have htree : (Expr.signed .minus (.paren e)).WellFormed :=
      ⟨(by decide : Strength.signed.rank ≤ Strength.primary.rank), he⟩
    have htokens : Token.Spells (Operator.subtract.token.spelling ++ parenthesized r)
        (Expr.signed .minus (.paren e)).tokens := Token.spells_sign .minus hspells
    have hvalue : evaluate (['-'] ++ parenthesized x) = _ :=
      evaluate_of_reduce (reduce_form hminus hparen) htokens htree
    rw [Expr.value, Expr.value] at hvalue
    exact hvalue.trans (finiteValue_eq_ok_iff.mpr ⟨rfl, Double.isFinite_neg hv⟩)

/-- The factorial is that of the digits behind the point, and the value of the call is continued by
the digit behind it. -/
theorem evaluate_compose_glued :
    evaluate ['2', '.', '5', '!'] = .ok 2.12 ∧
      evaluate ['s', 'q', 'r', 't', '(', '1', '6', ')', '3'] = .ok 43 ∧
      (∀ op : Operator, ∀ form ∈ op.forms,
        evaluate (parenthesized ['2', '.', '5', '!']
            ++ (form ++ parenthesized ['s', 'q', 'r', 't', '(', '1', '6', ')', '3']))
          = if (op.apply 2.12 43).isFinite then .ok (op.apply 2.12 43) else .error .notFinite) ∧
      evaluate (parenthesized ['2', '.', '5', '!']) = .ok 2.12 ∧
      evaluate ('-' :: parenthesized ['2', '.', '5', '!']) = .ok (-2.12) := by
  have hx : evaluate ['2', '.', '5', '!'] = .ok 2.12 := by decide +kernel
  have hy : evaluate ['s', 'q', 'r', 't', '(', '1', '6', ')', '3'] = .ok 43 := by decide +kernel
  exact ⟨hx, hy, evaluate_compose hx hy⟩

end Calculator

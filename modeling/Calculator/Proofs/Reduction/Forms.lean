import Calculator.Proofs.Expr.Neighbours
import Calculator.Proofs.Reduction.Stages

/-!
# Forms of operators

An operator is written in one or two ways, and normalising leaves one of them.  It also leaves the
characters of arithmetic as they are (`normalize_of_isTokenChar`).
-/

set_option autoImplicit false

namespace Calculator

/-- The ways in which an operator is written. -/
def Operator.forms : Operator → List (List Char)
  | add => [['+']]
  | subtract => [['-']]
  | multiply => [['*'], ['×']]
  | divide => [['/'], ['÷']]
  | power => [['*', '*'], ['^']]

theorem normalize_form {op : Operator} {form : List Char} (h : form ∈ op.forms) :
    normalize form = op.token.spelling := by
  cases op <;> simp only [Operator.forms, List.mem_cons, List.not_mem_nil, or_false] at h
  case add => subst h; decide
  case subtract => subst h; decide
  case multiply => rcases h with rfl | rfl <;> decide
  case divide => rcases h with rfl | rfl <;> decide
  case power => rcases h with rfl | rfl <;> decide

/-- A character of arithmetic stands for itself, unless it is blank. -/
theorem normalize_of_isTokenChar {s : List Char}
    (h : ∀ c ∈ s, Token.isTokenChar c = true ∧ Text.isBlank c = false) : normalize s = s := by
  induction s with
  | nil => rfl
  | cons c cs ih =>
    obtain ⟨hc, hcs⟩ := List.forall_mem_cons.mp h
    have hne : ∀ d : Char, Token.isTokenChar d = false → c ≠ d := by
      rintro d hd rfl
      rw [hc.1] at hd
      cases hd
    have hchar : normalizeChar c = [c] := by
      rw [normalizeChar, isIgnored, hc.2, Bool.false_or,
        if_neg (fun heq ↦ hne Text.separator (by decide) (beq_iff_eq.mp heq)),
        if_neg (hne '×' (by decide)), if_neg (hne '÷' (by decide)), if_neg (hne 'π' (by decide)),
        if_neg (hne '^' (by decide))]
    show normalizeChar c ++ normalize cs = c :: cs
    rw [hchar, ih hcs]
    rfl

/-- No pass changes a token that is not a number. -/
theorem startsNothing_spelling {t : Token} (h : t.isNumber = false) :
    ∀ c ∈ t.spelling, StartsNothing c := by
  intro c hc
  have hall : ∀ d ∈ ['+', '-', '*', '/', '(', ')'], StartsNothing d := by
    intro d hd
    simp only [List.mem_cons, List.not_mem_nil, or_false] at hd
    rcases hd with rfl | rfl | rfl | rfl | rfl | rfl <;>
      exact ⟨by decide, fun f ↦ by cases f <;> decide⟩
  have hsubset : t.spelling ⊆ ['+', '-', '*', '/', '(', ')'] := by
    cases t with
    | number x => cases h
    | _ => simp [Token.spelling]
  exact hall c (hsubset hc)

end Calculator

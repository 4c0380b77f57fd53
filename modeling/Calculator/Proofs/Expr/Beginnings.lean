import Calculator.Proofs.Expr.Grammar
import Calculator.Proofs.Expr.Neighbours

/-!
# Beginnings of sentences

Tokens that are no sentence are refused with a cause.  The cause is right, and this needs one fact
about the parser: it never reads on when all is lost.  As long as it accepts tokens they can be
completed to a sentence, by a number if an operand is missing and by closing what is open
(`State.completion`); and of the beginning of a sentence it refuses nothing.  So the tokens that the
parser accepts are the beginnings of sentences (`beginsSentence_iff`).

What follows for tokens that are no sentence (`exists_cause_of_not_sentence`): if they begin one,
their last token says whether an operand is missing or a parenthesis is open, and otherwise the
token that is named is the one behind the longest beginning.
-/

set_option autoImplicit false

namespace Calculator

/-- Some sentence begins with the tokens. -/
def BeginsSentence (ts : List Token) : Prop := ∃ d : Sentence, ts <+: d.tokens

theorem BeginsSentence.of_isPrefix {ts us : List Token} (h : BeginsSentence us) (hts : ts <+: us) :
    BeginsSentence ts :=
  h.imp fun _ hd ↦ hts.trans hd

namespace Parser

/-! ## Completing what was read -/

/-- How many parentheses are open. -/
def depth (stack : List Frame) : Nat := stack.count .paren

/-- Closing nodes leaves the parentheses open. -/
theorem depth_close (s : Strength) (stack : List Frame) (e : Expr) :
    depth (close s stack e).1 = depth stack := by
  fun_induction close s stack e with
  | case1 e sign stack _ ih => rw [ih]; simp [depth]
  | case2 => rfl
  | case3 e op l stack _ ih => rw [ih]; simp [depth]
  | case4 => rfl
  | case5 => rfl

/-- Behind an operand, as many closing parentheses as are open complete the expression. -/
theorem exists_finish {n : Nat} {stack : List Frame} (h : depth stack = n) (e : Expr) :
    ∃ whole, (run (.operator stack e) (List.replicate n .closeParen)).bind finish = .ok whole := by
  induction n generalizing stack e with
  | zero =>
    have hdepth := (depth_close .sum stack e).trans h
    rcases hclose : close .sum stack e with ⟨top, inner⟩
    rcases close_sum_stack stack e with htop | ⟨rest, htop⟩ <;> rw [htop] at hdepth
    · rw [hclose] at htop
      cases htop
      refine ⟨inner, ?_⟩
      show finish (.operator stack e) = .ok inner
      simp only [finish, hclose]
    · simp [depth] at hdepth
  | succ n ih =>
    have hdepth := (depth_close .sum stack e).trans h
    rcases hclose : close .sum stack e with ⟨top, inner⟩
    rcases close_sum_stack stack e with htop | ⟨rest, htop⟩ <;> rw [htop] at hdepth
    · simp [depth] at hdepth
    · rw [hclose] at htop
      cases htop
      have hrest : depth rest = n := by simpa [depth] using hdepth
      rw [List.replicate_succ, run_cons, step_closeParen hclose]
      exact ih hrest (.paren inner)

/-- Tokens with which the expression is complete. -/
def State.completion : State → List Token
  | operand stack => .number 0 :: List.replicate (depth stack) .closeParen
  | operator stack _ => List.replicate (depth stack) .closeParen

theorem exists_finish_completion (state : State) :
    ∃ whole, (run state state.completion).bind finish = .ok whole := by
  cases state with
  | operand stack => exact exists_finish rfl (.number 0)
  | operator stack e => exact exists_finish rfl e

/-- **The parser accepts the beginnings of sentences** and no other tokens. -/
theorem beginsSentence_iff {ts : List Token} :
    BeginsSentence ts ↔ ∃ state, run start ts = .ok state := by
  constructor
  · rintro ⟨d, us, hd⟩
    have hparse : parse (ts ++ us) = .ok d.toExpr := parse_eq_ok_iff_sentence.mpr ⟨d, hd.symm, rfl⟩
    rcases hrun : run start ts with cause | state
    · rw [parse, run_append, hrun] at hparse
      cases hparse
    · exact ⟨state, rfl⟩
  · rintro ⟨state, hrun⟩
    obtain ⟨whole, hwhole⟩ := exists_finish_completion state
    have hparse : parse (ts ++ state.completion) = .ok whole := by
      rw [parse, run_append, hrun]
      exact hwhole
    obtain ⟨d, hd, -⟩ := parse_eq_ok_iff_sentence.mp hparse
    exact ⟨d, hd ▸ List.prefix_append _ _⟩

/-! ## What is refused -/

/-- **One step**: the cause names the token that was refused. -/
theorem eq_of_step_error {state : State} {t : Token} {cause : ArithmeticError}
    (h : step state t = .error cause) : cause = .unexpectedToken t := by
  cases state with
  | operand stack => cases t <;> cases h <;> rfl
  | operator stack e =>
    cases t with
    | closeParen =>
      simp only [step] at h
      split at h <;> cases h
      rfl
    | _ => cases h <;> rfl

/-- **A run**, by induction on the tokens: it is refused at one of them. -/
theorem exists_step_of_run_error {state : State} {ts : List Token} {cause : ArithmeticError}
    (h : run state ts = .error cause) :
    ∃ before t after next, ts = before ++ t :: after ∧ run state before = .ok next ∧
      step next t = .error cause := by
  induction ts generalizing state with
  | nil => cases h
  | cons t ts ih =>
    rcases hstep : step state t with refused | next
    · rw [run_cons, hstep] at h
      cases h
      exact ⟨[], t, ts, state, rfl, rfl, hstep⟩
    · rw [run_cons, hstep] at h
      obtain ⟨before, u, after, last, rfl, hrun, hrefused⟩ := ih h
      refine ⟨t :: before, u, after, last, rfl, ?_, hrefused⟩
      rw [run_cons, hstep]
      exact hrun

/-- The token that is refused is the one behind the longest beginning of a sentence. -/
theorem beginsSentence_iff_before {before after : List Token} {t : Token} {next : State}
    {cause : ArithmeticError} (hrun : run start before = .ok next)
    (hstep : step next t = .error cause) {p : List Token} (hp : p <+: before ++ t :: after) :
    BeginsSentence p ↔ p <+: before := by
  refine ⟨fun h ↦ ?_, (beginsSentence_iff.mpr ⟨next, hrun⟩).of_isPrefix⟩
  have hrefused : ¬ BeginsSentence (before ++ [t]) := by
    rw [beginsSentence_iff, run_append, hrun]
    rintro ⟨state, hstate⟩
    obtain ⟨_, hok, -⟩ := run_cons_eq_ok (show run next [t] = .ok state from hstate)
    cases hstep.symm.trans hok
  have hlonger : before ++ [t] <+: before ++ t :: after := ⟨after, by simp⟩
  rcases List.prefix_or_prefix_of_prefix hp hlonger with hshort | hlong
  · rcases List.prefix_concat_iff.mp hshort with rfl | hshorter
    · exact absurd h hrefused
    · exact hshorter
  · exact absurd (h.of_isPrefix hlong) hrefused

/-- An operand is missing only behind an operator, a sign or an opening parenthesis. -/
theorem endsOperand_of_step_operand {state : State} {stack : List Frame} {t : Token}
    (h : step state t = .ok (.operand stack)) : t.endsOperand = false := by
  cases state with
  | operand below => cases t <;> first | rfl | cases h
  | operator below e =>
    cases t with
    | closeParen =>
      simp only [step] at h
      split at h <;> cases h
    | number x => cases h
    | _ => rfl

/-- The last token says what the end of the tokens is refused for. -/
theorem finish_error {ts : List Token} {state : State} {cause : ArithmeticError} (hne : ts ≠ [])
    (hrun : run start ts = .ok state) (hfinish : finish state = .error cause) :
    ∃ last ∈ ts.getLast?,
      cause = if last.endsOperand then .unclosedParen else .unexpectedEnd := by
  obtain ⟨init, last, rfl⟩ := List.eq_nil_or_concat ts |>.resolve_left hne
  refine ⟨last, by simp, ?_⟩
  rcases hinit : run start init with refused | before
  · rw [List.concat_eq_append, run_append, hinit] at hrun
    cases hrun
  · rw [List.concat_eq_append, run_append, hinit] at hrun
    obtain ⟨_, hstep, heq⟩ := run_cons_eq_ok (show run before [last] = .ok state from hrun)
    cases heq
    cases state with
    | operand stack =>
      cases hfinish
      rw [endsOperand_of_step_operand hstep]
      rfl
    | operator stack e =>
      rw [endsOperand_of_step hstep]
      simp only [finish] at hfinish
      split at hfinish <;> cases hfinish
      rfl

end Parser

open Calculator.Parser

/-! ## The cause -/

/-- Tokens with an error are no sentence. -/
theorem Sentence.tokens_ne_of_parse {ts : List Token} {cause : ArithmeticError}
    (h : parse ts = .error cause) (d : Sentence) : d.tokens ≠ ts := by
  intro hd
  cases h.symm.trans (parse_eq_ok_iff_sentence.mpr ⟨d, hd, rfl⟩)

/-- **Tokens that are no sentence are refused for the right cause.**  If a sentence begins with
them, it is a missing operand or a parenthesis that is not closed, as the last token says; and
otherwise it is the token right behind the longest beginning of a sentence. -/
theorem exists_cause_of_not_sentence {ts : List Token} (hne : ts ≠ [])
    (hno : ∀ d : Sentence, d.tokens ≠ ts) :
    ∃ cause : ArithmeticError,
      (parse ts = .error cause ∧
        ∀ s : List Char, tokenize s = .ok ts → evaluateArithmetic s = .error cause) ∧
      (BeginsSentence ts → ∃ last ∈ ts.getLast?,
        cause = if last.endsOperand then .unclosedParen else .unexpectedEnd) ∧
      (¬ BeginsSentence ts → ∃ before t after, ts = before ++ t :: after ∧
        (∀ p, p <+: ts → (BeginsSentence p ↔ p <+: before)) ∧
        cause = .unexpectedToken t ∧ cause.message = "unexpected " ++ t.describe) := by
  rcases hparse : parse ts with cause | e
  · refine ⟨cause, ⟨rfl, fun s hs ↦ ?_⟩, fun hbegins ↦ ?_, fun hbegins ↦ ?_⟩
    · rw [evaluateArithmetic_of_tokenize hs hne, hparse]
      rfl
    · obtain ⟨state, hrun⟩ := beginsSentence_iff.mp hbegins
      rw [parse, hrun] at hparse
      exact finish_error hne hrun hparse
    · rcases hrun : run start ts with refused | state
      · rw [parse, hrun] at hparse
        cases hparse
        obtain ⟨before, t, after, next, rfl, hbefore, hstep⟩ := exists_step_of_run_error hrun
        obtain rfl := eq_of_step_error hstep
        exact ⟨before, t, after, rfl, fun p hp ↦ beginsSentence_iff_before hbefore hstep hp,
          rfl, rfl⟩
      · exact absurd (beginsSentence_iff.mpr ⟨state, hrun⟩) hbegins
  · obtain ⟨d, hd, -⟩ := parse_eq_ok_iff_sentence.mp hparse
    exact absurd hd (hno d)

/-- A parenthesis too many, with tokens behind it that no longer matter. -/
theorem exists_cause_of_unopened :
    let ts : List Token :=
      [.openParen, .number 1, .plus, .number 2, .closeParen, .closeParen, .times, .times]
    parse ts = .error (.unexpectedToken .closeParen) ∧ ts ≠ [] ∧
      (∀ d : Sentence, d.tokens ≠ ts) ∧
      ∃ cause : ArithmeticError,
        (parse ts = .error cause ∧
          ∀ s : List Char, tokenize s = .ok ts → evaluateArithmetic s = .error cause) ∧
        (BeginsSentence ts → ∃ last ∈ ts.getLast?,
          cause = if last.endsOperand then .unclosedParen else .unexpectedEnd) ∧
        (¬ BeginsSentence ts → ∃ before t after, ts = before ++ t :: after ∧
          (∀ p, p <+: ts → (BeginsSentence p ↔ p <+: before)) ∧
          cause = .unexpectedToken t ∧ cause.message = "unexpected " ++ t.describe) := by
  intro ts
  have hparse : parse ts = .error (.unexpectedToken .closeParen) := by decide +kernel
  have hno := Sentence.tokens_ne_of_parse hparse
  exact ⟨hparse, List.cons_ne_nil _ _, hno, exists_cause_of_not_sentence (List.cons_ne_nil _ _) hno⟩

end Calculator

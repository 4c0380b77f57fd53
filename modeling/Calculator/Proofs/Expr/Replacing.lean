import Calculator.Proofs.Evaluation.Accepted
import Calculator.Proofs.Expr.Neighbours
import Calculator.Proofs.Expr.Spliced
import Mathlib.Data.List.Forall2

/-!
# An operand in place of another one

The parser keeps the trees of the operands it has finished, but what a text is worth depends on
nothing but their values.  Two states *agree* (`State.Agree`) if they wait for the same and hold
operands of the same values.  A step takes states that agree to states that agree (`step_agree`), so
whatever follows is read to the same value from both (`Reads.of_agree`).

Hence a value can be put in parentheses (`reads_ofFloat_iff`), with one exception.  Behind a sign the
operand is not finished until something comes that does not belong to it, and of all tokens only the
power sign belongs to it (`step_signed`).  So a value with a minus in front of a power is not one
operand: the minus applies after the power, and it is the value without its minus that can be put in
parentheses (`reads_signed_iff`).
-/

set_option autoImplicit false

namespace Calculator.Parser

/-! ## States that agree -/

/-- The frames wait for the same, and what they hold has the same value. -/
inductive Frame.Agree : Frame → Frame → Prop where
  | paren : Agree .paren .paren
  | signed (s : Sign) : Agree (.signed s) (.signed s)
  | left (op : Operator) {l l' : Expr} (h : l.value = l'.value) : Agree (.left op l) (.left op l')

/-- The states wait for the same, and what they hold has the same value. -/
inductive State.Agree : State → State → Prop where
  | operand {stack stack' : List Frame} (h : List.Forall₂ Frame.Agree stack stack') :
      Agree (.operand stack) (.operand stack')
  | operator {stack stack' : List Frame} {e e' : Expr} (h : List.Forall₂ Frame.Agree stack stack')
      (he : e.value = e'.value) : Agree (.operator stack e) (.operator stack' e')

theorem Frame.agree_refl (f : Frame) : f.Agree f := by
  cases f with
  | paren => exact .paren
  | signed s => exact .signed s
  | left op l => exact .left op rfl

theorem Frame.Agree.symm {f g : Frame} (h : f.Agree g) : g.Agree f := by
  cases h with
  | paren => exact .paren
  | signed s => exact .signed s
  | left op h => exact .left op h.symm

theorem agree_stack_refl (stack : List Frame) : List.Forall₂ Frame.Agree stack stack :=
  List.forall₂_same.mpr fun f _ ↦ f.agree_refl

theorem agree_stack_symm {stack stack' : List Frame} (h : List.Forall₂ Frame.Agree stack stack') :
    List.Forall₂ Frame.Agree stack' stack := by
  induction h with
  | nil => exact .nil
  | cons hf _ ih => exact .cons hf.symm ih

theorem State.Agree.symm {S T : State} (h : S.Agree T) : T.Agree S := by
  cases h with
  | operand h => exact .operand (agree_stack_symm h)
  | operator h he => exact .operator (agree_stack_symm h) he.symm

/-! ## Reading on from states that agree -/

variable {stack stack' : List Frame} {e e' : Expr}

/-- As many nodes are closed in both, with the same value. -/
theorem close_agree (s : Strength) (h : List.Forall₂ Frame.Agree stack stack')
    (he : e.value = e'.value) :
    List.Forall₂ Frame.Agree (close s stack e).1 (close s stack' e').1 ∧
      (close s stack e).2.value = (close s stack' e').2.value := by
  induction h generalizing e e' with
  | nil => exact ⟨.nil, he⟩
  | @cons f g rest rest' hfg hrest ih =>
    cases hfg with
    | paren => exact ⟨.cons .paren hrest, he⟩
    | signed sign =>
      by_cases hs : s.rank ≤ Strength.signed.rank
      · simp only [close, if_pos hs]
        exact ih (by rw [Expr.value, Expr.value, he])
      · simp only [close, if_neg hs]
        exact ⟨.cons (.signed sign) hrest, he⟩
    | left op hl =>
      by_cases hs : s.rank ≤ op.strength.rank
      · simp only [close, if_pos hs]
        exact ih (by rw [Expr.value, Expr.value, hl, he])
      · simp only [close, if_neg hs]
        exact ⟨.cons (.left op hl) hrest, he⟩

theorem follow_agree (op : Operator) (h : List.Forall₂ Frame.Agree stack stack')
    (he : e.value = e'.value) : (follow op stack e).Agree (follow op stack' e') := by
  obtain ⟨hstack, hvalue⟩ := close_agree op.leftStrength h he
  exact .operand (.cons (.left op hvalue) hstack)

/-- **One step**: what can be read from one of two states that agree can be read from the other. -/
theorem step_agree {S T S' : State} {t : Token} (h : S.Agree T) (hstep : step S t = .ok S') :
    ∃ T', step T t = .ok T' ∧ S'.Agree T' := by
  cases h with
  | operand h =>
    cases t with
    | number x => cases hstep; exact ⟨_, rfl, .operator h rfl⟩
    | openParen => cases hstep; exact ⟨_, rfl, .operand (.cons .paren h)⟩
    | plus => cases hstep; exact ⟨_, rfl, .operand (.cons (.signed .plus) h)⟩
    | minus => cases hstep; exact ⟨_, rfl, .operand (.cons (.signed .minus) h)⟩
    | _ => cases hstep
  | @operator stack stack' e e' h he =>
    cases t with
    | number x => cases hstep
    | openParen => cases hstep
    | plus => cases hstep; exact ⟨_, rfl, follow_agree .add h he⟩
    | minus => cases hstep; exact ⟨_, rfl, follow_agree .subtract h he⟩
    | times => cases hstep; exact ⟨_, rfl, follow_agree .multiply h he⟩
    | divide => cases hstep; exact ⟨_, rfl, follow_agree .divide h he⟩
    | power => cases hstep; exact ⟨_, rfl, follow_agree .power h he⟩
    | closeParen =>
      obtain ⟨hstack, hvalue⟩ := close_agree .sum h he
      simp only [step] at hstep
      split at hstep
      · rename_i rest inner hclose
        cases hstep
        rw [hclose] at hstack hvalue
        rcases hclose' : close .sum stack' e' with ⟨_ | ⟨f, rest'⟩, inner'⟩
        · rw [hclose'] at hstack
          cases hstack
        · rw [hclose'] at hstack hvalue
          obtain ⟨hf, hrest⟩ := List.forall₂_cons.mp hstack
          cases hf
          exact ⟨_, step_closeParen hclose', .operator hrest hvalue⟩
      · cases hstep

/-- At the end of the text. -/
theorem finish_agree {S T : State} (h : S.Agree T) (hfinish : finish S = .ok e) :
    ∃ f, finish T = .ok f ∧ f.value = e.value := by
  cases h with
  | operand h => cases hfinish
  | @operator stack stack' last last' h he =>
    obtain ⟨hstack, hvalue⟩ := close_agree .sum h he
    simp only [finish] at hfinish ⊢
    split at hfinish
    · rename_i whole hclose
      cases hfinish
      rw [hclose] at hstack hvalue
      rcases hclose' : close .sum stack' last' with ⟨_ | ⟨f, rest'⟩, whole'⟩
      · rw [hclose'] at hvalue
        exact ⟨whole', rfl, hvalue.symm⟩
      · rw [hclose'] at hstack
        cases hstack
    · cases hfinish

/-- From this state on, the tokens complete an expression with this value. -/
def Reads (S : State) (ts : List Token) (v : Float) : Prop :=
  ∃ final whole, run S ts = .ok final ∧ finish final = .ok whole ∧ whole.value = v

variable {S T : State} {ts us : List Token} {v : Float}

theorem reads_nil_iff : Reads S [] v ↔ ∃ whole, finish S = .ok whole ∧ whole.value = v := by
  constructor
  · rintro ⟨final, whole, hrun, hrest⟩
    cases hrun
    exact ⟨whole, hrest⟩
  · rintro ⟨whole, hrest⟩
    exact ⟨S, whole, rfl, hrest⟩

theorem reads_cons_iff {t : Token} :
    Reads S (t :: ts) v ↔ ∃ next, step S t = .ok next ∧ Reads next ts v := by
  constructor
  · rintro ⟨final, whole, hrun, hrest⟩
    obtain ⟨next, hstep, hrun⟩ := run_cons_eq_ok hrun
    exact ⟨next, hstep, final, whole, hrun, hrest⟩
  · rintro ⟨next, hstep, final, whole, hrun, hrest⟩
    exact ⟨final, whole, by rw [run_cons, hstep]; exact hrun, hrest⟩

/-- Tokens are read in two parts. -/
theorem reads_append_iff :
    Reads S (ts ++ us) v ↔ ∃ mid, run S ts = .ok mid ∧ Reads mid us v := by
  induction ts generalizing S with
  | nil => simp [run_nil]
  | cons t ts ih =>
    rw [List.cons_append, reads_cons_iff]
    constructor
    · rintro ⟨next, hstep, hreads⟩
      obtain ⟨mid, hrun, hmid⟩ := ih.mp hreads
      exact ⟨mid, by rw [run_cons, hstep]; exact hrun, hmid⟩
    · rintro ⟨mid, hrun, hmid⟩
      obtain ⟨next, hstep, hrun⟩ := run_cons_eq_ok hrun
      exact ⟨next, hstep, ih.mpr ⟨mid, hrun, hmid⟩⟩

theorem reads_append_of_run {mid : State} (h : run S ts = .ok mid) :
    Reads S (ts ++ us) v ↔ Reads mid us v := by
  rw [reads_append_iff, h]
  simp

/-- **States that agree** read a text to the same value, by induction on its tokens. -/
theorem Reads.of_agree (hreads : Reads S ts v) (h : S.Agree T) : Reads T ts v := by
  induction ts generalizing S T with
  | nil =>
    obtain ⟨whole, hfinish, hvalue⟩ := reads_nil_iff.mp hreads
    obtain ⟨whole', hfinish', hvalue'⟩ := finish_agree h hfinish
    exact reads_nil_iff.mpr ⟨whole', hfinish', hvalue'.trans hvalue⟩
  | cons t ts ih =>
    obtain ⟨next, hstep, hnext⟩ := reads_cons_iff.mp hreads
    obtain ⟨next', hstep', hagree⟩ := step_agree h hstep
    exact reads_cons_iff.mpr ⟨next', hstep', ih hnext hagree⟩

theorem reads_iff_of_agree (h : S.Agree T) : Reads S ts v ↔ Reads T ts v :=
  ⟨fun hreads ↦ hreads.of_agree h, fun hreads ↦ hreads.of_agree h.symm⟩

/-! ## Operands with a sign -/

/-- Only a power takes an operand from the sign in front of it. -/
theorem step_signed {t : Token} (ht : t ≠ .power) (s : Sign) (stack : List Frame) (e : Expr) :
    step (.operator (.signed s :: stack) e) t = step (.operator stack (.signed s e)) t := by
  cases t with
  | power => exact absurd rfl ht
  | _ => rfl

theorem reads_signed_operand_iff {s : Sign} (h : Token.power ∉ ts.head?) :
    Reads (.operator (.signed s :: stack) e) ts v ↔ Reads (.operator stack (.signed s e)) ts v := by
  cases ts with
  | nil => rw [reads_nil_iff, reads_nil_iff]; rfl
  | cons t ts =>
    have ht : t ≠ .power := fun heq ↦ h (heq ▸ rfl)
    rw [reads_cons_iff, reads_cons_iff, step_signed ht]

/-! ## Values in parentheses -/

/-- Parentheses are read as one operand. -/
theorem run_paren (he : e.WellFormed) (stack : List Frame) :
    run (.operand stack) (Expr.paren e).tokens = .ok (.operator stack (.paren e)) := by
  obtain ⟨top, last, hrun, hgood⟩ := run_tokens he (.paren :: stack) (Nat.zero_le _)
  have hclose : close .sum top last = (.paren :: stack, e) := hgood .add e.bindsAtLeast_sum
  rw [Expr.tokens, run_cons]
  show run (.operand (.paren :: stack)) (e.tokens ++ [.closeParen]) = _
  rw [run_append, hrun]
  show run (.operator top last) [.closeParen] = _
  rw [run_cons, step_closeParen hclose]
  rfl

/-- A number can be put in parentheses. -/
theorem reads_number_iff {x : Float} :
    Reads (.operand stack) ((Expr.number x).tokens ++ ts) v ↔
      Reads (.operand stack) ((Expr.paren (.number x)).tokens ++ ts) v := by
  have hnumber : run (.operand stack) (Expr.number x).tokens = .ok (.operator stack (.number x)) :=
    rfl
  have hwell : (Expr.number x).WellFormed := True.intro
  rw [reads_append_of_run hnumber, reads_append_of_run (run_paren hwell stack)]
  exact reads_iff_of_agree (.operator (agree_stack_refl stack) rfl)

/-- A sign waits for the operand behind it. -/
theorem reads_signed_iff_operand {s : Sign} :
    Reads (.operand stack) ((Expr.signed s e).tokens ++ ts) v ↔
      Reads (.operand (.signed s :: stack)) (e.tokens ++ ts) v := by
  have hsign : run (.operand stack) [s.token] = .ok (.operand (.signed s :: stack)) := by
    rw [run_cons, step_sign]
    rfl
  exact reads_append_of_run hsign

/-- A number behind a sign can be put in parentheses. -/
theorem reads_signed_iff {s : Sign} {x : Float} :
    Reads (.operand stack) ((Expr.signed s (.number x)).tokens ++ ts) v ↔
      Reads (.operand stack) ((Expr.signed s (.paren (.number x))).tokens ++ ts) v := by
  rw [reads_signed_iff_operand, reads_signed_iff_operand]
  exact reads_number_iff

/-- **A value can be put in parentheses**, unless it has a minus and stands in front of a power. -/
theorem reads_ofFloat_iff {x : Float} (h : Double.isNegative x = false ∨ Token.power ∉ ts.head?) :
    Reads (.operand stack) ((Expr.ofFloat x).tokens ++ ts) v ↔
      Reads (.operand stack) ((Expr.paren (.ofFloat x)).tokens ++ ts) v := by
  by_cases hx : Double.isNegative x = true
  · have hpower := h.resolve_left (by rw [hx]; decide)
    have heq : Expr.ofFloat x = .signed .minus (.number (-x)) := if_pos hx
    have hsigned : run (.operand stack) (Expr.signed .minus (.number (-x))).tokens
        = .ok (.operator (.signed .minus :: stack) (.number (-x))) := rfl
    have hwell := (Expr.ofFloat_wellFormed x).2
    rw [reads_append_of_run (run_paren hwell stack), heq, reads_append_of_run hsigned,
      reads_signed_operand_iff hpower]
    exact reads_iff_of_agree (.operator (agree_stack_refl stack) rfl)
  · rw [Expr.ofFloat_of_not_isNegative (Bool.eq_false_iff.mpr hx)]
    exact reads_number_iff

/-! ## Where an operand has to start -/

/-- An operand has to start after an operator, a sign or an opening parenthesis. -/
theorem operand_of_run (h : run start ts = .ok S)
    (hlast : ∀ t ∈ ts.getLast?, t.endsOperand = false) : ∃ stack, S = .operand stack := by
  rcases List.eq_nil_or_concat ts with rfl | ⟨before, t, rfl⟩
  · cases h
    exact ⟨[], rfl⟩
  · rw [List.concat_eq_append, run_append] at h
    rcases hrun : run start before with cause | mid
    · rw [hrun] at h
      cases h
    · rw [hrun] at h
      obtain ⟨next, hstep, hnext⟩ := run_cons_eq_ok (show run mid [t] = .ok S from h)
      cases hnext
      have ht := hlast t (by simp)
      cases S with
      | operand stack => exact ⟨stack, rfl⟩
      | operator stack e =>
        rw [endsOperand_of_step hstep] at ht
        cases ht

end Calculator.Parser

namespace Calculator

open Calculator.Parser

/-- The value of an arithmetic text is what its tokens are read to. -/
theorem evaluateArithmetic_eq_ok_iff_reads {s : List Char} {v : Float} :
    evaluateArithmetic s = .ok v ↔ ∃ ts, Token.Spells s ts ∧ Reads start ts v := by
  rw [evaluateArithmetic_eq_ok_iff]
  constructor
  · rintro ⟨e, he, hs, hvalue⟩
    have hparse := parse_eq_ok_iff.mpr ⟨he, rfl⟩
    rw [parse] at hparse
    rcases hrun : run start e.tokens with cause | final
    · rw [hrun] at hparse
      cases hparse
    · rw [hrun] at hparse
      exact ⟨_, hs, final, e, hrun, hparse, hvalue⟩
  · rintro ⟨ts, hs, final, e, hrun, hfinish, hvalue⟩
    have hparse : parse ts = .ok e := by rw [parse, hrun]; exact hfinish
    obtain ⟨he, rfl⟩ := parse_eq_ok_iff.mp hparse
    exact ⟨e, he, hs, hvalue⟩

end Calculator

import Calculator.Expr.Parser

/-!
# What the parser accepts

The parser of `Calculator.Expr.Parser` goes through the tokens once and remembers a stack of
unfinished nodes.  This file shows that it finds an expression exactly where there is one:
`parse_eq_ok_iff` says that `parse ts` is the expression `e` if and only if `e` is well formed and
its tokens are `ts`.  Since the parser is a function, tokens never spell two well-formed
expressions (`Expr.eq_of_tokens_eq`).

Both directions are invariants of a run.

* **Soundness.**  A state of the parser stands for the tokens read so far, `State.tokens`, and it
  is `State.Valid`: every frame may hold what it waits for, and may itself be held by the frame
  below it.  One step adds one token and keeps the state valid (`step_valid`).
* **Completeness.**  From a stack that admits the expression `e`, reading the tokens of `e` ends
  with a finished operand that is *as good as* `e`: any operator that could have `e` on its left
  closes the stack to the same place, with `e` on top (`run_tokens`).  That is as much as can be
  said, because the parser closes a node only when it sees what comes after it.
-/

set_option autoImplicit false

namespace Calculator.Parser

/-! ## Frames -/

/-- The least strength of the operand that a frame waits for. -/
def Frame.demand : Frame → Strength
  | paren => .sum
  | signed _ => .signed
  | left op _ => op.rightStrength

/-- The strength of the node that a frame becomes. -/
def Frame.strength : Frame → Strength
  | paren => .primary
  | signed _ => .signed
  | left op _ => op.strength

/-- The tokens of a frame. -/
def Frame.tokens : Frame → List Token
  | paren => [.openParen]
  | signed s => [s.token]
  | left op l => l.tokens ++ [op.token]

/-- What a frame already holds is right. -/
def Frame.WellFormed : Frame → Prop
  | left op l => l.BindsAtLeast op.leftStrength ∧ l.WellFormed
  | _ => True

/-! ## Stacks -/

/-- The tokens of a stack, whose top is at the front. -/
def stackTokens : List Frame → List Token
  | [] => []
  | f :: stack => stackTokens stack ++ f.tokens

/-- A node of this strength may be what the top of the stack waits for. -/
def Admits : List Frame → Strength → Prop
  | [], _ => True
  | f :: _, s => f.demand.rank ≤ s.rank

/-- Every frame is right, and may be what the frame below it waits for. -/
def StackWellFormed : List Frame → Prop
  | [] => True
  | f :: stack => f.WellFormed ∧ Admits stack f.strength ∧ StackWellFormed stack

theorem admits_mono {stack : List Frame} {s t : Strength} (h : Admits stack s)
    (hst : s.rank ≤ t.rank) : Admits stack t := by
  cases stack with
  | nil => exact True.intro
  | cons f rest => exact Nat.le_trans h hst

/-- No frame waits for more than an operand with a sign. -/
theorem Frame.demand_le_signed (f : Frame) : f.demand.rank ≤ Strength.signed.rank := by
  cases f with
  | paren => exact Nat.zero_le _
  | signed s => exact Nat.le_refl _
  | left op l => cases op <;> simp [demand, Operator.rightStrength, Strength.rank]

theorem admits_of_signed_le {s : Strength} (h : Strength.signed.rank ≤ s.rank)
    (stack : List Frame) : Admits stack s := by
  cases stack with
  | nil => exact True.intro
  | cons f rest => exact Nat.le_trans f.demand_le_signed h

/-! ## Strengths of operators -/

theorem strength_le_leftStrength (op : Operator) :
    op.strength.rank ≤ op.leftStrength.rank := by
  cases op <;> decide

/-- An operator that may have a node on its left may also have that node's right operand there. -/
theorem leftStrength_le_rightStrength {op next : Operator}
    (h : next.leftStrength.rank ≤ op.strength.rank) :
    next.leftStrength.rank ≤ op.rightStrength.rank := by
  cases op <;> cases next <;> first | decide | exact absurd h (by decide)

/-- An operator that may stand in a node's right operand does not close the node. -/
theorem strength_lt_leftStrength {op next : Operator}
    (h : op.rightStrength.rank ≤ next.strength.rank) :
    op.strength.rank < next.leftStrength.rank := by
  cases op <;> cases next <;> first | decide | exact absurd h (by decide)

/-- An operator that does not close a node may stand in its right operand. -/
theorem rightStrength_le_strength {op next : Operator}
    (h : op.strength.rank < next.leftStrength.rank) :
    op.rightStrength.rank ≤ next.strength.rank := by
  cases op <;> cases next <;> first | decide | exact absurd h (by decide)

/-! ## Closing -/

/-- An operator that may be the next node on a stack closes nothing of it. -/
theorem close_of_admits {stack : List Frame} {op : Operator} (h : Admits stack op.strength)
    (e : Expr) : close op.leftStrength stack e = (stack, e) := by
  cases stack with
  | nil => rfl
  | cons f rest =>
    cases f with
    | paren => rfl
    | signed s =>
      have hdemand : Strength.signed.rank ≤ op.strength.rank := h
      have hop : ¬ op.leftStrength.rank ≤ Strength.signed.rank := by
        revert hdemand
        cases op <;> decide
      rw [close, if_neg hop]
    | left op' l =>
      rw [close, if_neg (Nat.not_le_of_lt (strength_lt_leftStrength h))]

/-- Closing moves tokens from the stack to the finished node. -/
theorem tokens_close (s : Strength) (stack : List Frame) (e : Expr) :
    stackTokens (close s stack e).1 ++ (close s stack e).2.tokens
      = stackTokens stack ++ e.tokens := by
  fun_induction close s stack e with
  | case1 e sign stack _ ih => rw [ih]; simp [stackTokens, Frame.tokens, Expr.tokens]
  | case2 => rfl
  | case3 e op l stack _ ih => rw [ih]; simp [stackTokens, Frame.tokens, Expr.tokens]
  | case4 => rfl
  | case5 => rfl

/-- Closing a valid stack leaves a valid stack and a well-formed node, which binds as strongly as
the closing asked for. -/
theorem close_wellFormed {s : Strength} {stack : List Frame} {e : Expr}
    (hstack : StackWellFormed stack) (hadm : Admits stack e.strength) (he : e.WellFormed)
    (hs : e.BindsAtLeast s) :
    StackWellFormed (close s stack e).1 ∧ (close s stack e).2.WellFormed ∧
      (close s stack e).2.BindsAtLeast s := by
  fun_induction close s stack e with
  | case1 e sign stack h ih =>
    exact ih hstack.2.2 hstack.2.1 ⟨hadm, he⟩ h
  | case2 => exact ⟨hstack, he, hs⟩
  | case3 e op l stack h ih =>
    exact ih hstack.2.2 hstack.2.1 ⟨hstack.1.1, hstack.1.2, hadm, he⟩ h
  | case4 => exact ⟨hstack, he, hs⟩
  | case5 => exact ⟨hstack, he, hs⟩

/-- What an operator does not close may hold the operator's node. -/
theorem admits_close (op : Operator) (stack : List Frame) (e : Expr) :
    Admits (close op.leftStrength stack e).1 op.strength := by
  fun_induction close op.leftStrength stack e with
  | case1 _ _ _ _ ih => exact ih
  | case2 e sign stack h =>
    show Strength.signed.rank ≤ op.strength.rank
    revert h
    cases op <;> decide
  | case3 _ _ _ _ _ ih => exact ih
  | case4 e op' l stack h => exact rightStrength_le_strength (Nat.lt_of_not_le h)
  | case5 stack e h1 h2 =>
    rcases stack with _ | ⟨frame, rest⟩
    · exact True.intro
    · cases frame with
      | paren => exact Nat.zero_le _
      | signed s => exact absurd rfl (h1 s rest)
      | left op l => exact absurd rfl (h2 op l rest)

/-! ## Soundness -/

/-- The tokens that a state has been reached by. -/
def State.tokens : State → List Token
  | operand stack => stackTokens stack
  | operator stack e => stackTokens stack ++ e.tokens

/-- The stack is right, and a finished operand is a number or stands in parentheses. -/
def State.Valid : State → Prop
  | operand stack => StackWellFormed stack
  | operator stack e => StackWellFormed stack ∧ e.WellFormed ∧ e.strength = .primary

theorem follow_valid {op : Operator} {stack : List Frame} {e : Expr}
    (h : (State.operator stack e).Valid) :
    (follow op stack e).Valid ∧
      (follow op stack e).tokens = (State.operator stack e).tokens ++ [op.token] := by
  obtain ⟨hstack, he, hp⟩ := h
  have hs : e.BindsAtLeast op.leftStrength := by
    rw [Expr.BindsAtLeast, hp]
    cases op <;> decide
  have hadm : Admits stack e.strength := admits_of_signed_le (by rw [hp]; decide) stack
  obtain ⟨h1, h2, h3⟩ := close_wellFormed hstack hadm he hs
  refine ⟨⟨⟨h3, h2⟩, admits_close op stack e, h1⟩, ?_⟩
  rw [follow, State.tokens, State.tokens, ← tokens_close op.leftStrength stack e]
  simp [stackTokens, Frame.tokens]

/-- A closing parenthesis ends the innermost parenthesis that is open. -/
theorem step_closeParen {stack rest : List Frame} {e inner : Expr}
    (h : close .sum stack e = (.paren :: rest, inner)) :
    step (.operator stack e) .closeParen = .ok (.operator rest (.paren inner)) := by
  simp only [step, h]

theorem closeParen_valid {stack : List Frame} {e : Expr} {next : State}
    (hstep : step (.operator stack e) .closeParen = .ok next)
    (h : (State.operator stack e).Valid) :
    next.Valid ∧ next.tokens = (State.operator stack e).tokens ++ [.closeParen] := by
  obtain ⟨hstack, he, hp⟩ := h
  have hadm : Admits stack e.strength := admits_of_signed_le (by rw [hp]; decide) stack
  obtain ⟨h1, h2, -⟩ := close_wellFormed hstack hadm he e.bindsAtLeast_sum
  have htokens := tokens_close .sum stack e
  simp only [step] at hstep
  split at hstep
  · rename_i rest inner hclose
    cases hstep
    rw [hclose] at h1 h2 htokens
    refine ⟨⟨h1.2.2, h2, rfl⟩, ?_⟩
    rw [State.tokens, State.tokens, ← htokens]
    simp [stackTokens, Frame.tokens, Expr.tokens]
  · cases hstep

/-- **One step of a run**: the state stays valid and gains the token that was read. -/
theorem step_valid {state next : State} {t : Token} (hstep : step state t = .ok next)
    (h : state.Valid) : next.Valid ∧ next.tokens = state.tokens ++ [t] := by
  cases state with
  | operand stack =>
    have hsign : ∀ s : Sign, (State.operand (.signed s :: stack)).Valid :=
      fun _ ↦ ⟨True.intro, admits_of_signed_le (Nat.le_refl _) stack, h⟩
    cases t with
    | number x => cases hstep; exact ⟨⟨h, True.intro, rfl⟩, rfl⟩
    | openParen =>
      cases hstep
      exact ⟨⟨True.intro, admits_of_signed_le (by decide) stack, h⟩, rfl⟩
    | plus => cases hstep; exact ⟨hsign .plus, rfl⟩
    | minus => cases hstep; exact ⟨hsign .minus, rfl⟩
    | times => cases hstep
    | divide => cases hstep
    | power => cases hstep
    | closeParen => cases hstep
  | operator stack e =>
    cases t with
    | number x => cases hstep
    | openParen => cases hstep
    | plus => cases hstep; exact follow_valid h
    | minus => cases hstep; exact follow_valid h
    | times => cases hstep; exact follow_valid h
    | divide => cases hstep; exact follow_valid h
    | power => cases hstep; exact follow_valid h
    | closeParen => exact closeParen_valid hstep h

/-- **A whole run**, by induction on the tokens. -/
theorem run_valid {state final : State} {ts : List Token} (hrun : run state ts = .ok final)
    (h : state.Valid) : final.Valid ∧ final.tokens = state.tokens ++ ts := by
  induction ts generalizing state with
  | nil =>
    cases hrun
    exact ⟨h, (List.append_nil _).symm⟩
  | cons t ts ih =>
    rw [run_cons] at hrun
    rcases hstep : step state t with cause | next
    · rw [hstep] at hrun
      cases hrun
    · rw [hstep] at hrun
      obtain ⟨hnext, htokens⟩ := step_valid hstep h
      obtain ⟨hfinal, heq⟩ := ih hrun hnext
      exact ⟨hfinal, by rw [heq, htokens, List.append_assoc]; rfl⟩

theorem finish_valid {state : State} {e : Expr} (hfinish : finish state = .ok e)
    (h : state.Valid) : e.WellFormed ∧ e.tokens = state.tokens := by
  cases state with
  | operand stack => cases hfinish
  | operator stack last =>
    obtain ⟨hstack, hlast, hp⟩ := h
    have hadm : Admits stack last.strength := admits_of_signed_le (by rw [hp]; decide) stack
    obtain ⟨-, h2, -⟩ := close_wellFormed hstack hadm hlast last.bindsAtLeast_sum
    have htokens := tokens_close .sum stack last
    simp only [finish] at hfinish
    split at hfinish
    · rename_i whole hclose
      cases hfinish
      rw [hclose] at h2 htokens
      exact ⟨h2, htokens⟩
    · cases hfinish

/-! ## Completeness -/

/-- A finished operand that any operator with `e` on its left treats like `e` itself. -/
def AsGoodAs (stack : List Frame) (e : Expr) (top : List Frame) (last : Expr) : Prop :=
  ∀ op : Operator, e.BindsAtLeast op.leftStrength →
    close op.leftStrength top last = close op.leftStrength stack e

theorem step_operator {op : Operator} (stack : List Frame) (e : Expr) :
    step (.operator stack e) op.token = .ok (follow op stack e) := by
  cases op <;> rfl

theorem step_sign (s : Sign) (stack : List Frame) :
    step (.operand stack) s.token = .ok (.operand (.signed s :: stack)) := by
  cases s <;> rfl

/-- **Reading the tokens of an expression** leaves a finished operand as good as the expression.
The induction is on the expression; what is below it on the stack is left untouched because the
stack admits it. -/
theorem run_tokens {e : Expr} (he : e.WellFormed) (stack : List Frame)
    (hadm : Admits stack e.strength) :
    ∃ top last, run (.operand stack) e.tokens = .ok (.operator top last) ∧
      AsGoodAs stack e top last := by
  induction e generalizing stack with
  | number x => exact ⟨stack, .number x, rfl, fun _ _ ↦ rfl⟩
  | paren inner ih =>
    obtain ⟨top, last, hrun, hgood⟩ := ih he (.paren :: stack) (Nat.zero_le _)
    have hclose : close .sum top last = (.paren :: stack, inner) :=
      hgood .add inner.bindsAtLeast_sum
    refine ⟨stack, .paren inner, ?_, fun _ _ ↦ rfl⟩
    rw [Expr.tokens, run_cons]
    show run (.operand (.paren :: stack)) (inner.tokens ++ [.closeParen]) = _
    rw [run_append, hrun]
    show run (.operator top last) [.closeParen] = _
    rw [run_cons, step_closeParen hclose]
    rfl
  | signed s operand ih =>
    obtain ⟨top, last, hrun, hgood⟩ := ih he.2 (.signed s :: stack) he.1
    refine ⟨top, last, ?_, fun op hop ↦ ?_⟩
    · rw [Expr.tokens, run_cons, step_sign]
      exact hrun
    · have hrank : op.leftStrength.rank ≤ Strength.signed.rank := hop
      rw [hgood op (Nat.le_trans hop he.1), close, if_pos hrank]
  | binary op l r ihl ihr =>
    obtain ⟨hl, hlw, hr, hrw⟩ := he
    have hladm : Admits stack l.strength :=
      admits_mono hadm (Nat.le_trans (strength_le_leftStrength op) hl)
    obtain ⟨top, last, hrun, hgood⟩ := ihl hlw stack hladm
    obtain ⟨top', last', hrun', hgood'⟩ := ihr hrw (.left op l :: stack) hr
    have hfollow : follow op top last = .operand (.left op l :: stack) := by
      rw [follow, hgood op hl, close_of_admits hadm]
    refine ⟨top', last', ?_, fun next hnext ↦ ?_⟩
    · rw [Expr.tokens, run_append, hrun]
      show run (.operator top last) (op.token :: r.tokens) = _
      rw [run_cons, step_operator, hfollow]
      exact hrun'
    · have hrank : next.leftStrength.rank ≤ op.strength.rank := hnext
      rw [hgood' next (Nat.le_trans (leftStrength_le_rightStrength hrank) hr), close,
        if_pos hrank]

end Calculator.Parser

namespace Calculator

open Calculator.Parser

/-! ## The parser and the expressions -/

/-- **The parser accepts exactly the tokens of well-formed expressions.** -/
theorem parse_eq_ok_iff {ts : List Token} {e : Expr} :
    parse ts = .ok e ↔ e.WellFormed ∧ e.tokens = ts := by
  constructor
  · intro h
    rcases hrun : run start ts with cause | final
    · rw [parse, hrun] at h
      cases h
    · rw [parse, hrun] at h
      obtain ⟨hvalid, htokens⟩ := run_valid hrun True.intro
      obtain ⟨hwell, heq⟩ := finish_valid h hvalid
      exact ⟨hwell, heq.trans htokens⟩
  · rintro ⟨hwell, rfl⟩
    obtain ⟨top, last, hrun, hgood⟩ := run_tokens hwell [] True.intro
    have hclose : close .sum top last = ([], e) := hgood .add e.bindsAtLeast_sum
    rw [parse, start, hrun]
    show finish (.operator top last) = _
    simp only [finish, hclose]

/-- Tokens spell at most one well-formed expression. -/
theorem Expr.eq_of_tokens_eq {e f : Expr} (he : e.WellFormed) (hf : f.WellFormed)
    (h : e.tokens = f.tokens) : e = f := by
  have h1 : parse f.tokens = .ok e := parse_eq_ok_iff.mpr ⟨he, h⟩
  have h2 : parse f.tokens = .ok f := parse_eq_ok_iff.mpr ⟨hf, rfl⟩
  exact Except.ok.inj (h1.symm.trans h2)

end Calculator

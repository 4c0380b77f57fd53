import Calculator.Expr.Lexer
import Calculator.Expr.Syntax

/-!
# From tokens to expressions

The parser reads the tokens one at a time, from left to right, and what it remembers is a stack of
unfinished nodes: parentheses, signs and left operands that wait for what comes next.  Between two
tokens it is in one of two states.  Either an *operand* has to start, or an operand has just been
finished and an *operator* may follow.

What an operator does to the stack is the grammar's only rule.  The finished operand belongs to the
unfinished nodes on top of the stack that bind at least as strongly as the operator's left operand
has to; those are closed, and the result becomes the operator's left operand.  Nothing binds as
strongly as the base of a power has to, so a power closes nothing, and that makes it group to the
right.  Closing every node up to a parenthesis is what a closing parenthesis and the end of the text
do, and it is the same rule with the weakest strength.

Reading is a fold of `Parser.step`, so a text is read in pieces and an error is always about the
first token that cannot follow the ones before it.  What the rest of the text holds plays no part.
-/

set_option autoImplicit false

namespace Calculator.Parser

/-- A node that waits for its operand. -/
inductive Frame where
  | paren
  | signed (sign : Sign)
  | left (op : Operator) (operand : Expr)
deriving DecidableEq

/-- What has been read so far. -/
inductive State where
  /-- An operand has to start. -/
  | operand (stack : List Frame)
  /-- An operand has been finished. -/
  | operator (stack : List Frame) (finished : Expr)
deriving DecidableEq

/-- The state before the first token. -/
def start : State := .operand []

/-- The finished node and the nodes still waiting, after closing all nodes on top of the stack that
bind at least this strongly.  A parenthesis stays open. -/
def close (s : Strength) : List Frame → Expr → List Frame × Expr
  | .signed sign :: stack, e =>
    if s.rank ≤ Strength.signed.rank then close s stack (.signed sign e)
    else (.signed sign :: stack, e)
  | .left op l :: stack, e =>
    if s.rank ≤ op.strength.rank then close s stack (.binary op l e)
    else (.left op l :: stack, e)
  | stack, e => (stack, e)

/-- An operator follows a finished operand. -/
def follow (op : Operator) (stack : List Frame) (e : Expr) : State :=
  let closed := close op.leftStrength stack e
  .operand (.left op closed.2 :: closed.1)

/-- Read one token. -/
def step : State → Token → Except ArithmeticError State
  | .operand stack, .number x => .ok (.operator stack (.number x))
  | .operand stack, .openParen => .ok (.operand (.paren :: stack))
  | .operand stack, .plus => .ok (.operand (.signed .plus :: stack))
  | .operand stack, .minus => .ok (.operand (.signed .minus :: stack))
  | .operator stack e, .plus => .ok (follow .add stack e)
  | .operator stack e, .minus => .ok (follow .subtract stack e)
  | .operator stack e, .times => .ok (follow .multiply stack e)
  | .operator stack e, .divide => .ok (follow .divide stack e)
  | .operator stack e, .power => .ok (follow .power stack e)
  | .operator stack e, .closeParen =>
    match close .sum stack e with
    | (.paren :: rest, inner) => .ok (.operator rest (.paren inner))
    | _ => .error (.unexpectedToken .closeParen)
  | _, t => .error (.unexpectedToken t)

/-- The tokens come to an end. -/
def finish : State → Except ArithmeticError Expr
  | .operand _ => .error .unexpectedEnd
  | .operator stack e =>
    match close .sum stack e with
    | ([], whole) => .ok whole
    | _ => .error .unclosedParen

/-- Read tokens from a given state on. -/
def run (state : State) (ts : List Token) : Except ArithmeticError State := ts.foldlM step state

theorem run_nil (state : State) : run state [] = .ok state := rfl

theorem run_cons (state : State) (t : Token) (ts : List Token) :
    run state (t :: ts) = (step state t).bind fun next ↦ run next ts := rfl

/-- A text can be read in pieces. -/
theorem run_append (state : State) (a b : List Token) :
    run state (a ++ b) = (run state a).bind fun next ↦ run next b := by
  rw [run, List.foldlM_append]
  rfl

/-- A frame stack in which no node is left to close, because it is empty or a parenthesis is on
top. -/
theorem close_sum_stack (stack : List Frame) (e : Expr) :
    (close .sum stack e).1 = [] ∨ ∃ rest, (close .sum stack e).1 = .paren :: rest := by
  fun_induction close .sum stack e with
  | case1 _ _ _ _ ih => exact ih
  | case2 _ _ _ h => exact absurd (Nat.zero_le _) h
  | case3 _ _ _ _ _ ih => exact ih
  | case4 _ _ _ _ h => exact absurd (Nat.zero_le _) h
  | case5 stack _ h1 h2 =>
    rcases stack with _ | ⟨frame, rest⟩
    · exact Or.inl rfl
    · cases frame with
      | paren => exact Or.inr ⟨rest, rfl⟩
      | signed s => exact absurd rfl (h1 s rest)
      | left op l => exact absurd rfl (h2 op l rest)

end Calculator.Parser

namespace Calculator

/-- The expression that the tokens spell. -/
def parse (ts : List Token) : Except ArithmeticError Expr :=
  (Parser.run Parser.start ts).bind Parser.finish

/-- The value of an arithmetic expression.  It may be infinite or not a number. -/
def evaluateArithmetic (s : List Char) : Except ArithmeticError Float :=
  match tokenize s with
  | .error e => .error e
  | .ok [] => .error .empty
  | .ok ts => (parse ts).map Expr.value

end Calculator

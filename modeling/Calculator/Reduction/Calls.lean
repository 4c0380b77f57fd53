import Calculator.Expr.Parser
import Calculator.MathFunction
import Calculator.Reduction.Pattern

/-!
# Function calls

A call is a function's name, an opening parenthesis, an argument of one or more characters and a
closing parenthesis.  The argument ends at the *first* closing parenthesis, whatever was opened in
between, and it is read as a plain arithmetic expression: an argument may hold neither parentheses
that are closed again nor calls that have not been resolved yet.

Calls are resolved function by function, in the order of `MathFunction.all`, with one pass through
the text for each.  So a call can stand in another one's argument only if its function comes first.
A call becomes the exact text of its value.
-/

set_option autoImplicit false

namespace Calculator

/-- What can go wrong in an evaluation. -/
inductive EvalError where
  /-- The expression is not one of the arithmetic language. -/
  | arithmetic (cause : ArithmeticError)
  /-- A function's argument is not an arithmetic expression. -/
  | functionArgument (function : MathFunction) (argument : String) (cause : ArithmeticError)
  /-- A value is infinite or not a number. -/
  | notFinite
deriving DecidableEq

/-- The wording of an error. -/
def EvalError.message : EvalError → String
  | arithmetic cause => cause.message
  | functionArgument function argument cause =>
    function.name ++ "(" ++ argument ++ ") failed: " ++ cause.message
  | notFinite => "result is not a finite number"

/-- The exact text of a value that is finite. -/
def finiteText (x : Float) : Except EvalError (List Char) :=
  if x.isFinite then .ok (numberText x) else .error .notFinite

/-- An argument and what follows the parenthesis that ends it. -/
def splitArgument (cs : List Char) : Option (List Char × List Char) :=
  match cs.takeWhile (· != ')'), cs.dropWhile (· != ')') with
  | a :: as, _ :: rest => some (a :: as, rest)
  | _, _ => none

theorem length_splitArgument_lt {cs argument rest : List Char}
    (h : splitArgument cs = some (argument, rest)) : rest.length < cs.length := by
  unfold splitArgument at h
  split at h
  · rename_i a as _ rest' htake hdrop
    have hlen := congrArg List.length (List.takeWhile_append_dropWhile (p := (· != ')')) (l := cs))
    rw [List.length_append, hdrop] at hlen
    cases h
    simp only [List.length_cons] at hlen
    omega
  · cases h

/-- The text behind a start, if a text has that start. -/
def textAfter? (start cs : List Char) : Option (List Char) :=
  if start.isPrefixOf cs then some (cs.drop start.length) else none

theorem textAfter?_eq_some_iff {start cs rest : List Char} :
    textAfter? start cs = some rest ↔ cs = start ++ rest := by
  unfold textAfter?
  split
  · rename_i h
    obtain ⟨t, rfl⟩ := List.isPrefixOf_iff_prefix.mp h
    simp
  · rename_i h
    simp only [reduceCtorEq, false_iff]
    rintro rfl
    exact h (List.isPrefixOf_iff_prefix.mpr (List.prefix_append start rest))

/-- The argument of a call at the start of the text, and the text behind the call. -/
def MathFunction.call? (f : MathFunction) (cs : List Char) : Option (List Char × List Char) :=
  (textAfter? (f.name.toList ++ ['(']) cs).bind splitArgument

theorem length_textAfter?_le {start cs rest : List Char} (h : textAfter? start cs = some rest) :
    rest.length ≤ cs.length := by
  rw [textAfter?_eq_some_iff] at h
  simp [h]

/-- Calls of one function. -/
def MathFunction.calls (f : MathFunction) : Pattern (List Char) where
  match? := f.call?
  shorter {cs argument rest} h := by
    obtain ⟨after, h1, h2⟩ := Option.bind_eq_some_iff.mp h
    exact Nat.lt_of_lt_of_le (length_splitArgument_lt h2) (length_textAfter?_le h1)

/-- The text of a call's value. -/
def MathFunction.callText (f : MathFunction) (argument : List Char) :
    Except EvalError (List Char) :=
  match evaluateArithmetic argument with
  | .ok x => finiteText (f.apply x)
  | .error cause => .error (.functionArgument f (String.ofList argument) cause)

/-- Replace the calls of one function by their values. -/
def resolveCalls (cs : List Char) (f : MathFunction) : Except EvalError (List Char) :=
  f.calls.replaceAll f.callText cs

/-- Replace the calls of all functions, one function after the other. -/
def resolveFunctions (cs : List Char) : Except EvalError (List Char) :=
  MathFunction.all.foldlM resolveCalls cs

end Calculator

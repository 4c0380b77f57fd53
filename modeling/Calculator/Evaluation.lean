import Calculator.Reduction.Factorials
import Calculator.Reduction.Normalize

/-!
# Evaluating what was typed

An expression of the calculator is evaluated by turning it into one of the arithmetic language:
`normalize` replaces single characters, `resolveFunctions` replaces calls and `resolveFactorials`
replaces factorials, each by text.  What remains is parsed and computed.  The value has to be
finite.

`calculate` is the evaluation as a person meets it.  A blank line is no calculation at all; anything
else has an `Outcome`, which is either a success, with the value and its text, or a failure that is
shown as a marker.  The cause of a failure is not part of it.
-/

set_option autoImplicit false

namespace Calculator

/-- The expression in the arithmetic language. -/
def reduce (cs : List Char) : Except EvalError (List Char) :=
  (resolveFunctions (normalize cs)).bind resolveFactorials

/-- The value, if it is finite. -/
def finiteValue (x : Float) : Except EvalError Float :=
  if x.isFinite then .ok x else .error .notFinite

/-- The value of an expression. -/
def evaluate (cs : List Char) : Except EvalError Float :=
  (reduce cs).bind fun text ↦
    match evaluateArithmetic text with
    | .ok x => finiteValue x
    | .error cause => .error (.arithmetic cause)

/-- What came of a calculation. -/
inductive Outcome where
  | success (expression : String) (value : Float) (result : String)
  | failure (expression : String) (marker : String)
deriving DecidableEq

namespace Outcome

/-- The expression that was evaluated, as it was typed. -/
def expression : Outcome → String
  | success expression _ _ => expression
  | failure expression _ => expression

def isSuccess : Outcome → Bool
  | success _ _ _ => true
  | failure _ _ => false

/-- The number, if there is one. -/
def value? : Outcome → Option Float
  | success _ value _ => some value
  | failure _ _ => none

/-- The text of the number, if there is one. -/
def result? : Outcome → Option String
  | success _ _ result => some result
  | failure _ _ => none

/-- What is shown: the result with its thousands separated, or the marker as it is. -/
def display : Outcome → String
  | success _ _ result => Text.grouped result
  | failure _ marker => marker

end Outcome

/-- Evaluate a line, unless it is blank; a failure is shown as the marker. -/
def calculate (marker input : String) : Option Outcome :=
  if Text.allBlank input.toList then none
  else
    match evaluate input.toList with
    | .ok x => some (.success input x (String.ofList (resultText x)))
    | .error _ => some (.failure input marker)

/-- Only a blank line is no calculation. -/
theorem calculate_eq_none_iff {marker input : String} :
    calculate marker input = none ↔ Text.allBlank input.toList = true := by
  unfold calculate
  split
  · simp_all
  · split <;> simp_all

end Calculator

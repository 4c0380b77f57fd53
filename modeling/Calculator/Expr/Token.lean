import Calculator.Decimal.Writing

/-!
# Tokens

The words of the arithmetic language: numbers, five operators and the two parentheses.  A plus or a
minus is one token whether it adds or is a sign; which of the two it is depends on its place and is
for the parser to decide.

`ArithmeticError` lists what can be wrong with an arithmetic expression, from its characters up to
its shape.
-/

set_option autoImplicit false

namespace Calculator

/-- A token of the arithmetic language. -/
inductive Token where
  | number (value : Float)
  | plus
  | minus
  | times
  | divide
  | power
  | openParen
  | closeParen
deriving DecidableEq

namespace Token

/-- How a token is spelled. -/
def spelling : Token → List Char
  | number x => numberText x
  | plus => ['+']
  | minus => ['-']
  | times => ['*']
  | divide => ['/']
  | power => ['*', '*']
  | openParen => ['(']
  | closeParen => [')']

/-- The name of a token in a message. -/
def describe : Token → String
  | number x => "number " ++ String.ofList (numberText x)
  | t => "'" ++ String.ofList t.spelling ++ "'"

end Token

/-- What can be wrong with an arithmetic expression. -/
inductive ArithmeticError where
  /-- There is no token in it. -/
  | empty
  /-- No token starts with this character; the offset counts bytes of UTF-8. -/
  | unexpectedChar (found : Char) (offset : Nat)
  /-- A numeral lacks digits. -/
  | malformedNumber (text : String)
  /-- No expression goes on with this token after what precedes it. -/
  | unexpectedToken (found : Token)
  /-- The expression stops where an operand is needed. -/
  | unexpectedEnd
  /-- The expression stops inside a parenthesis. -/
  | unclosedParen
deriving DecidableEq

/-- The wording of an error. -/
def ArithmeticError.message : ArithmeticError → String
  | empty => "expression is empty"
  | unexpectedChar found offset =>
    "unexpected character '" ++ String.singleton found ++ "' at offset " ++ offset.repr
  | malformedNumber text => "malformed number '" ++ text ++ "'"
  | unexpectedToken found => "unexpected " ++ found.describe
  | unexpectedEnd => "unexpected end of expression"
  | unclosedParen => "missing closing parenthesis"

end Calculator

import Calculator.Expr.Token

/-!
# Arithmetic expressions

An expression tree keeps its parentheses and its signs, so that `Expr.tokens` gives back every
token it was made of.  Which trees are expressions at all is a matter of binding strength: each kind
of node has a `Strength`, and a node may only hold operands that bind strongly enough for their
place.  In order of growing strength,

* a *sum* adds or subtracts: a sum on its left, a product on its right;
* a *product* multiplies or divides: a product on its left, a signed operand on its right;
* a *signed* operand is a sign in front of a signed operand;
* a *power* has a primary for its base and a signed operand for its exponent, so that a sign in
  front of a power applies after it, an exponent may have a sign of its own, and powers group to
  the right;
* a *primary* is a number or any expression in parentheses.

`Expr.WellFormed` states these rules, and `Expr.value` computes with doubles.
-/

set_option autoImplicit false

namespace Calculator

/-- An operator between two operands. -/
inductive Operator where
  | add
  | subtract
  | multiply
  | divide
  | power
deriving DecidableEq

/-- A sign in front of an operand. -/
inductive Sign where
  | plus
  | minus
deriving DecidableEq

/-- An arithmetic expression. -/
inductive Expr where
  | number (value : Float)
  | paren (inner : Expr)
  | signed (sign : Sign) (operand : Expr)
  | binary (op : Operator) (left right : Expr)
deriving DecidableEq

/-! ## Tokens -/

/-- The token of an operator. -/
def Operator.token : Operator → Token
  | add => .plus
  | subtract => .minus
  | multiply => .times
  | divide => .divide
  | power => .power

/-- The token of a sign. -/
def Sign.token : Sign → Token
  | plus => .plus
  | minus => .minus

/-- The tokens of an expression, in order. -/
def Expr.tokens : Expr → List Token
  | number x => [.number x]
  | paren e => .openParen :: (e.tokens ++ [.closeParen])
  | signed s e => s.token :: e.tokens
  | binary op l r => l.tokens ++ op.token :: r.tokens

theorem Expr.tokens_ne_nil (e : Expr) : e.tokens ≠ [] := by
  cases e <;> simp [tokens]

/-! ## Binding strength -/

/-- How strongly a node holds its operands together. -/
inductive Strength where
  | sum
  | product
  | signed
  | power
  | primary
deriving DecidableEq

/-- The place of a strength in the order. -/
def Strength.rank : Strength → Nat
  | sum => 0
  | product => 1
  | signed => 2
  | power => 3
  | primary => 4

/-- The strength of a node with this operator. -/
def Operator.strength : Operator → Strength
  | add => .sum
  | subtract => .sum
  | multiply => .product
  | divide => .product
  | power => .power

/-- The least strength of an operator's left operand. -/
def Operator.leftStrength : Operator → Strength
  | add => .sum
  | subtract => .sum
  | multiply => .product
  | divide => .product
  | power => .primary

/-- The least strength of an operator's right operand. -/
def Operator.rightStrength : Operator → Strength
  | add => .product
  | subtract => .product
  | multiply => .signed
  | divide => .signed
  | power => .signed

namespace Expr

/-- The strength of an expression's outermost node. -/
def strength : Expr → Strength
  | number _ => .primary
  | paren _ => .primary
  | signed _ _ => .signed
  | binary op _ _ => op.strength

/-- An expression that binds at least this strongly. -/
def BindsAtLeast (e : Expr) (s : Strength) : Prop := s.rank ≤ e.strength.rank

instance (e : Expr) (s : Strength) : Decidable (e.BindsAtLeast s) :=
  inferInstanceAs (Decidable (_ ≤ _))

/-- Every operand binds strongly enough for its place. -/
def WellFormed : Expr → Prop
  | number _ => True
  | paren e => e.WellFormed
  | signed _ e => e.BindsAtLeast .signed ∧ e.WellFormed
  | binary op l r =>
    l.BindsAtLeast op.leftStrength ∧ l.WellFormed ∧ r.BindsAtLeast op.rightStrength ∧ r.WellFormed

theorem bindsAtLeast_sum (e : Expr) : e.BindsAtLeast .sum := Nat.zero_le _

end Expr

/-! ## Value -/

/-- What an operator computes. -/
def Operator.apply : Operator → Float → Float → Float
  | add, x, y => x + y
  | subtract, x, y => x - y
  | multiply, x, y => x * y
  | divide, x, y => x / y
  | power, x, y => Float.pow x y

/-- What a sign does. -/
def Sign.apply : Sign → Float → Float
  | plus, x => x
  | minus, x => -x

/-- The value of an expression, computed in doubles. -/
def Expr.value : Expr → Float
  | number x => x
  | paren e => e.value
  | signed s e => s.apply e.value
  | binary op l r => op.apply l.value r.value

end Calculator

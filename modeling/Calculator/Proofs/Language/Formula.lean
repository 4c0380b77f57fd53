import Calculator.Decimal.Numeral
import Calculator.Proofs.Decimal.Scanning
import Calculator.Proofs.Expr.Grammar
import Calculator.Proofs.Reduction.Forms

/-!
# The language people type

Formulas are derived by the grammar of arithmetic from more atoms than numbers:

```text
atom  := NUMBER | 'π' | DIGITS '!' | name '(' plain ')'
plain := expr without parentheses, calls and factorials
```

where `NUMBER` is a complete numeral, `DIGITS` is a run of ASCII digits and `name` is the name of a
function.  An atom that is a call may only be the base of a power if it stands in parentheses: the
call is replaced by the text of its value, and that may begin with a minus.

A formula has a value of its own, which knows nothing of text (`Formula.value`): a call is the
function applied to the value of the argument, and a factorial is a product.  What it looks like is
a relation, `Formula.Written`, because operators have several forms and blanks and separators can
stand anywhere, within a number or a name as well.
-/

set_option autoImplicit false

namespace Calculator

/-! ## Symbols -/

/-- The symbols a derivation is written with. -/
inductive Symbol (α : Type) where
  | atom (a : α)
  | sign (s : Sign)
  | operator (op : Operator)
  | openParen
  | closeParen

/-- The symbols of a derivation, in order. -/
def Derivation.symbols {α : Type} {n : Nonterminal} : Derivation α n → List (Symbol α)
  | expr first rest => first.symbols ++ rest.symbols
  | noTerms => []
  | moreTerms before op _ last => before.symbols ++ .operator op :: last.symbols
  | term first rest => first.symbols ++ rest.symbols
  | noFactors => []
  | moreFactors before op _ last => before.symbols ++ .operator op :: last.symbols
  | signed sign operand => .sign sign :: operand.symbols
  | unsigned operand => operand.symbols
  | bare operand => operand.symbols
  | raised base exponent => base.symbols ++ .operator .power :: exponent.symbols
  | atom a => [.atom a]
  | paren inner => .openParen :: (inner.symbols ++ [.closeParen])

namespace Symbol

variable {α : Type}

/-- What a symbol may look like, given what atoms may look like. -/
def Written (atomWritten : α → List Char → Prop) : Symbol α → List Char → Prop
  | atom a, s => atomWritten a s
  | sign mark, s => s = mark.token.spelling
  | operator op, s => s ∈ op.forms
  | openParen, s => s = ['(']
  | closeParen, s => s = [')']

/-- What symbols may look like, one behind the other. -/
inductive Yield (atomWritten : α → List Char → Prop) : List (Symbol α) → List Char → Prop where
  | nil : Yield atomWritten [] []
  | cons {x : Symbol α} {xs : List (Symbol α)} {a b : List Char} (hx : x.Written atomWritten a)
      (hxs : Yield atomWritten xs b) : Yield atomWritten (x :: xs) (a ++ b)

/-- A parenthesis of the grammar, which belongs to no call. -/
def isParen : Symbol α → Bool
  | openParen => true
  | closeParen => true
  | _ => false

/-- The symbol has the property if it is an atom. -/
def allAtoms (p : α → Bool) : Symbol α → Bool
  | atom a => p a
  | _ => true

end Symbol

/-! ## Arguments -/

/-- A numeral with digits wherever it needs some. -/
structure Literal where
  numeral : Numeral
  wellFormed : numeral.WellFormed
  complete : numeral.isComplete = true

/-- A number, as a literal or by its name. -/
inductive PlainAtom where
  | literal (n : Literal)
  | pi

namespace PlainAtom

def value : PlainAtom → Float
  | literal n => n.numeral.value
  | pi => Calculator.pi

def text : PlainAtom → List Char
  | literal n => n.numeral.text
  | pi => ['π']

end PlainAtom

/-- The argument of a call: an expression without parentheses. -/
structure Plain where
  derivation : Derivation PlainAtom .expr
  noParens : ∀ x ∈ derivation.symbols, x.isParen = false

namespace Plain

def value (p : Plain) : Float := p.derivation.value PlainAtom.value

/-- What an argument looks like, without blanks and separators. -/
def Written (p : Plain) (s : List Char) : Prop :=
  Symbol.Yield (fun a t ↦ t = a.text) p.derivation.symbols s

end Plain

/-! ## Formulas -/

/-- A run of ASCII digits. -/
structure Digits where
  chars : List Char
  nonempty : chars ≠ []
  ascii : ∀ c ∈ chars, c.isDigit = true

/-- The number that digits denote. -/
def Digits.number (ds : Digits) : Nat := Nat.ofDigitChars 10 ds.chars 0

/-- An atom of a formula. -/
inductive Atom where
  | plain (a : PlainAtom)
  | factorial (ds : Digits)
  | call (f : MathFunction) (argument : Plain)

namespace Atom

def value : Atom → Float
  | plain a => a.value
  | factorial ds => Calculator.factorial ds.number
  | call f argument => f.apply argument.value

/-- What an atom looks like, without blanks and separators. -/
def Written : Atom → List Char → Prop
  | plain a, s => s = a.text
  | factorial ds, s => s = ds.chars ++ ['!']
  | call f argument, s => ∃ t, argument.Written t ∧ s = f.opening ++ (t ++ [')'])

/-- Factorials and calls have to be finite, numbers need not be. -/
def isDefined : Atom → Bool
  | plain _ => true
  | a => a.value.isFinite

def isCall : Atom → Bool
  | call _ _ => true
  | _ => false

end Atom

/-- What people type: an expression whose calls are wrapped when they are bases of powers. -/
structure Formula where
  derivation : Derivation Atom .expr
  wrapped : derivation.BasesSatisfy fun a ↦ a.isCall = false

namespace Formula

/-- The value of the formula itself. -/
def value (φ : Formula) : Float := φ.derivation.value Atom.value

/-- The values of all calls and factorials are finite. -/
def isDefined (φ : Formula) : Bool := φ.derivation.symbols.all (Symbol.allAtoms Atom.isDefined)

/-- The text looks like the formula, apart from blanks and separators. -/
def Written (φ : Formula) (s : List Char) : Prop :=
  Symbol.Yield Atom.Written φ.derivation.symbols (s.filter fun c ↦ !isIgnored c)

end Formula

end Calculator

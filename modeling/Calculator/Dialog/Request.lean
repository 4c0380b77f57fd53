import Calculator.Text.Blank

/-!
# What a line asks for

In a dialog a line that begins with a colon is a command, and any other line is an expression to be
evaluated.  Blanks around a line do not count, and a blank line asks for nothing.

A command is named by its first word; some have a second name that is shorter.  Only `load` looks at
a second word, the index of an entry, and further words never matter.  A command without a name is
unknown, by the empty name.
-/

set_option autoImplicit false

namespace Calculator

/-- What a line of a dialog asks for. -/
inductive Request where
  | nothing
  | evaluate (expression : String)
  | history
  /-- Go back to the entry with this index, if the line gives one. -/
  | load (index : Option Nat)
  | clearHistory
  | theme
  | clear
  | help
  | quit
  | unknown (name : String)
deriving DecidableEq, Repr

namespace Request

/-- The index that a word gives: ASCII digits, which a plus sign may precede. -/
def index? (word : List Char) : Option Nat :=
  let digits := match word with
    | '+' :: cs => cs
    | cs => cs
  if digits ≠ [] ∧ digits.all Char.isDigit then some (Nat.ofDigitChars 10 digits 0) else none

/-- The request of a command, given what follows the colon. -/
def ofCommand (cs : List Char) : Request :=
  let (word, rest) := Text.splitWord cs
  match String.ofList word with
  | "history" | "h" => history
  | "load" => load (index? (Text.splitWord rest).1)
  | "clear-history" => clearHistory
  | "theme" => theme
  | "clear" | "c" => clear
  | "help" | "?" => help
  | "q" | "quit" | "exit" => quit
  | name => unknown name

/-- The request of a line. -/
def ofLine (line : String) : Request :=
  match Text.trim line.toList with
  | [] => nothing
  | ':' :: cs => ofCommand cs
  | cs => evaluate (String.ofList cs)

end Request

end Calculator

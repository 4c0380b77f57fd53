/-!
# Blanks, comments and line ends in TOML

A TOML document is a sequence of lines.  A line ends with a line feed, which a carriage return may
stand in front of; a carriage return anywhere else is an error.  Blanks are spaces and tabs.  A
comment reaches from a number sign to the end of its line and holds no control character but the
tab.
-/

set_option autoImplicit false

namespace Calculator.Toml

/-- Spaces and tabs. -/
def isSpace (c : Char) : Bool := c == ' ' || c == '\t'

/-- Control characters, the tab apart. -/
def isControl (c : Char) : Bool := (c.toNat < 0x20 && c != '\t') || c.toNat == 0x7F

/-- Drop spaces and tabs. -/
def skipSpaces (cs : List Char) : List Char := cs.dropWhile isSpace

/-- The text behind a line end. -/
def lineEnd? : List Char → Option (List Char)
  | '\n' :: rest => some rest
  | '\r' :: '\n' :: rest => some rest
  | _ => none

/-- Drop a comment, if there is one. -/
def skipComment : List Char → List Char
  | '#' :: rest => rest.dropWhile fun c ↦ !isControl c
  | cs => cs

/-- The text behind what may stand at the end of a line: blanks, a comment and the line end or the
end of the document. -/
def endLine? (cs : List Char) : Option (List Char) :=
  match skipComment (skipSpaces cs) with
  | [] => some []
  | rest => lineEnd? rest

/-- Drop blanks, comments and line ends; the first argument bounds the number of lines. -/
def skipLines : Nat → List Char → List Char
  | 0, cs => cs
  | n + 1, cs =>
    let rest := skipComment (skipSpaces cs)
    match lineEnd? rest with
    | some next => skipLines n next
    | none => rest

/-- Drop all blanks, comments and line ends. -/
def skipBlank (cs : List Char) : List Char := skipLines (cs.length + 1) cs

end Calculator.Toml

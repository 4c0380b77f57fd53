import Calculator.Theme

/-!
# Colours

A palette paints text for a terminal.  Every text has a `Role`, and the theme gives each role its
graphic rendition codes.  Painted text is the opening sequence, the text and the reset sequence.  A
reset inside the text would end the painting early, so the opening is repeated after it.

A palette without colour leaves every text as it is.
-/

set_option autoImplicit false

namespace Calculator

/-- What a text is on the screen. -/
inductive Role where
  | result
  | expression
  | error
  | muted
  | prompt
deriving DecidableEq, Repr

/-- The graphic rendition codes of a role. -/
def Role.codes : Role → Theme → String
  | result, .dark => "1;97"
  | result, .light => "1;30"
  | expression, .dark => "94"
  | expression, .light => "34"
  | error, .dark => "91"
  | error, .light => "31"
  | muted, _ => "2"
  | prompt, .dark => "93"
  | prompt, .light => "35"

/-- How text is painted. -/
structure Palette where
  theme : Theme
  color : Bool
deriving DecidableEq, Repr

/-- The sequence that ends all painting. -/
def resetSequence : List Char := ['\x1b', '[', '0', 'm']

/-- Repeat the opening sequence after every reset. -/
def reopen (opening : List Char) : List Char → List Char
  | '\x1b' :: '[' :: '0' :: 'm' :: cs => resetSequence ++ opening ++ reopen opening cs
  | c :: cs => c :: reopen opening cs
  | [] => []

namespace Palette

/-- The sequence that starts the painting of a role. -/
def opening (p : Palette) (role : Role) : List Char :=
  '\x1b' :: '[' :: (role.codes p.theme).toList ++ ['m']

/-- Paint a text. -/
def paint (p : Palette) (role : Role) (text : String) : String :=
  if p.color then
    let opening := p.opening role
    String.ofList (opening ++ reopen opening text.toList ++ resetSequence)
  else
    text

/-- Without colour, nothing is painted. -/
theorem paint_plain {p : Palette} (h : p.color = false) (role : Role) (text : String) :
    p.paint role text = text := by
  simp [paint, h]

/-- What is shown in front of a line to be typed. -/
def promptText (p : Palette) : String := p.paint .prompt "> "

end Palette

end Calculator

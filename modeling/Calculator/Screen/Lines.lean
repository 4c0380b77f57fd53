import Calculator.Screen.Palette
import Calculator.Session

/-!
# Lines on the screen

A session shows its result on one line and its history on several.  The result is shown behind an
equals sign, in the style of an error if it is the error marker, and there is no line while there is
no result.  Each entry of the history is one line: its index, its expression and its result with
their thousands separated, and its timestamp.  An empty history is shown as a label.
-/

set_option autoImplicit false

namespace Calculator

/-- The line that shows the result. -/
def Session.resultLine {σ : Type} [StateStore σ] (s : Session σ) (p : Palette) : Option String :=
  if s.result = "" then none
  else some (p.paint (if s.showsError then .error else .result) ("= " ++ s.displayResult))

namespace Palette

variable (p : Palette)

/-- The line of the entry with the given index. -/
def entryLine (index : Nat) (e : Entry) : String :=
  p.paint .muted ("[" ++ index.repr ++ "]") ++ " "
    ++ p.paint .expression (Text.grouped e.expression) ++ " "
    ++ p.paint .result ("= " ++ Text.grouped e.result) ++ "  "
    ++ p.paint .muted e.timestamp

/-- The lines of a history, newest entry first, or the label of an empty one. -/
def historyLines (emptyLabel : String) (h : History) : List String :=
  if h.isEmpty then [p.paint .muted emptyLabel]
  else h.entries.mapIdx p.entryLine

end Palette

end Calculator

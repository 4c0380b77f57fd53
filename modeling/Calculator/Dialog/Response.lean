import Calculator.Dialog.Request
import Calculator.Screen.Lines

/-!
# The answer to a request

A session answers a request with some lines of text, and changes as the request asks.  The lines
show the session after the change: in particular they are painted for the theme that is then in use.
-/

set_option autoImplicit false

namespace Calculator

/-- The explanation of the commands. -/
def commandHelp : List String :=
  ["Enter an expression to calculate it. Commands:",
    "  :history         show history (newest first)",
    "  :load N          load history entry N",
    "  :clear-history   delete all history",
    "  :theme           switch between dark and light",
    "  :clear           clear input and result",
    "  :quit            exit"]

namespace Session

variable {σ : Type} [StateStore σ]

/-- The palette for the theme in use. -/
def palette (s : Session σ) (color : Bool) : Palette := ⟨s.theme, color⟩

/-- Evaluate an expression and show the result, if there is something to show. -/
def respondToExpression (s : Session σ) (color : Bool) (now : Moment) (expression : String) :
    List String × Session σ :=
  let s := ((s.setInput expression).calculate now).2
  ((s.resultLine (s.palette color)).toList, s)

/-- Go back to an entry and show it. -/
def respondToLoad (s : Session σ) (color : Bool) (index : Option Nat) : List String × Session σ :=
  let p := s.palette color
  match index.map s.revisit with
  | some (some _, s) =>
    (p.paint .expression s.displayInput :: (s.resultLine p).toList, s)
  | _ => ([p.paint .error "no such history entry"], s)

/-- The lines that answer a request, and the session after it. -/
def respond (s : Session σ) (color : Bool) (now : Moment) : Request → List String × Session σ
  | .nothing | .quit => ([], s)
  | .evaluate expression => s.respondToExpression color now expression
  | .history => ((s.palette color).historyLines s.config.emptyHistory s.history, s)
  | .load index => s.respondToLoad color index
  | .clearHistory => ([(s.palette color).paint .muted s.config.emptyHistory], s.clearHistory)
  | .theme =>
    let s := s.toggleTheme
    ([(s.palette color).paint .muted ("theme: " ++ s.theme.name)], s)
  | .clear => ([], s.clearInput)
  | .help => (commandHelp, s)
  | .unknown name =>
    ([(s.palette color).paint .error ("unknown command ':" ++ name ++ "'")], s)

end Session

end Calculator

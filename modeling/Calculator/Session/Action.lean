import Calculator.Session

/-!
# Actions

An action is one thing that is done with a session, and its answer is what the one who does it is
told. The use of a session from its start on is thus a list of actions, and `performAll` is the
session that it leads to.
-/

set_option autoImplicit false

namespace Calculator

/-- One thing that is done with a session. -/
inductive Action where
  | append (text : String)
  | setInput (text : String)
  | clearInput
  | backspace
  | calculate (now : Moment)
  | toggleHistory
  | revisit (index : Nat)
  | clearHistory
  | toggleTheme
deriving DecidableEq, Repr

/-- What comes of an action. -/
inductive Answer where
  | done
  | outcome (outcome : Option Outcome)
  | entry (entry : Option Entry)
  | theme (theme : Theme)
deriving DecidableEq

namespace Session

variable {σ : Type} [StateStore σ]

/-- Do one thing. -/
def perform (s : Session σ) : Action → Answer × Session σ
  | .append text => (.done, s.append text)
  | .setInput text => (.done, s.setInput text)
  | .clearInput => (.done, s.clearInput)
  | .backspace => (.done, s.backspace)
  | .calculate now =>
    let (outcome, s) := s.calculate now
    (.outcome outcome, s)
  | .toggleHistory => (.done, s.toggleHistory)
  | .revisit index =>
    let (entry, s) := s.revisit index
    (.entry entry, s)
  | .clearHistory => (.done, s.clearHistory)
  | .toggleTheme => (.theme s.toggleTheme.theme, s.toggleTheme)

/-- Do several things, one after the other. -/
def performAll (s : Session σ) (actions : List Action) : Session σ :=
  actions.foldl (fun s a ↦ (s.perform a).2) s

theorem performAll_cons (s : Session σ) (a : Action) (as : List Action) :
    s.performAll (a :: as) = (s.perform a).2.performAll as :=
  rfl

end Session

end Calculator

import Calculator.Config
import Calculator.History.Basic
import Calculator.Theme

/-!
# Sessions

A session is the state of a calculator while it is in use: the line being typed, the last result,
the history, the theme and whether the history is shown.  Each operation is one thing its user can
do.

The history and the theme are restored from a store when a session opens, and saved whenever they
change.  Saving may fail; a session goes on regardless, and what it shows does not depend on it.

A failed calculation makes the error marker the result.  A result is shown with its thousands
separated, but one that is the marker is shown as it is.
-/

set_option autoImplicit false

namespace Calculator

/-- A calculator in use. -/
structure Session (σ : Type) where
  store : σ
  config : Config
  input : String
  result : String
  history : History
  theme : Theme
  historyVisible : Bool

namespace Session

variable {σ : Type} [StateStore σ]

/-- Start with the history and the theme that are stored. -/
def start (store : σ) (config : Config) : Session σ where
  store
  config
  input := ""
  result := ""
  history := History.ofStored (StateStore.load store historyKey)
  theme := Theme.ofStored (StateStore.load store themeKey)
  historyVisible := false

/-! ## What is shown -/

/-- The line being typed, with its thousands separated. -/
def displayInput (s : Session σ) : String := Text.grouped s.input

/-- The result is the error marker. -/
def showsError (s : Session σ) : Bool := s.result == s.config.errorMarker

/-- The result as it is shown. -/
def displayResult (s : Session σ) : String :=
  if s.showsError then s.result else Text.grouped s.result

/-! ## Typing -/

/-- Add to the line. -/
def append (s : Session σ) (text : String) : Session σ := { s with input := s.input ++ text }

/-- Replace the line. -/
def setInput (s : Session σ) (text : String) : Session σ := { s with input := text }

/-- Clear the line and the result. -/
def clearInput (s : Session σ) : Session σ := { s with input := "", result := "" }

/-- Take the last character of the line away. -/
def backspace (s : Session σ) : Session σ :=
  { s with input := String.ofList s.input.toList.dropLast }

/-! ## Calculating -/

/-- Save the history; if that fails, it is not saved. -/
def saveHistory (s : Session σ) : Session σ :=
  { s with store := (StateStore.save s.store historyKey s.history.json).2 }

/-- Record a result at a moment. -/
def record (s : Session σ) (now : Moment) (result : String) : Session σ :=
  saveHistory
    { s with
      result
      history := s.history.push ⟨s.input, result, stamp s.config.timestampLayout now⟩ }

/-- Evaluate the line.  A success becomes the result and is recorded, a failure only shows the
marker, and nothing comes of a blank line. -/
def calculate (s : Session σ) (now : Moment) : Option Outcome × Session σ :=
  match Calculator.calculate s.config.errorMarker s.input with
  | none => (none, s)
  | some (.success expression value result) =>
    (some (.success expression value result), s.record now result)
  | some (.failure expression marker) =>
    (some (.failure expression marker), { s with result := marker })

/-! ## The history -/

/-- Show the history, or hide it. -/
def toggleHistory (s : Session σ) : Session σ := { s with historyVisible := !s.historyVisible }

/-- Go back to an entry of the history, which is hidden then. -/
def revisit (s : Session σ) (index : Nat) : Option Entry × Session σ :=
  match s.history.get? index with
  | none => (none, s)
  | some e =>
    (some e, { s with input := e.expression, result := e.result, historyVisible := false })

omit [StateStore σ] in
theorem revisit_of_get? {s : Session σ} {index : Nat} {e : Entry}
    (h : s.history.get? index = some e) :
    s.revisit index = (some e,
      { s with input := e.expression, result := e.result, historyVisible := false }) := by
  rw [revisit, h]

omit [StateStore σ] in
theorem revisit_of_none {s : Session σ} {index : Nat} (h : s.history.get? index = none) :
    s.revisit index = (none, s) := by
  rw [revisit, h]

/-- Forget the history. -/
def clearHistory (s : Session σ) : Session σ :=
  { s with history := History.empty, store := (StateStore.remove s.store historyKey).2 }

/-! ## The theme -/

/-- Switch to the other theme. -/
def toggleTheme (s : Session σ) : Session σ :=
  { s with
    theme := s.theme.toggled
    store := (StateStore.save s.store themeKey s.theme.toggled.name).2 }

end Session

end Calculator

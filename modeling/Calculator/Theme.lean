import Calculator.Text.Blank

/-!
# Themes

A theme is a preference for dark or light backgrounds.  It is stored by name; a name that is stored
may be missing or wrong, and then the dark theme is used.
-/

set_option autoImplicit false

namespace Calculator

/-- A preference for dark or light backgrounds. -/
inductive Theme where
  | dark
  | light
deriving DecidableEq, Repr

/-- A name that belongs to no theme. -/
structure UnknownTheme where
  name : String
deriving DecidableEq

/-- The wording of the error. -/
def UnknownTheme.message (e : UnknownTheme) : String := "unknown theme '" ++ e.name ++ "'"

namespace Theme

/-- The name a theme is stored by. -/
def name : Theme → String
  | dark => "dark"
  | light => "light"

/-- The other theme. -/
def toggled : Theme → Theme
  | dark => light
  | light => dark

def isDark : Theme → Bool
  | dark => true
  | light => false

/-- The theme of a name, which blanks may surround. -/
def parse (s : String) : Except UnknownTheme Theme :=
  let trimmed := String.ofList (Text.trim s.toList)
  if trimmed = dark.name then .ok dark
  else if trimmed = light.name then .ok light
  else .error ⟨trimmed⟩

/-- The theme that a stored name stands for. -/
def ofStored (stored : Option String) : Theme :=
  match stored.map parse with
  | some (.ok t) => t
  | _ => dark

theorem ofStored_name (t : Theme) : ofStored (some t.name) = t := by
  cases t <;> decide

end Theme

end Calculator

/-!
# Thousands separators

Numbers are shown with a comma between groups of three integer digits, and commas that are typed
are thrown away before anything is computed.  `strip` and `applyGrouping` are these two directions.

Where a separator belongs is a question about one place between two characters, so `applyGrouping`
decides it place by place: after a digit, in a run of digits that does not directly follow a point,
when the number of digits still to come in the run is a positive multiple of three.  A run of fewer
than four digits has no such place, and a fraction is never grouped.
-/

set_option autoImplicit false

namespace Calculator.Text

/-- The thousands separator. -/
def separator : Char := ','

/-- Drop every separator. -/
def strip (cs : List Char) : List Char := cs.filter (· != separator)

theorem separator_notMem_strip (cs : List Char) : separator ∉ strip cs := by
  simp [strip]

theorem strip_eq_self {cs : List Char} (h : separator ∉ cs) : strip cs = cs := by
  rw [strip, List.filter_eq_self]
  intro c hc
  simpa using fun hs : c = separator ↦ h (hs ▸ hc)

/-- A separator belongs in front of a text that starts with a positive multiple of three digits. -/
def startsGroup (cs : List Char) : Bool :=
  let n := (cs.takeWhile Char.isDigit).length
  n != 0 && n % 3 == 0

/-- Put a separator in front of every group.  The flag says that the digits next in line belong to
a fraction: it is raised by a point and falls with the first character that is not a digit. -/
def insertSeparators (inFraction : Bool) : List Char → List Char
  | [] => []
  | c :: cs =>
    if c.isDigit then
      if !inFraction && startsGroup cs then
        c :: separator :: insertSeparators inFraction cs
      else
        c :: insertSeparators inFraction cs
    else
      c :: insertSeparators (c == '.') cs

/-- Separate the thousands in every number of the text, whatever separators it came with. -/
def applyGrouping (cs : List Char) : List Char := insertSeparators false (strip cs)

/-- Separating only adds separators. -/
theorem strip_insertSeparators (inFraction : Bool) (cs : List Char) :
    strip (insertSeparators inFraction cs) = strip cs := by
  fun_induction insertSeparators inFraction cs with
  | case1 => rfl
  | case2 _ c cs _ _ ih => simp_all [strip, List.filter_cons]
  | case3 _ c cs _ _ ih => simp_all [strip, List.filter_cons]
  | case4 _ c cs _ ih => simp_all [strip, List.filter_cons]

theorem strip_applyGrouping (cs : List Char) : strip (applyGrouping cs) = strip cs := by
  rw [applyGrouping, strip_insertSeparators, strip_eq_self (separator_notMem_strip cs)]

/-- Only the characters other than separators matter to the grouped text. -/
theorem applyGrouping_idem (cs : List Char) :
    applyGrouping (applyGrouping cs) = applyGrouping cs := by
  rw [applyGrouping, strip_applyGrouping, ← applyGrouping]

/-! ## On strings -/

/-- The text as it is shown, with its thousands separated. -/
def grouped (s : String) : String := String.ofList (applyGrouping s.toList)

/-- The text without its separators. -/
def ungrouped (s : String) : String := String.ofList (strip s.toList)

end Calculator.Text

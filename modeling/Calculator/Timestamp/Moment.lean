/-!
# Moments

A moment is a date and a time of day as a clock on the wall shows them, together with the clock's
offset from universal time.  Dates are those of the Gregorian calendar.  What else a timestamp can
show follows from them: the day of the week, the number of a day or a week within its year, and the
seconds that have passed since the beginning of 1970.

The week of a date is counted in three ways.  Weeks can start with their Sunday or their Monday,
and then the days before the first one are in week zero.  A week of the international standard
starts with its Monday and belongs to the year that its Thursday is in.
-/

set_option autoImplicit false

namespace Calculator

/-- A date, a time of day and an offset from universal time in seconds. -/
structure Moment where
  year : Nat
  month : Nat
  day : Nat
  hour : Nat
  minute : Nat
  second : Nat
  nanosecond : Nat
  offset : Int
deriving DecidableEq, Repr

namespace Moment

/-! ## The calendar -/

def isLeapYear (year : Nat) : Bool := year % 4 == 0 && (year % 100 != 0 || year % 400 == 0)

/-- The lengths of the months. -/
def monthLengths (year : Nat) : List Nat :=
  [31, if isLeapYear year then 29 else 28, 31, 30, 31, 30, 31, 31, 30, 31, 30, 31]

def yearLength (year : Nat) : Nat := if isLeapYear year then 366 else 365

/-- The number of the day within its year, from one. -/
def ordinal (m : Moment) : Nat :=
  ((monthLengths m.year).take (m.month - 1)).foldr (· + ·) m.day

/-- The days before the first of January of a year, counted from that of year zero. -/
def daysBefore (year : Nat) : Nat :=
  365 * year + (year + 3) / 4 - (year + 99) / 100 + (year + 399) / 400

/-- The days between the beginning of 1970 and the date. -/
def dayNumber (m : Moment) : Int := (daysBefore m.year + m.ordinal - 1 : Int) - daysBefore 1970

/-- The day of the week, counted from Sunday as zero. -/
def weekday (m : Moment) : Nat := ((m.dayNumber + 4) % 7).toNat

/-- The day of the week, counted from Monday as one. -/
def weekdayFromMonday (m : Moment) : Nat := if m.weekday = 0 then 7 else m.weekday

/-! ## Weeks -/

/-- The number of the week, if weeks start with their Sunday. -/
def weekFromSunday (m : Moment) : Nat := (m.ordinal + 6 - m.weekday) / 7

/-- The number of the week, if weeks start with their Monday. -/
def weekFromMonday (m : Moment) : Nat := (m.ordinal + 7 - m.weekdayFromMonday) / 7

/-- The year and the number of the standard's week: those of the week's Thursday. -/
def isoWeek (m : Moment) : Nat × Nat :=
  let thursday : Int := m.ordinal + 4 - m.weekdayFromMonday
  if thursday < 1 then
    let before := thursday + yearLength (m.year - 1)
    (m.year - 1, (before.toNat + 6) / 7)
  else if yearLength m.year < thursday then
    (m.year + 1, 1)
  else
    (m.year, (thursday.toNat + 6) / 7)

/-! ## The time of day -/

/-- The hour on a twelve-hour clock. -/
def hour12 (m : Moment) : Nat := if m.hour % 12 = 0 then 12 else m.hour % 12

def isAfternoon (m : Moment) : Bool := 12 ≤ m.hour

/-- The seconds since the beginning of 1970 in universal time. -/
def timestamp (m : Moment) : Int :=
  m.dayNumber * 86400 + (m.hour * 3600 + m.minute * 60 + m.second : Nat) - m.offset

end Moment

end Calculator

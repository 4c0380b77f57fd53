import Calculator.Timestamp.Moment

/-!
# Layouts of timestamps

A layout is a text in which a percent sign and what follows it stand for part of a moment.  Reading
a layout gives a list of items, or nothing if it holds a specifier that does not exist; writing a
moment writes its items one after the other.  A timestamp whose layout cannot be read is written in
the default layout.

A specifier takes up to five characters: a percent sign, perhaps a padding sign, and a letter, or
else colons, a point or a number of digits in front of the letter.  `scanLayout` therefore goes
through the text one character at a time and remembers how far into a specifier it is.  A padding
sign belongs only in front of a single number.
-/

set_option autoImplicit false

namespace Calculator

/-! ## Items -/

/-- What fills up a number that is too short. -/
inductive Padding where
  | zero
  | space
  | nothing
deriving DecidableEq, Repr

/-- The parts of a moment that are numbers. -/
inductive NumberField where
  | year
  | century
  | yearOfCentury
  | isoYear
  | isoYearOfCentury
  | quarter
  | month
  | day
  | weekFromSunday
  | weekFromMonday
  | isoWeek
  | weekdayFromSunday
  | weekdayFromMonday
  | ordinal
  | hour
  | hour12
  | minute
  | second
  | nanosecond
  | timestamp
deriving DecidableEq, Repr

/-- How precisely an offset from universal time is written. -/
inductive OffsetForm where
  | minutes
  | minutesWithColon
  | secondsWithColons
  | hours
deriving DecidableEq, Repr

/-- A part of a layout. -/
inductive LayoutItem where
  | literal (c : Char)
  | number (field : NumberField) (padding : Padding)
  | monthName (long : Bool)
  | weekdayName (long : Bool)
  | halfOfDay (upper : Bool)
  /-- The fraction of the second, with the given number of digits. -/
  | fraction (digits : Nat) (point : Bool)
  /-- A point and the fraction of the second, with as few groups of three digits as it needs. -/
  | shortFraction
  | offset (form : OffsetForm)
deriving DecidableEq, Repr

/-! ## Reading a layout -/

/-- The number that a letter stands for, and how it is padded. -/
def numberItem? : Char → Option (NumberField × Padding)
  | 'Y' => some (.year, .zero)
  | 'C' => some (.century, .zero)
  | 'y' => some (.yearOfCentury, .zero)
  | 'G' => some (.isoYear, .zero)
  | 'g' => some (.isoYearOfCentury, .zero)
  | 'q' => some (.quarter, .nothing)
  | 'm' => some (.month, .zero)
  | 'd' => some (.day, .zero)
  | 'e' => some (.day, .space)
  | 'U' => some (.weekFromSunday, .zero)
  | 'W' => some (.weekFromMonday, .zero)
  | 'V' => some (.isoWeek, .zero)
  | 'w' => some (.weekdayFromSunday, .nothing)
  | 'u' => some (.weekdayFromMonday, .nothing)
  | 'j' => some (.ordinal, .zero)
  | 'H' => some (.hour, .zero)
  | 'k' => some (.hour, .space)
  | 'I' => some (.hour12, .zero)
  | 'l' => some (.hour12, .space)
  | 'M' => some (.minute, .zero)
  | 'S' => some (.second, .zero)
  | 'f' => some (.nanosecond, .zero)
  | 's' => some (.timestamp, .nothing)
  | _ => none

/-- The month, the day and the year of the century, with slashes between. -/
def slashDate : List LayoutItem :=
  [.number .month .zero, .literal '/', .number .day .zero, .literal '/',
    .number .yearOfCentury .zero]

/-- The year, the month and the day, with hyphens between. -/
def hyphenDate : List LayoutItem :=
  [.number .year .zero, .literal '-', .number .month .zero, .literal '-', .number .day .zero]

/-- Hour and minute. -/
def shortTime : List LayoutItem :=
  [.number .hour .zero, .literal ':', .number .minute .zero]

/-- Hour, minute and second. -/
def longTime : List LayoutItem := shortTime ++ [.literal ':', .number .second .zero]

/-- The items that a letter stands for. -/
def letterItems? (c : Char) : Option (List LayoutItem) :=
  match numberItem? c with
  | some (field, padding) => some [.number field padding]
  | none =>
    match c with
    | 'a' => some [.weekdayName false]
    | 'A' => some [.weekdayName true]
    | 'b' => some [.monthName false]
    | 'h' => some [.monthName false]
    | 'B' => some [.monthName true]
    | 'p' => some [.halfOfDay true]
    | 'P' => some [.halfOfDay false]
    | 'D' => some slashDate
    | 'x' => some slashDate
    | 'F' => some hyphenDate
    | 'v' => some [.number .day .space, .literal '-', .monthName false, .literal '-',
        .number .year .zero]
    | 'R' => some shortTime
    | 'T' => some longTime
    | 'X' => some longTime
    | 'r' => some [.number .hour12 .zero, .literal ':', .number .minute .zero, .literal ':',
        .number .second .zero, .literal ' ', .halfOfDay true]
    | 'c' => some ([.weekdayName false, .literal ' ', .monthName false, .literal ' ',
        .number .day .space, .literal ' '] ++ longTime ++ [.literal ' ', .number .year .zero])
    | '+' => some (hyphenDate ++ .literal 'T' :: longTime
        ++ [.shortFraction, .offset .minutesWithColon])
    | 'z' => some [.offset .minutes]
    | 'Z' => some [.offset .minutesWithColon]
    | 'n' => some [.literal '\n']
    | 't' => some [.literal '\t']
    | '%' => some [.literal '%']
    | _ => none

/-- How far into a specifier the text is. -/
inductive LayoutState where
  | text
  | percent
  | padded (padding : Padding)
  | colons (count : Nat)
  | point
  | pointDigits (digits : Nat)
  | digits (digits : Nat)
deriving DecidableEq, Repr

/-- What a digit says about a fraction. -/
def fractionDigits? : Char → Option Nat
  | '3' => some 3
  | '6' => some 6
  | '9' => some 9
  | _ => none

/-- The form of an offset with this many colons in its specifier. -/
def colonForm? : Nat → Option OffsetForm
  | 1 => some .minutesWithColon
  | 2 => some .secondsWithColons
  | 3 => some .hours
  | _ => none

/-- Read one character: the items that it completes, and how far the text is then. -/
def layoutStep : LayoutState → Char → Option (List LayoutItem × LayoutState)
  | .text, c => some (if c = '%' then ([], .percent) else ([.literal c], .text))
  | .percent, '-' => some ([], .padded .nothing)
  | .percent, '_' => some ([], .padded .space)
  | .percent, '0' => some ([], .padded .zero)
  | .percent, ':' => some ([], .colons 1)
  | .percent, '.' => some ([], .point)
  | .percent, c =>
    match fractionDigits? c with
    | some n => some ([], .digits n)
    | none => (letterItems? c).map fun items ↦ (items, .text)
  | .padded padding, c => (numberItem? c).map fun item ↦ ([.number item.1 padding], .text)
  | .colons n, ':' => some ([], .colons (n + 1))
  | .colons n, 'z' => (colonForm? n).map fun form ↦ ([.offset form], .text)
  | .point, 'f' => some ([.shortFraction], .text)
  | .point, c => (fractionDigits? c).map fun n ↦ ([], .pointDigits n)
  | .pointDigits n, 'f' => some ([.fraction n true], .text)
  | .digits n, 'f' => some ([.fraction n false], .text)
  | _, _ => none

/-- The items of a layout, from a given state on. -/
def scanLayout (state : LayoutState) : List Char → Option (List LayoutItem)
  | [] => if state = .text then some [] else none
  | c :: cs => do
    let (items, next) ← layoutStep state c
    return items ++ (← scanLayout next cs)

/-- The items of a layout, if all of its specifiers exist. -/
def layoutItems? (layout : String) : Option (List LayoutItem) := scanLayout .text layout.toList

/-! ## Writing a moment -/

/-- A number with at least the given number of characters. -/
def padNumber (padding : Padding) (width n : Nat) : List Char :=
  match padding with
  | .zero => (Nat.toDigits 10 n).leftpad width '0'
  | .space => (Nat.toDigits 10 n).leftpad width ' '
  | .nothing => Nat.toDigits 10 n

/-- A year takes four digits; one that needs more has a sign. -/
def yearText (padding : Padding) (year : Nat) : List Char :=
  if year < 10000 then padNumber padding 4 year else '+' :: Nat.toDigits 10 year

/-- The text of a number field. -/
def NumberField.text (padding : Padding) (m : Moment) : NumberField → List Char
  | year => yearText padding m.year
  | century => padNumber padding 2 (m.year / 100)
  | yearOfCentury => padNumber padding 2 (m.year % 100)
  | isoYear => yearText padding m.isoWeek.1
  | isoYearOfCentury => padNumber padding 2 (m.isoWeek.1 % 100)
  | quarter => Nat.toDigits 10 ((m.month - 1) / 3 + 1)
  | month => padNumber padding 2 m.month
  | day => padNumber padding 2 m.day
  | weekFromSunday => padNumber padding 2 m.weekFromSunday
  | weekFromMonday => padNumber padding 2 m.weekFromMonday
  | isoWeek => padNumber padding 2 m.isoWeek.2
  | weekdayFromSunday => Nat.toDigits 10 m.weekday
  | weekdayFromMonday => Nat.toDigits 10 m.weekdayFromMonday
  | ordinal => padNumber padding 3 m.ordinal
  | hour => padNumber padding 2 m.hour
  | hour12 => padNumber padding 2 m.hour12
  | minute => padNumber padding 2 m.minute
  | second => padNumber padding 2 m.second
  | nanosecond => padNumber padding 9 m.nanosecond
  | timestamp =>
    if m.timestamp < 0 then '-' :: padNumber padding 8 m.timestamp.natAbs
    else padNumber padding 9 m.timestamp.natAbs

def monthNames : List String :=
  ["January", "February", "March", "April", "May", "June", "July", "August", "September",
    "October", "November", "December"]

def weekdayNames : List String :=
  ["Sunday", "Monday", "Tuesday", "Wednesday", "Thursday", "Friday", "Saturday"]

/-- A name, or the three letters it is abbreviated to. -/
def nameText (long : Bool) (name : String) : List Char :=
  if long then name.toList else name.toList.take 3

/-- The groups of three digits that a fraction of a second needs. -/
def shortFractionText (nanosecond : Nat) : List Char :=
  if nanosecond = 0 then []
  else if nanosecond % 1000000 = 0 then '.' :: padNumber .zero 3 (nanosecond / 1000000)
  else if nanosecond % 1000 = 0 then '.' :: padNumber .zero 6 (nanosecond / 1000)
  else '.' :: padNumber .zero 9 nanosecond

/-- An offset from universal time; one given in minutes is rounded to the nearest. -/
def OffsetForm.text (offset : Int) (form : OffsetForm) : List Char :=
  let sign := if offset < 0 then '-' else '+'
  let seconds := offset.natAbs
  let two := padNumber .zero 2
  match form with
  | .hours => sign :: two (seconds / 3600)
  | .secondsWithColons =>
    sign :: (two (seconds / 3600) ++ ':' :: two (seconds / 60 % 60) ++ ':' :: two (seconds % 60))
  | .minutes =>
    let minutes := (seconds + 30) / 60
    sign :: (two (minutes / 60) ++ two (minutes % 60))
  | .minutesWithColon =>
    let minutes := (seconds + 30) / 60
    sign :: (two (minutes / 60) ++ ':' :: two (minutes % 60))

/-- The text of one item. -/
def LayoutItem.text (m : Moment) : LayoutItem → List Char
  | literal c => [c]
  | number field padding => field.text padding m
  | monthName long => nameText long (monthNames.getD (m.month - 1) "")
  | weekdayName long => nameText long (weekdayNames.getD m.weekday "")
  | halfOfDay upper =>
    match upper, m.isAfternoon with
    | true, false => ['A', 'M']
    | true, true => ['P', 'M']
    | false, false => ['a', 'm']
    | false, true => ['p', 'm']
  | fraction digits point =>
    let text := padNumber .zero digits (m.nanosecond / Nat.pow 10 (9 - digits))
    if point then '.' :: text else text
  | shortFraction => shortFractionText m.nanosecond
  | offset form => form.text m.offset

/-- The layout that is used when none is configured, or one that cannot be read. -/
def defaultLayout : String := "%d.%m.%Y %H:%M:%S"

/-- The moment as a timestamp in the given layout. -/
def stamp (layout : String) (m : Moment) : String :=
  let items := (layoutItems? layout).getD ((layoutItems? defaultLayout).getD [])
  String.ofList (items.flatMap (LayoutItem.text m))

/-- A layout without a percent sign is its own timestamp. -/
theorem scanLayout_literal {cs : List Char} (h : '%' ∉ cs) :
    scanLayout .text cs = some (cs.map .literal) := by
  induction cs with
  | nil => rfl
  | cons c cs ih =>
    simp only [List.mem_cons, not_or] at h
    simp [scanLayout, layoutStep, Ne.symm h.1, ih h.2]

end Calculator

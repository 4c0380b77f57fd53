import Calculator.Decimal.Numeral
import Calculator.Timestamp.Moment

/-!
# Booleans, numbers and dates in TOML

The values that are written without quotes.  A configuration has no use for any of them, but a
document is only one if all of its values are well formed, so what is decided here is just that.

Digits may have an underscore between them, and a number written in decimal has no superfluous zero
in front.  Whole numbers have a range of 128 bits.  A number with a fraction or an exponent has to
be finite as a double, unless it is written as infinite or as not a number.  A date has to exist.
-/

set_option autoImplicit false

namespace Calculator.Toml

/-! ## Numbers -/

/-- Digits of a kind, perhaps with single underscores between them. -/
def isDigitRun (isDigit : Char → Bool) : List Char → Bool
  | [] => false
  | [c] => isDigit c
  | c :: '_' :: cs => isDigit c && isDigitRun isDigit cs
  | c :: cs => isDigit c && isDigitRun isDigit cs

/-- Decimal digits without a superfluous zero in front. -/
def isWholeRun (cs : List Char) : Bool :=
  isDigitRun Char.isDigit cs && (cs.head? != some '0' || cs.length == 1)

def isHexDigit (c : Char) : Bool :=
  c.isDigit || ('a' ≤ c && c ≤ 'f') || ('A' ≤ c && c ≤ 'F')

def isOctalDigit (c : Char) : Bool := '0' ≤ c && c ≤ '7'

def isBinaryDigit (c : Char) : Bool := c == '0' || c == '1'

/-- The value of a hexadecimal digit of either case. -/
def digitValue (c : Char) : Nat :=
  if c.isDigit then c.toNat - 0x30
  else if 'a' ≤ c then c.toNat - 0x61 + 10
  else c.toNat - 0x41 + 10

/-- The value of digits in a base; underscores do not count. -/
def runValue (base : Nat) (cs : List Char) : Nat :=
  (cs.filter (· != '_')).foldl (fun n c ↦ base * n + digitValue c) 0

/-- A sign, if there is one, and the rest. -/
def splitSign : List Char → Option Char × List Char
  | '+' :: cs => (some '+', cs)
  | '-' :: cs => (some '-', cs)
  | cs => (none, cs)

/-- Two to the power of 128: whole numbers are below it. -/
def integerLimit : Nat := 0x100000000000000000000000000000000

/-- Negative whole numbers reach half as far. -/
def negativeLimit : Nat := 0x80000000000000000000000000000000

/-- A whole number in range. -/
def isInteger (cs : List Char) : Bool :=
  match cs with
  | '0' :: 'x' :: ds => isDigitRun isHexDigit ds && runValue 16 ds < integerLimit
  | '0' :: 'o' :: ds => isDigitRun isOctalDigit ds && runValue 8 ds < integerLimit
  | '0' :: 'b' :: ds => isDigitRun isBinaryDigit ds && runValue 2 ds < integerLimit
  | cs =>
    let (sign, ds) := splitSign cs
    isWholeRun ds &&
      (if sign = some '-' then runValue 10 ds ≤ negativeLimit else runValue 10 ds < integerLimit)

/-- A character of a run of decimal digits. -/
def isRunChar (c : Char) : Bool := c.isDigit || c == '_'

/-- An exponent, or nothing at all. -/
def isExponent : List Char → Bool
  | [] => true
  | c :: cs => (c == 'e' || c == 'E') && isDigitRun Char.isDigit (splitSign cs).2

/-- What follows the whole part of a number with a fraction or an exponent. -/
def isFractionOrExponent : List Char → Bool
  | '.' :: cs =>
    isDigitRun Char.isDigit (cs.takeWhile isRunChar) && isExponent (cs.dropWhile isRunChar)
  | [] => false
  | cs => isExponent cs

/-- A number with a fraction or an exponent. -/
def isFloat (cs : List Char) : Bool :=
  let body := (splitSign cs).2
  body == ['i', 'n', 'f'] || body == ['n', 'a', 'n'] ||
    (isWholeRun (body.takeWhile isRunChar) && isFractionOrExponent (body.dropWhile isRunChar)
      && (Numeral.scan (body.filter (· != '_'))).1.magnitude != Double.infinity)

/-! ## Dates and times -/

/-- A number of exactly this many digits, and the rest. -/
def fixedNumber? (digits : Nat) (cs : List Char) : Option (Nat × List Char) :=
  let ds := cs.take digits
  if ds.length = digits && ds.all Char.isDigit then
    some (Nat.ofDigitChars 10 ds 0, cs.drop digits)
  else none

/-- The text behind a character that has to be there. -/
def expect? (c : Char) : List Char → Option (List Char)
  | d :: cs => if c = d then some cs else none
  | [] => none

/-- The text behind a date that exists. -/
def date? (cs : List Char) : Option (List Char) := do
  let (year, cs) ← fixedNumber? 4 cs
  let cs ← expect? '-' cs
  let (month, cs) ← fixedNumber? 2 cs
  let cs ← expect? '-' cs
  let (day, cs) ← fixedNumber? 2 cs
  let length ← (0 :: Moment.monthLengths year)[month]?
  if 1 ≤ day ∧ day ≤ length then some cs else none

/-- The text behind a fraction of a second, if there is one. -/
def secondFraction? : List Char → Option (List Char)
  | '.' :: cs =>
    if (cs.takeWhile Char.isDigit).isEmpty then none else some (cs.dropWhile Char.isDigit)
  | cs => some cs

/-- The text behind seconds, if there are any. -/
def seconds? : List Char → Option (List Char)
  | ':' :: cs => do
    let (second, cs) ← fixedNumber? 2 cs
    if second ≤ 60 then secondFraction? cs else none
  | cs => some cs

/-- The text behind hours and minutes. -/
def hoursAndMinutes? (cs : List Char) : Option (List Char) := do
  let (hour, cs) ← fixedNumber? 2 cs
  let cs ← expect? ':' cs
  let (minute, cs) ← fixedNumber? 2 cs
  if hour ≤ 23 ∧ minute ≤ 59 then some cs else none

/-- The text behind a time of day. -/
def time? (cs : List Char) : Option (List Char) := (hoursAndMinutes? cs).bind seconds?

/-- An offset from universal time, or nothing at all. -/
def isOffset : List Char → Bool
  | [] => true
  | ['Z'] => true
  | ['z'] => true
  | '+' :: cs => hoursAndMinutes? cs == some []
  | '-' :: cs => hoursAndMinutes? cs == some []
  | _ => false

/-- A time behind a date. -/
def isTimeOfDate : List Char → Bool
  | c :: cs => (c == 'T' || c == 't' || c == ' ') && (time? cs).any isOffset
  | [] => true

/-- A date, a time or both. -/
def isDateTime (cs : List Char) : Bool :=
  (date? cs).any isTimeOfDate || time? cs == some []

/-! ## Any of them -/

/-- A value without quotes. -/
def isScalar (cs : List Char) : Bool :=
  cs == ['t', 'r', 'u', 'e'] || cs == ['f', 'a', 'l', 's', 'e'] || isInteger cs || isFloat cs
    || isDateTime cs

/-- A character that a value without quotes can hold. -/
def isScalarChar (c : Char) : Bool :=
  c != ' ' && c != '\t' && c != '\n' && c != '\r' && c != ',' && c != ']' && c != '\x7d' && c != '#'

/-- The characters of a value without quotes, and the rest.  A space can stand between a date and a
time. -/
def splitScalar (cs : List Char) : List Char × List Char :=
  let word := cs.takeWhile isScalarChar
  match date? word, cs.dropWhile isScalarChar with
  | some [], ' ' :: d :: rest =>
    if d.isDigit then
      (word ++ ' ' :: (d :: rest).takeWhile isScalarChar, (d :: rest).dropWhile isScalarChar)
    else (word, ' ' :: d :: rest)
  | _, rest => (word, rest)

/-- The text behind a value without quotes. -/
def scalar? (cs : List Char) : Option (List Char) :=
  let (word, rest) := splitScalar cs
  if isScalar word then some rest else none

end Calculator.Toml

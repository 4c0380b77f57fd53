import Calculator.Decimal.Shortest

/-!
# How numbers are written

Two texts of a double are in use.  `numberText` is exact: it is the shortest decimal that reads
back, and values that are spliced into an expression are written this way.  `resultText` is for
showing a result: a number with a fraction is rounded to eight places, from its exact value and with
ties going to the even neighbour, and loses the zeros at its end; a number without a fraction keeps
all its digits.

Neither uses an exponent.  Infinities and values that are not numbers have fixed names, and the sign
of the latter is not shown.  A result that is zero, or rounds to zero, has no sign either.
-/

set_option autoImplicit false

namespace Calculator

/-- A minus in front, if asked for. -/
def signed (negative : Bool) (digits : List Char) : List Char :=
  if negative then '-' :: digits else digits

/-- The shortest text that reads back as the number. -/
def numberText (x : Float) : List Char :=
  let m := Double.magnitude x
  if Double.infinity < m then ['N', 'a', 'N']
  else if m = Double.infinity then signed (Double.isNegative x) ['i', 'n', 'f']
  else if m = 0 then signed (Double.isNegative x) ['0']
  else signed (Double.isNegative x) (Double.shortest m).text

/-- The most places a result is shown with. -/
def resultPlaces : Nat := 8

/-- The exact value of a finite double, rounded to the given number of places. -/
def roundedTo (places m : Nat) : Decimal :=
  ⟨roundHalfEven (Double.units m * Nat.pow 10 places) Double.unitsPerOne, places⟩

/-- The decimal that a finite double is shown as, up to its sign. -/
def resultDecimal (m : Nat) : Decimal :=
  if Double.units m % Double.unitsPerOne = 0 then Double.shortest m
  else (roundedTo resultPlaces m).trimmed

/-- The text of a result. -/
def resultText (x : Float) : List Char :=
  let m := Double.magnitude x
  if Double.infinity ≤ m then numberText x
  else if m = 0 then ['0']
  else
    let d := resultDecimal m
    signed (Double.isNegative x && d.coefficient != 0) d.text

/-- What is shown of a fraction differs from its exact value by at most half of the last place. -/
theorem roundedTo_le (places m : Nat) :
    2 * ((roundedTo places m).coefficient * Double.unitsPerOne)
      ≤ 2 * (Double.units m * Nat.pow 10 places) + Double.unitsPerOne :=
  roundHalfEven_mul_le Double.unitsPerOne_pos

theorem le_roundedTo (places m : Nat) :
    2 * (Double.units m * Nat.pow 10 places)
      ≤ 2 * ((roundedTo places m).coefficient * Double.unitsPerOne) + Double.unitsPerOne :=
  le_roundHalfEven_mul Double.unitsPerOne_pos

end Calculator

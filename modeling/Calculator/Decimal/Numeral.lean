import Calculator.Decimal.Double

/-!
# Number literals

A numeral is digits, an optional point with further digits, and an optional exponent: a mark, an
optional sign and digits.  `Numeral.scan` takes the longest text of that shape off the front of its
input without asking whether any digits are there; `Numeral.text` writes a numeral out again, so
that scanning only ever cuts the input in two.

A numeral is *complete* when it has a digit before or after the point and, if there is an exponent,
a digit in it.  Its value is then the double nearest to the decimal it spells.  The exponent of a
numeral may be astronomically large; beyond `exponentLimit` places past its digits in either
direction the value is infinite or zero whatever the exponent is, so the exponent is cut off there
before any power of ten is computed.
-/

set_option autoImplicit false

namespace Calculator

/-- The exponent part of a numeral. -/
structure Exponent where
  mark : Char
  sign : Option Char
  digits : List Char
deriving DecidableEq, Repr

/-- The parts of a number literal. -/
structure Numeral where
  integer : List Char
  fraction : Option (List Char)
  exponent : Option Exponent
deriving DecidableEq, Repr

/-! ## Text -/

/-- The exponent as it is spelled. -/
def Exponent.text (e : Exponent) : List Char := e.mark :: (e.sign.toList ++ e.digits)

namespace Numeral

/-- The point and what follows it. -/
def fractionText : Option (List Char) → List Char
  | none => []
  | some digits => '.' :: digits

/-- The exponent, if there is one. -/
def exponentText : Option Exponent → List Char
  | none => []
  | some e => e.text

/-- The numeral as it is spelled. -/
def text (n : Numeral) : List Char :=
  n.integer ++ fractionText n.fraction ++ exponentText n.exponent

/-! ## Scanning -/

/-- A character that a numeral can start with. -/
def starts (c : Char) : Bool := c.isDigit || c == '.'

/-- A character that introduces an exponent. -/
def isMark (c : Char) : Bool := c == 'e' || c == 'E'

/-- The point and the digits after it, and the rest of the text. -/
def scanFraction : List Char → Option (List Char) × List Char
  | '.' :: cs => (some (cs.takeWhile Char.isDigit), cs.dropWhile Char.isDigit)
  | cs => (none, cs)

/-- A sign, and the rest of the text. -/
def scanSign : List Char → Option Char × List Char
  | '+' :: cs => (some '+', cs)
  | '-' :: cs => (some '-', cs)
  | cs => (none, cs)

/-- An exponent, and the rest of the text. -/
def scanExponent : List Char → Option Exponent × List Char
  | [] => (none, [])
  | c :: cs =>
    if isMark c then
      let (sign, digits) := scanSign cs
      (some ⟨c, sign, digits.takeWhile Char.isDigit⟩, digits.dropWhile Char.isDigit)
    else
      (none, c :: cs)

/-- The numeral at the start of the text, and the rest of the text. -/
def scan (cs : List Char) : Numeral × List Char :=
  let afterInteger := cs.dropWhile Char.isDigit
  let (fraction, afterFraction) := scanFraction afterInteger
  let (exponent, rest) := scanExponent afterFraction
  (⟨cs.takeWhile Char.isDigit, fraction, exponent⟩, rest)

theorem scanFraction_append (cs : List Char) :
    fractionText (scanFraction cs).1 ++ (scanFraction cs).2 = cs := by
  unfold scanFraction
  split <;> simp [fractionText]

theorem scanSign_append (cs : List Char) :
    (scanSign cs).1.toList ++ (scanSign cs).2 = cs := by
  unfold scanSign
  split <;> simp

theorem scanExponent_append (cs : List Char) :
    exponentText (scanExponent cs).1 ++ (scanExponent cs).2 = cs := by
  unfold scanExponent
  split
  · rfl
  · rename_i c cs
    split
    · simp [exponentText, Exponent.text, List.append_assoc, scanSign_append]
    · rfl

/-- Scanning cuts the text in two. -/
theorem scan_append (cs : List Char) : (scan cs).1.text ++ (scan cs).2 = cs := by
  simp only [scan, text, List.append_assoc]
  rw [scanExponent_append, scanFraction_append, List.takeWhile_append_dropWhile]

/-- A text that starts like a numeral gets shorter. -/
theorem length_scan_lt {c : Char} {cs : List Char} (h : starts c = true) :
    (scan (c :: cs)).2.length < (c :: cs).length := by
  have happ := congrArg List.length (scan_append (c :: cs))
  have hpos : 0 < (scan (c :: cs)).1.text.length := by
    simp only [starts, Bool.or_eq_true, beq_iff_eq] at h
    rcases h with h | rfl
    · simp [scan, text, h]
    · simp [scan, text, scanFraction, fractionText, show Char.isDigit '.' = false from by decide]
  rw [List.length_append] at happ
  omega

/-! ## Value -/

/-- There are digits wherever a numeral needs some. -/
def isComplete (n : Numeral) : Bool :=
  !(n.integer ++ n.fraction.getD []).isEmpty && n.exponent.all fun e ↦ !e.digits.isEmpty

/-- The digits on both sides of the point. -/
def digits (n : Numeral) : List Char := n.integer ++ n.fraction.getD []

/-- The power of ten by which the digits are to be multiplied. -/
def scale (n : Numeral) : Int :=
  let places : Int := (n.fraction.getD []).length
  match n.exponent with
  | none => -places
  | some e =>
    let size : Int := Nat.ofDigitChars 10 e.digits 0
    (if e.sign = some '-' then -size else size) - places

/-- A power of ten beyond the range of doubles on both sides. -/
def exponentLimit : Nat := 400

/-- The scale, cut off where it no longer matters. -/
def clampedScale (n : Numeral) : Int :=
  max (-(n.digits.length + exponentLimit : Int)) (min n.scale exponentLimit)

/-- The magnitude of the double nearest to the decimal that the numeral spells. -/
def magnitude (n : Numeral) : Nat :=
  Double.nearest (Nat.ofDigitChars 10 n.digits 0 * Nat.pow 10 n.clampedScale.toNat)
    (Nat.pow 10 (-n.clampedScale).toNat)

/-- The double nearest to the decimal that the numeral spells. -/
def value (n : Numeral) : Float := Double.ofMagnitude n.magnitude

end Numeral

end Calculator

import Calculator.Decimal.Rounding

/-!
# Doubles as whole numbers

Every finite double is a whole multiple of `2 ^ -1074`, the smallest positive one.  Counting in that
unit turns all questions about decimal text into questions about natural numbers, and it makes the
order of the doubles visible: strip the sign from the 64 bits and what is left, the *magnitude*, is
a natural number that counts the doubles from zero upwards.  Zero has magnitude `0`, the smallest
positive double `1`, and infinity comes right after the largest finite double, at
`Double.infinity`.  Everything above it is not a number.  The lower 52 bits of a magnitude are the
fraction and the 11 bits above them the exponent, so `0x10000000000000`, which is `2 ^ 52`, divides
the two.

`Double.units` goes from a magnitude to the number of units.  `Double.nearest` goes back, from any
quotient of natural numbers to the magnitude of the double nearest to it.  The rounded significand
is simply added to the binary exponent: when rounding carries into the next binade, the addition
carries into the exponent, and a quotient that is too large ends at infinity by itself.
-/

set_option autoImplicit false

namespace Calculator.Double

/-! ## Bits -/

/-- The bits below the sign, as a number. -/
def magnitude (x : Float) : Nat := x.toBits.toNat % 0x8000000000000000

/-- The sign bit is set. -/
def isNegative (x : Float) : Bool := 0x8000000000000000 ≤ x.toBits.toNat

/-- The magnitude of infinity. -/
def infinity : Nat := 0x7FF0000000000000

/-- The double without sign that has the given magnitude. -/
def ofMagnitude (magnitude : Nat) : Float := Float.ofBits (UInt64.ofNat magnitude)

/-! ## Units -/

/-- The number of units of `2 ^ -1074` in the double of the given magnitude.  Below `2 ^ 53` the
two agree; from there on each step of `2 ^ 52` in the magnitude doubles the spacing. -/
def units (magnitude : Nat) : Nat :=
  if magnitude < 0x10000000000000 then magnitude
  else
    (0x10000000000000 + magnitude % 0x10000000000000)
      * Nat.pow 2 (magnitude / 0x10000000000000 - 1)

/-- The unit is two to the power of minus this. -/
@[irreducible] def unitExponent : Nat := 1074

/-- The number of units that make one. -/
def unitsPerOne : Nat := Nat.pow 2 unitExponent

theorem unitsPerOne_pos : 0 < unitsPerOne := Nat.two_pow_pos unitExponent

/-- Every step in the magnitude is at least one unit. -/
theorem units_lt_units_succ (m : Nat) : units m < units (m + 1) := by
  unfold units
  split
  · split
    · omega
    · have : m + 1 = 0x10000000000000 := by omega
      rw [this]
      exact Nat.lt_of_lt_of_le ‹_› (by decide)
  · have hpos : 0 < Nat.pow 2 (m / 0x10000000000000 - 1) := Nat.pow_pos (by decide)
    rw [if_neg (by omega)]
    by_cases hc : m % 0x10000000000000 = 0xFFFFFFFFFFFFF
    · have h1 : (m + 1) / 0x10000000000000 - 1 = m / 0x10000000000000 - 1 + 1 := by omega
      have h2 : (m + 1) % 0x10000000000000 = 0 := by omega
      have h3 : Nat.pow 2 (m / 0x10000000000000 - 1 + 1)
          = 2 * Nat.pow 2 (m / 0x10000000000000 - 1) := Nat.pow_succ'
      rw [h1, h2, hc, h3, ← Nat.mul_assoc]
      exact Nat.mul_lt_mul_of_pos_right (by decide) hpos
    · have h1 : (m + 1) / 0x10000000000000 = m / 0x10000000000000 := by omega
      have h2 : (m + 1) % 0x10000000000000 = m % 0x10000000000000 + 1 := by omega
      rw [h1, h2]
      exact Nat.mul_lt_mul_of_pos_right (by omega) hpos

/-- The magnitude orders the doubles. -/
theorem units_lt_units {m n : Nat} (h : m < n) : units m < units n := by
  induction h with
  | refl => exact units_lt_units_succ m
  | step _ ih => exact Nat.lt_trans ih (units_lt_units_succ _)

theorem units_inj {m n : Nat} (h : units m = units n) : m = n := by
  rcases Nat.lt_trichotomy m n with hlt | heq | hlt
  · exact absurd h (Nat.ne_of_lt (units_lt_units hlt))
  · exact heq
  · exact absurd h (Nat.ne_of_gt (units_lt_units hlt))

theorem units_eq_zero_iff {m : Nat} : units m = 0 ↔ m = 0 :=
  ⟨fun h ↦ units_inj (h.trans (by decide)), fun h ↦ by rw [h]; rfl⟩

/-! ## The nearest double -/

/-- The magnitude of the double nearest to `num / den`, ties going to the even one. -/
def nearest (num den : Nat) : Nat :=
  let shift := (num * unitsPerOne / den).log2 - 52
  min infinity
    (shift * 0x10000000000000 + roundHalfEven (num * unitsPerOne) (den * Nat.pow 2 shift))

end Calculator.Double

import Calculator.Decimal.Basic
import Calculator.Decimal.Double

/-!
# The shortest decimal that reads back

A finite double is written with the fewest digits that still read back as the same double.  The
decimals that do are those in its *rounding interval*, which reaches half way to the neighbouring
doubles on either side; the two ends belong to it exactly when the magnitude is even, because a
reader breaks ties that way.

`2 ^ -1074` is `5 ^ 1074 * 10 ^ -1074`, so on the decimal grid of step `10 ^ -1074` every double,
and twice every end of an interval, is a whole number.  A decimal with few digits is a multiple of
a high power of ten on that grid.  `Double.search` therefore walks the powers downwards and stops
at the first one that has a multiple in the interval: only the two multiples next to the double can
be the first, and of two the nearer one is taken, the larger one if they are equally near.  The
walk ends, at the latest where the step of the grid is one and the double itself is a multiple.

It starts at `Double.startExponent`, where the power of ten exceeds every number in the interval.
-/

set_option autoImplicit false

namespace Calculator.Double

/-- The double in steps of the finest decimal grid, `10 ^ -1074`. -/
def onGrid (m : Nat) : Nat := units m * Nat.pow 5 unitExponent

/-- The grid point `x` reads back as the double of magnitude `m`: it lies between the midpoints to
the two neighbouring doubles, or on one of them if `m` is even. -/
def ReadsBack (m x : Nat) : Prop :=
  let low := (units m + units (m - 1)) * Nat.pow 5 unitExponent
  let high := (units m + units (m + 1)) * Nat.pow 5 unitExponent
  if m % 2 = 0 then low ≤ 2 * x ∧ 2 * x ≤ high else low < 2 * x ∧ 2 * x < high

instance (m x : Nat) : Decidable (ReadsBack m x) := by
  unfold ReadsBack
  infer_instance

/-- A double reads back as itself. -/
theorem readsBack_onGrid {m : Nat} (h : 0 < m) : ReadsBack m (onGrid m) := by
  have h1 := units_lt_units_succ m
  have h2 : units (m - 1) < units m := units_lt_units (by omega)
  have h5 : 0 < Nat.pow 5 unitExponent := Nat.pow_pos (by decide)
  have hlow : (units m + units (m - 1)) * Nat.pow 5 unitExponent < 2 * onGrid m := by
    rw [onGrid, ← Nat.mul_assoc]
    exact Nat.mul_lt_mul_of_pos_right (by omega) h5
  have hhigh : 2 * onGrid m < (units m + units (m + 1)) * Nat.pow 5 unitExponent := by
    rw [onGrid, ← Nat.mul_assoc]
    exact Nat.mul_lt_mul_of_pos_right (by omega) h5
  simp only [ReadsBack]
  split
  · exact ⟨Nat.le_of_lt hlow, Nat.le_of_lt hhigh⟩
  · exact ⟨hlow, hhigh⟩

/-- Of the multiples of `step` next to the double, the one that reads back and is nearest. -/
def pick (m step : Nat) : Option Nat :=
  let below := onGrid m / step
  if ReadsBack m (below * step) then
    if ReadsBack m ((below + 1) * step) ∧ (2 * below + 1) * step ≤ 2 * onGrid m then
      some (below + 1)
    else
      some below
  else if ReadsBack m ((below + 1) * step) then
    some (below + 1)
  else
    none

/-- What is picked reads back. -/
theorem readsBack_of_pick {m step c : Nat} (h : pick m step = some c) :
    ReadsBack m (c * step) := by
  simp only [pick] at h
  split at h
  · split at h
    · rename_i _ h2
      exact Option.some.inj h ▸ h2.1
    · rename_i h1 _
      exact Option.some.inj h ▸ h1
  · split at h
    · rename_i _ h2
      exact Option.some.inj h ▸ h2
    · cases h

/-- The coefficient and the exponent of the first multiple found on the way down. -/
def search (m : Nat) : Nat → Nat × Nat
  | 0 => (onGrid m, 0)
  | exponent + 1 =>
    match pick m (Nat.pow 10 (exponent + 1)) with
    | some coefficient => (coefficient, exponent + 1)
    | none => search m exponent

/-- What the search finds reads back. -/
theorem readsBack_search {m : Nat} (h : 0 < m) (exponent : Nat) :
    ReadsBack m ((search m exponent).1 * Nat.pow 10 (search m exponent).2) := by
  fun_induction search m exponent with
  | case1 => simpa using readsBack_onGrid h
  | case2 exponent c hc => exact readsBack_of_pick hc
  | case3 _ _ ih => exact ih

/-- An exponent whose power of ten is beyond twice the double: `2 ^ 13` is below `10 ^ 4`. -/
def startExponent (m : Nat) : Nat := 4 * (((onGrid m).log2 + 1) / 13 + 1)

/-- The shortest decimal that reads back as the double of magnitude `m`. -/
def shortest (m : Nat) : Decimal :=
  let found := search m (startExponent m)
  Decimal.scaled found.1 found.2 unitExponent

end Calculator.Double

/-!
# Decimal fractions

Numbers are read and written in decimal.  A `Decimal` is an unsigned decimal fraction
`coefficient / 10 ^ places`, and `Decimal.text` is the one way it is written: positional, never with
an exponent, an integer part without superfluous zeros, and a point only in front of at least one
digit.

How many places a number gets is decided elsewhere; `Decimal.trimmed` drops the ones that are zero.
The search for a decimal that stands for a binary number produces a coefficient and a power of ten
that can point either way, and `Decimal.scaled` turns those into a fraction.
-/

set_option autoImplicit false

namespace Calculator

/-- The decimal fraction `coefficient / 10 ^ places`. -/
structure Decimal where
  coefficient : Nat
  places : Nat
deriving DecidableEq, Repr

namespace Decimal

/-- Two decimal fractions are the same number. -/
def SameValue (a b : Decimal) : Prop :=
  a.coefficient * Nat.pow 10 b.places = b.coefficient * Nat.pow 10 a.places

instance (a b : Decimal) : Decidable (SameValue a b) := inferInstanceAs (Decidable (_ = _))

/-- One fraction is at most the other. -/
def LessEq (a b : Decimal) : Prop :=
  a.coefficient * Nat.pow 10 b.places ≤ b.coefficient * Nat.pow 10 a.places

instance (a b : Decimal) : Decidable (LessEq a b) := inferInstanceAs (Decidable (_ ≤ _))

/-! ## Writing -/

/-- The digits after the point. -/
def fractionDigits (d : Decimal) : List Char :=
  (Nat.toDigits 10 (d.coefficient % Nat.pow 10 d.places)).leftpad d.places '0'

/-- The digits before the point. -/
def integerDigits (d : Decimal) : List Char :=
  Nat.toDigits 10 (d.coefficient / Nat.pow 10 d.places)

/-- The fraction in positional notation. -/
def text (d : Decimal) : List Char :=
  if d.places = 0 then d.integerDigits else d.integerDigits ++ '.' :: d.fractionDigits

/-- There are as many digits after the point as there are places. -/
theorem length_fractionDigits {d : Decimal} (h : d.places ≠ 0) :
    d.fractionDigits.length = d.places := by
  rw [fractionDigits, List.length_leftpad]
  refine Nat.max_eq_left ((Nat.length_toDigits_le_iff (by decide) (by omega)).mpr ?_)
  exact Nat.mod_lt _ (Nat.pow_pos (by decide))

theorem isDigit_of_mem_integerDigits {d : Decimal} {c : Char} (h : c ∈ d.integerDigits) :
    c.isDigit = true :=
  Nat.isDigit_of_mem_toDigits (by decide) (by decide) h

theorem isDigit_of_mem_fractionDigits {d : Decimal} {c : Char} (h : c ∈ d.fractionDigits) :
    c.isDigit = true := by
  rw [fractionDigits, List.leftpad, List.mem_append] at h
  rcases h with h | h
  · rw [List.eq_of_mem_replicate h]; decide
  · exact Nat.isDigit_of_mem_toDigits (by decide) (by decide) h

/-! ## Places that are zero -/

/-- Drop final zeros, at most as many as there are places. -/
def dropZeros (coefficient : Nat) : Nat → Decimal
  | 0 => ⟨coefficient, 0⟩
  | places + 1 =>
    if coefficient % 10 = 0 then dropZeros (coefficient / 10) places
    else ⟨coefficient, places + 1⟩

/-- The same number with no more places than it needs. -/
def trimmed (d : Decimal) : Decimal := dropZeros d.coefficient d.places

theorem sameValue_dropZeros (coefficient places : Nat) :
    SameValue (dropZeros coefficient places) ⟨coefficient, places⟩ := by
  fun_induction dropZeros coefficient places with
  | case1 => rfl
  | case2 c places h ih =>
    have hc : c = c / 10 * 10 := by omega
    simp only [SameValue] at ih ⊢
    rw [show Nat.pow 10 (places + 1) = Nat.pow 10 places * 10 from rfl, ← Nat.mul_assoc, ih,
      Nat.mul_right_comm, ← hc]
  | case3 => rfl

theorem sameValue_trimmed (d : Decimal) : SameValue d.trimmed d :=
  sameValue_dropZeros d.coefficient d.places

/-- After trimming, the last place is not zero. -/
theorem trimmed_places_eq_zero_or (d : Decimal) :
    d.trimmed.places = 0 ∨ d.trimmed.coefficient % 10 ≠ 0 := by
  rw [trimmed]
  fun_induction dropZeros d.coefficient d.places with
  | case1 => exact Or.inl rfl
  | case2 _ _ _ ih => exact ih
  | case3 _ _ h => exact Or.inr h

/-! ## Powers of ten -/

/-- The number `digits * 10 ^ (exponent - offset)`. -/
def scaled (digits exponent offset : Nat) : Decimal :=
  ⟨digits * Nat.pow 10 (exponent - offset), offset - exponent⟩

theorem scaled_spec (digits exponent offset : Nat) :
    (scaled digits exponent offset).coefficient * Nat.pow 10 offset
      = digits * Nat.pow 10 exponent * Nat.pow 10 (scaled digits exponent offset).places := by
  simp only [scaled, Nat.pow_eq]
  rw [Nat.mul_assoc, Nat.mul_assoc, ← Nat.pow_add, ← Nat.pow_add,
    show exponent - offset + offset = exponent + (offset - exponent) by omega]

end Decimal

end Calculator

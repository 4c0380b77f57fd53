import Calculator.Proofs.Decimal.NumberText
import Calculator.Proofs.Decimal.WholeNumbers

/-!
# Reading a displayed number

A fraction is displayed with at most eight places, which can make another number of it.  Reading
that number and displaying it again changes nothing any more (`resultDecimal_reading`).  The reason
depends on how far apart the doubles are.

From `2 ^ 26` on they are more than `10 ^ -8` apart.  The displayed number is at most half of
`10 ^ -8` away from the double, so it is read as the double itself (`nearest_of_coarse`).  Below
that the doubles are closer than `10 ^ -8`.  The displayed number is read as some double at most
half of their distance away, and that double is rounded to the displayed number
(`roundHalfEven_of_fine`).  At the lower end of a binade the double before is only half as far away,
but where the doubles are so far apart this end is a whole number and no fraction
(`isWhole_of_coarse`).

What is read can be a whole number, which is displayed by other means: it shows all its digits.
`shortest_whole` says that these are the same.
-/

set_option autoImplicit false

namespace Calculator

/-! ## Reading decimals -/

namespace Decimal

/-- The magnitude of the double that a decimal is read as. -/
def reading (d : Decimal) : Nat := Double.nearest d.coefficient (Nat.pow 10 d.places)

/-- Only the number matters that a decimal stands for. -/
theorem reading_eq_of_sameValue {a b : Decimal} (h : SameValue a b) : a.reading = b.reading := by
  have hten : ∀ k, 0 < Nat.pow 10 k := fun k ↦ Nat.pow_pos (by decide)
  rw [reading, ← Double.nearest_scale (hten b.places), h, Nat.mul_comm (Nat.pow 10 a.places),
    Double.nearest_scale (hten a.places), reading]

/-- Zeros that are all the places a decimal has are dropped. -/
theorem trimmed_whole (q places : Nat) : trimmed ⟨q * Nat.pow 10 places, places⟩ = ⟨q, 0⟩ := by
  show dropZeros (q * Nat.pow 10 places) places = ⟨q, 0⟩
  induction places with
  | zero => exact congrArg (Decimal.mk · 0) (Nat.mul_one q)
  | succ places ih =>
    have hsplit : q * Nat.pow 10 (places + 1) = q * Nat.pow 10 places * 10 :=
      (Nat.mul_assoc q _ 10).symm
    rw [dropZeros, hsplit, if_pos (Nat.mul_mod_left _ _), Nat.mul_div_cancel _ (by decide), ih]

end Decimal

/-- What is less than half a unit away is the nearest whole number. -/
theorem roundHalfEven_eq_of_lt {num den r : Nat} (hlow : 2 * (r * den) < 2 * num + den)
    (hhigh : 2 * num < 2 * (r * den) + den) : roundHalfEven num den = r :=
  roundHalfEven_eq (by omega) (Nat.le_of_lt hlow) (Nat.le_of_lt hhigh) (Or.inr ⟨hlow, hhigh⟩)

namespace Double

/-! ## How far reading can be off -/

/-- A significand may be one more than there is room for, because the next binade starts there. -/
theorem units_significand {s r : Nat} (hr : r ≤ 0x20000000000000)
    (hs : s = 0 ∨ 0x10000000000000 ≤ r) : units (s * 0x10000000000000 + r) = r * Nat.pow 2 s := by
  rcases Nat.lt_or_eq_of_le hr with hlt | rfl
  · exact units_binade hlt hs
  · exact units_binade_succ (s := s) (f := 0x1FFFFFFFFFFFFF) (by decide) (Or.inr (by decide))

/-- Every quotient below the end of a binade lies in that binade or in an earlier one. -/
theorem exists_binade_of_lt {num den k : Nat} (h : num < 0x20000000000000 * Nat.pow 2 k * den) :
    ∃ s, s ≤ k ∧ (s = 0 ∨ 0x10000000000000 * Nat.pow 2 s * den ≤ num) ∧
      num < 0x20000000000000 * Nat.pow 2 s * den := by
  induction k with
  | zero => exact ⟨0, Nat.le_refl 0, Or.inl rfl, h⟩
  | succ k ih =>
    rcases Nat.lt_or_ge num (0x20000000000000 * Nat.pow 2 k * den) with hlt | hge
    · obtain ⟨s, hsk, hs⟩ := ih hlt
      exact ⟨s, Nat.le_succ_of_le hsk, hs⟩
    · refine ⟨k + 1, Nat.le_refl _, Or.inr ?_, h⟩
      rw [pow_succ_two, ← Nat.mul_assoc]
      exact hge

/-- **The double that is read** is at most half a unit of the binade away. -/
theorem nearest_close {num den k : Nat} (hden : 0 < den) (hk : k < 2045)
    (h : num * unitsPerOne < 0x20000000000000 * Nat.pow 2 k * den) :
    nearest num den < infinity ∧
      2 * (units (nearest num den) * den) ≤ 2 * (num * unitsPerOne) + Nat.pow 2 k * den ∧
      2 * (num * unitsPerOne) ≤ 2 * (units (nearest num den) * den) + Nat.pow 2 k * den := by
  obtain ⟨s, hsk, hlow, hhigh⟩ := exists_binade_of_lt h
  have hunit : 0 < den * Nat.pow 2 s := Nat.mul_pos hden (Nat.two_pow_pos s)
  have hassoc : ∀ a, a * Nat.pow 2 s * den = a * (den * Nat.pow 2 s) := fun a ↦ by
    rw [Nat.mul_assoc, Nat.mul_comm (Nat.pow 2 s)]
  have habove := @roundHalfEven_mul_le (num * unitsPerOne) _ hunit
  have hbelow := @le_roundHalfEven_mul (num * unitsPerOne) _ hunit
  have hnearest := nearest_binade hden hlow hhigh
  rw [hassoc] at hhigh hlow
  generalize roundHalfEven (num * unitsPerOne) (den * Nat.pow 2 s) = r at habove hbelow hnearest
  have hr : r ≤ 0x20000000000000 := by
    rcases Nat.lt_or_ge 0x20000000000000 r with hgt | hle
    · have hmul := Nat.mul_le_mul_right (den * Nat.pow 2 s) hgt
      rw [Nat.succ_mul] at hmul
      omega
    · exact hle
  have hs : s = 0 ∨ 0x10000000000000 ≤ r := by
    refine hlow.imp_right fun hlow ↦ ?_
    rcases Nat.lt_or_ge r 0x10000000000000 with hlt | hge
    · have hmul := Nat.mul_le_mul_right (den * Nat.pow 2 s) hlt
      rw [Nat.succ_mul] at hmul
      omega
    · exact hge
  have hfinite : s * 0x10000000000000 + r < infinity := by
    rw [infinity]
    omega
  have hdist : den * Nat.pow 2 s ≤ Nat.pow 2 k * den := by
    rw [Nat.mul_comm]
    exact Nat.mul_le_mul_right den (Nat.pow_le_pow_right (by decide) hsk)
  rw [hnearest, Nat.min_eq_right (Nat.le_of_lt hfinite), units_significand hr hs, hassoc]
  exact ⟨hfinite, by omega, by omega⟩

/-! ## Fractions -/

variable {m : Nat}

/-- The double has no fractional part. -/
def IsWhole (m : Nat) : Prop := units m % unitsPerOne = 0

instance (m : Nat) : Decidable (IsWhole m) := inferInstanceAs (Decidable (_ = _))

theorem exists_of_whole (h : IsWhole m) : ∃ q, units m = q * unitsPerOne :=
  ⟨units m / unitsPerOne, (Nat.div_mul_cancel (Nat.dvd_of_mod_eq_zero h)).symm⟩

/-- The unit of the last binade in which the doubles are closer than `10 ^ -8`.  It is `2 ^ -27`,
and the next power of two is already larger. -/
def fineUnit : Nat := Nat.pow 2 (unitExponent - 27)

theorem fineExponent_lt : unitExponent - 27 < 2045 := by
  rw [unitExponent]
  decide

theorem unitsPerOne_eq : unitsPerOne = 0x8000000 * fineUnit := by
  have hle : 27 ≤ unitExponent := by
    rw [unitExponent]
    decide
  rw [Nat.mul_comm]
  exact (Nat.pow_sub_mul_pow 2 hle).symm

theorem fineUnit_pos : 0 < fineUnit := Nat.two_pow_pos _

theorem fineUnit_lt : fineUnit * 100000000 < unitsPerOne := by
  rw [unitsPerOne_eq, Nat.mul_comm]
  exact Nat.mul_lt_mul_of_pos_right (by decide) fineUnit_pos

/-- A double with a fraction lies in a binade whose unit is a fraction. -/
theorem binade_lt_one {s f : Nat} (hf : f < 0x20000000000000) (hs : s = 0 ∨ 0x10000000000000 ≤ f)
    (h : ¬ IsWhole (s * 0x10000000000000 + f)) : 2 * Nat.pow 2 s ≤ unitsPerOne := by
  rw [IsWhole, units_binade hf hs] at h
  rw [← pow_succ_two]
  refine Nat.pow_le_pow_right (by decide) (Nat.lt_of_not_le fun hle ↦ h ?_)
  exact Nat.mod_eq_zero_of_dvd (Nat.dvd_mul_left_of_dvd (Nat.pow_dvd_pow 2 hle) f)

/-- Doubles with a fraction are below `2 ^ 52`. -/
theorem units_lt_of_not_whole (h : ¬ IsWhole m) : units m < 0x10000000000000 * unitsPerOne := by
  obtain ⟨s, f, rfl, hf, hs⟩ := exists_binade m
  have hunit := binade_lt_one hf hs h
  have hlt : f * Nat.pow 2 s < 0x20000000000000 * Nat.pow 2 s :=
    Nat.mul_lt_mul_of_pos_right hf (Nat.two_pow_pos s)
  rw [units_binade hf hs]
  omega

/-- Where the doubles are more than `10 ^ -8` apart, the smallest of a binade is a whole number. -/
theorem isWhole_of_coarse {s : Nat} (hs : unitExponent - 27 < s) :
    IsWhole (s * 0x10000000000000 + 0x10000000000000) := by
  rw [IsWhole, units_binade (by decide) (Or.inr (by decide))]
  have hsplit : 0x10000000000000 * Nat.pow 2 s = Nat.pow 2 (52 + s) := (Nat.pow_add 2 52 s).symm
  rw [hsplit]
  exact Nat.mod_eq_zero_of_dvd (Nat.pow_dvd_pow 2 (by omega))

/-- **Where the doubles are more than `10 ^ -8` apart,** the number `c / 10 ^ 8` next to a double is
read as that double. -/
theorem nearest_of_coarse {s f c : Nat} (hf : f < 0x20000000000000) (hlow : 0x10000000000000 < f)
    (hs : 2 * fineUnit ≤ Nat.pow 2 s)
    (habove : 2 * (c * unitsPerOne) ≤ 2 * (f * Nat.pow 2 s * 100000000) + unitsPerOne)
    (hbelow : 2 * (f * Nat.pow 2 s * 100000000) ≤ 2 * (c * unitsPerOne) + unitsPerOne) :
    nearest c 100000000 = min infinity (s * 0x10000000000000 + f) := by
  have hunit := unitsPerOne_eq
  have hmin : 0x10000000000001 * Nat.pow 2 s ≤ f * Nat.pow 2 s := Nat.mul_le_mul_right _ hlow
  have hmax : (f + 1) * Nat.pow 2 s ≤ 0x20000000000000 * Nat.pow 2 s := Nat.mul_le_mul_right _ hf
  rw [Nat.succ_mul] at hmax
  have hself : f * (100000000 * Nat.pow 2 s) = f * Nat.pow 2 s * 100000000 := by
    rw [Nat.mul_comm 100000000, Nat.mul_assoc]
  have hpos : 0 < 100000000 * Nat.pow 2 s := Nat.mul_pos (by decide) (Nat.two_pow_pos s)
  have hfirst : 0x10000000000000 * Nat.pow 2 s * 100000000 ≤ c * unitsPerOne := by omega
  have hlast : c * unitsPerOne < 0x20000000000000 * Nat.pow 2 s * 100000000 := by omega
  have hround : roundHalfEven (c * unitsPerOne) (100000000 * Nat.pow 2 s) = f := by
    apply roundHalfEven_eq_of_lt <;> rw [hself] <;> omega
  rw [nearest_binade (Nat.succ_pos _) (Or.inr hfirst) hlast, hround]

/-- **Where the doubles are closer than `10 ^ -8`,** the double as which `c / 10 ^ 8` is read is
rounded to that number again. -/
theorem roundHalfEven_of_fine {u c : Nat} (hu : u ≤ 0x1FFFFFFFFFFFFF * fineUnit)
    (habove : 2 * (c * unitsPerOne) ≤ 2 * (u * 100000000) + unitsPerOne) :
    nearest c 100000000 < infinity ∧
      roundHalfEven (units (nearest c 100000000) * 100000000) unitsPerOne = c := by
  have hunit := unitsPerOne_eq
  have hpos := fineUnit_pos
  have hlt : c * unitsPerOne < 0x20000000000000 * fineUnit * 100000000 := by omega
  obtain ⟨hfinite, hup, hdown⟩ := nearest_close (by decide) fineExponent_lt hlt
  -- the distance to what was read is below half of a unit of the eighth place
  exact ⟨hfinite, roundHalfEven_eq_of_lt
    (Nat.lt_of_le_of_lt hdown (Nat.add_lt_add_left fineUnit_lt _))
    (Nat.lt_of_le_of_lt hup (Nat.add_lt_add_left fineUnit_lt _))⟩

/-- **What is read for a fraction** is rounded to what was read. -/
theorem roundedTo_reading (hm : m < infinity) (h : ¬ IsWhole m) :
    (roundedTo resultPlaces m).reading < infinity ∧
      roundedTo resultPlaces (roundedTo resultPlaces m).reading = roundedTo resultPlaces m := by
  have hle := roundedTo_le resultPlaces m
  have hge := le_roundedTo resultPlaces m
  obtain ⟨s, f, rfl, hf, hs⟩ := exists_binade m
  rw [units_binade hf hs] at hle hge
  rcases Nat.lt_or_ge (unitExponent - 27) s with hcoarse | hfine
  · have hlow : 0x10000000000000 < f := by
      refine Nat.lt_of_le_of_ne (hs.resolve_left (Nat.ne_of_gt (Nat.zero_lt_of_lt hcoarse))) ?_
      rintro rfl
      exact h (isWhole_of_coarse hcoarse)
    have hunit : 2 * fineUnit ≤ Nat.pow 2 s := by
      rw [fineUnit, ← pow_succ_two]
      exact Nat.pow_le_pow_right (by decide) hcoarse
    have hself : (roundedTo resultPlaces (s * 0x10000000000000 + f)).reading
        = s * 0x10000000000000 + f :=
      (nearest_of_coarse hf hlow hunit hle hge).trans (Nat.min_eq_right (Nat.le_of_lt hm))
    rw [hself]
    exact ⟨hm, rfl⟩
  · have hmul : f * Nat.pow 2 s ≤ 0x1FFFFFFFFFFFFF * fineUnit :=
      Nat.mul_le_mul (Nat.le_of_lt_succ hf) (Nat.pow_le_pow_right (by decide) hfine)
    obtain ⟨hfinite, hround⟩ := roundHalfEven_of_fine hmul hle
    exact ⟨hfinite, congrArg (Decimal.mk · resultPlaces) hround⟩

/-- A fraction is not rounded to more than `2 ^ 52`. -/
theorem coefficient_le_of_not_whole (h : ¬ IsWhole m) :
    (roundedTo resultPlaces m).coefficient ≤ 0x10000000000000 * Nat.pow 10 resultPlaces := by
  have hlt := units_lt_of_not_whole h
  have hle := roundedTo_le resultPlaces m
  have hscale : 0 < Nat.pow 10 resultPlaces := Nat.pow_pos (by decide)
  have hmul : units m * Nat.pow 10 resultPlaces
      < 0x10000000000000 * Nat.pow 10 resultPlaces * unitsPerOne := by
    rw [Nat.mul_right_comm]
    exact Nat.mul_lt_mul_of_pos_right hlt hscale
  refine Nat.le_of_lt_succ (Nat.lt_of_mul_lt_mul_right (a := unitsPerOne) ?_)
  rw [Nat.succ_mul]
  omega

/-! ## Displayed numbers -/

theorem resultDecimal_of_whole (h : IsWhole m) : resultDecimal m = shortest m := if_pos h

theorem resultDecimal_of_not_whole (h : ¬ IsWhole m) :
    resultDecimal m = (roundedTo resultPlaces m).trimmed := if_neg h

theorem reading_of_whole (hpos : 0 < m) (hm : m < infinity) (h : IsWhole m) :
    (resultDecimal m).reading = m := by
  rw [resultDecimal_of_whole h]
  exact nearest_shortest hpos (Nat.le_of_lt hm)

theorem reading_of_not_whole (h : ¬ IsWhole m) :
    (resultDecimal m).reading = (roundedTo resultPlaces m).reading := by
  rw [resultDecimal_of_not_whole h]
  exact Decimal.reading_eq_of_sameValue (Decimal.sameValue_trimmed _)

theorem roundedTo_whole {n q : Nat} (hn : units n = q * unitsPerOne) (places : Nat) :
    roundedTo places n = ⟨q * Nat.pow 10 places, places⟩ := by
  rw [roundedTo, hn, Nat.mul_right_comm, roundHalfEven_mul unitsPerOne_pos]

/-- What is displayed is in the range of the doubles. -/
theorem reading_lt_infinity (hpos : 0 < m) (hm : m < infinity) :
    (resultDecimal m).reading < infinity := by
  by_cases h : IsWhole m
  · rw [reading_of_whole hpos hm h]
    exact hm
  · rw [reading_of_not_whole h]
    exact (roundedTo_reading hm h).1

/-- A whole number that stands for a fraction is displayed with the same digits. -/
theorem resultDecimal_of_roundedTo {n : Nat} (h : ¬ IsWhole m) (hn : IsWhole n)
    (heq : roundedTo resultPlaces n = roundedTo resultPlaces m)
    (hzero : (resultDecimal m).coefficient ≠ 0) : resultDecimal n = resultDecimal m := by
  obtain ⟨q, hq⟩ := exists_of_whole hn
  have hround := roundedTo_whole hq resultPlaces
  have hdisplay : resultDecimal m = ⟨q, 0⟩ := by
    rw [resultDecimal_of_not_whole h, ← heq, hround, Decimal.trimmed_whole]
  have hle := coefficient_le_of_not_whole h
  rw [← heq, hround] at hle
  have hlt : q < 0x20000000000000 :=
    Nat.lt_of_le_of_lt (Nat.le_of_mul_le_mul_right hle (Nat.pow_pos (by decide))) (by decide)
  rw [hdisplay] at hzero ⊢
  rw [resultDecimal_of_whole hn, shortest_whole (Nat.pos_of_ne_zero hzero) hlt hq]

/-- **What is displayed, read and displayed again** is the same, unless it is zero. -/
theorem resultDecimal_reading (hpos : 0 < m) (hm : m < infinity)
    (hzero : (resultDecimal m).coefficient ≠ 0) :
    resultDecimal (resultDecimal m).reading = resultDecimal m := by
  by_cases h : IsWhole m
  · rw [reading_of_whole hpos hm h]
  · have heq := (roundedTo_reading hm h).2
    rw [reading_of_not_whole h]
    by_cases hn : IsWhole (roundedTo resultPlaces m).reading
    · exact resultDecimal_of_roundedTo h hn heq hzero
    · rw [resultDecimal_of_not_whole hn, heq, resultDecimal_of_not_whole h]

/-- Only a fraction is displayed as zero, and then without places. -/
theorem resultDecimal_of_zero (hpos : 0 < m) (hm : m < infinity)
    (hzero : (resultDecimal m).coefficient = 0) : ¬ IsWhole m ∧ resultDecimal m = ⟨0, 0⟩ := by
  have h : ¬ IsWhole m := by
    intro h
    have hreading := reading_of_whole hpos hm h
    rw [Decimal.reading, hzero, nearest_zero] at hreading
    omega
  have hplaces := Decimal.trimmed_places_eq_zero_or (roundedTo resultPlaces m)
  rw [← resultDecimal_of_not_whole h, hzero] at hplaces
  generalize resultDecimal m = d at hzero hplaces
  cases d
  exact ⟨h, congr (congrArg Decimal.mk hzero) (hplaces.resolve_right fun hne ↦ hne rfl)⟩

/-- Only what is displayed as zero is read as zero. -/
theorem reading_ne_zero (hpos : 0 < m) (hm : m < infinity)
    (hzero : (resultDecimal m).coefficient ≠ 0) : (resultDecimal m).reading ≠ 0 := by
  by_cases h : IsWhole m
  · rw [reading_of_whole hpos hm h]
    exact Nat.ne_of_gt hpos
  · intro hreading
    rw [reading_of_not_whole h] at hreading
    have heq := (roundedTo_reading hm h).2
    have hunits : units 0 = 0 * unitsPerOne := (Nat.zero_mul _).symm
    rw [hreading, roundedTo_whole hunits] at heq
    rw [resultDecimal_of_not_whole h, ← heq, Decimal.trimmed_whole] at hzero
    exact hzero rfl

end Double

end Calculator

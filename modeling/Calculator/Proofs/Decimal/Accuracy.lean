import Calculator.Proofs.Decimal.Displayed
import Calculator.Proofs.Decimal.Order

/-!
# How close results are shown, and in which order

`shownDecimal` is the decimal that a finite double is shown as, up to its sign.  It has at most
eight places, and the last of them is not zero (`shownDecimal_places`).  For a fraction it is the
exact value rounded, so it is at most half of the eighth place off (`abs_exact_roundedTo_sub_le`).

Doubles are shown in their order (`exact_shownDecimal_monotone`), although there are two ways to get
at the decimal.  Below `2 ^ 53` there is only one: a whole number there is shown as it is, and
rounding does the same (`exact_shownDecimal_of_lt`).  From there on all doubles are whole numbers.
Their decimals lie between the midpoints to the neighbouring doubles (`shortest_between`), which
keeps them apart from each other, and from everything that is shown of a fraction.
-/

set_option autoImplicit false

namespace Calculator

/-- The decimal that a finite double is shown as, up to its sign. -/
def shownDecimal (m : Nat) : Decimal := if m = 0 then ⟨0, 0⟩ else resultDecimal m

/-! ## Rounding -/

theorem le_roundHalfEven (num den : Nat) : num / den ≤ roundHalfEven num den := by
  simp only [roundHalfEven]
  split_ifs <;> omega

theorem roundHalfEven_le (num den : Nat) : roundHalfEven num den ≤ num / den + 1 := by
  simp only [roundHalfEven]
  split_ifs <;> omega

/-- A larger number is not rounded to a smaller one. -/
theorem roundHalfEven_mono {a b : Nat} (den : Nat) (h : a ≤ b) :
    roundHalfEven a den ≤ roundHalfEven b den := by
  rcases Nat.lt_or_eq_of_le (Nat.div_le_div_right (c := den) h) with hlt | heq
  · exact ((roundHalfEven_le a den).trans hlt).trans (le_roundHalfEven b den)
  · -- the quotients are the same, and the remainders decide
    have hrem : a % den ≤ b % den := by
      have ha := Nat.div_add_mod a den
      have hb := Nat.div_add_mod b den
      rw [heq] at ha
      omega
    simp only [roundHalfEven, heq]
    split_ifs <;> omega

namespace Decimal

/-- The number that a decimal stands for. -/
def exact (d : Decimal) : ℚ := d.coefficient / 10 ^ d.places

theorem exact_eq_of_sameValue {a b : Decimal} (h : SameValue a b) : a.exact = b.exact := by
  rw [exact, exact, div_eq_div_iff (by positivity) (by positivity)]
  exact_mod_cast h

theorem exact_nonneg (d : Decimal) : 0 ≤ d.exact := by
  rw [exact]
  positivity

theorem exact_eq_zero_iff {d : Decimal} : d.exact = 0 ↔ d.coefficient = 0 := by
  rw [exact, div_eq_zero_iff, Nat.cast_eq_zero]
  exact or_iff_left (by positivity)

theorem dropZeros_places_le (coefficient places : Nat) :
    (dropZeros coefficient places).places ≤ places := by
  fun_induction dropZeros coefficient places with
  | case1 => exact Nat.le_refl 0
  | case2 _ _ _ ih => exact Nat.le_succ_of_le ih
  | case3 => exact Nat.le_refl _

end Decimal

namespace Double

variable {m n : Nat}

/-! ## Between the neighbours -/

/-- The midpoint between two doubles, in steps of the grid. -/
theorem midpoint_eq (m n : Nat) :
    (amount m + amount n) / 2
      = ((units m + units n) * Nat.pow 5 unitExponent : Nat) / 2
          / (Nat.pow 10 unitExponent : Nat) := by
  have hone := unitsPerOne_cast_pos
  have hgrid : (0 : ℚ) < (Nat.pow 5 unitExponent : Nat) := Nat.cast_pos.mpr gridUnit_pos
  rw [pow_ten_unitExponent, amount, amount, Nat.cast_mul, Nat.cast_mul, Nat.cast_add]
  field_simp

/-- The shortest decimal, in steps of the grid. -/
theorem exact_shortest (m : Nat) :
    (shortest m).exact
      = ((search m (startExponent m)).1 * Nat.pow 10 (search m (startExponent m)).2 : Nat)
          / (Nat.pow 10 unitExponent : Nat) := by
  have hspec := Decimal.scaled_spec (search m (startExponent m)).1 (search m (startExponent m)).2
    unitExponent
  have hten : (0 : ℚ) < (Nat.pow 10 unitExponent : Nat) :=
    Nat.cast_pos.mpr (Nat.pow_pos (by decide))
  rw [Decimal.exact, div_eq_div_iff (by positivity) (ne_of_gt hten)]
  exact_mod_cast hspec

/-- **The shortest decimal** lies between the midpoints to the neighbouring doubles. -/
theorem shortest_between (h : 0 < m) :
    (amount (m - 1) + amount m) / 2 ≤ (shortest m).exact ∧
      (shortest m).exact ≤ (amount m + amount (m + 1)) / 2 := by
  obtain ⟨hlow, hhigh, -⟩ := readsBack_iff.mp (readsBack_search h (startExponent m))
  rw [exact_shortest, add_comm, midpoint_eq, midpoint_eq]
  generalize (search m (startExponent m)).1 * Nat.pow 10 (search m (startExponent m)).2 = x at *
  have hlow' : (((units m + units (m - 1)) * Nat.pow 5 unitExponent : Nat) : ℚ) ≤ 2 * x :=
    mod_cast hlow
  have hhigh' : (2 * x : ℚ) ≤ ((units m + units (m + 1)) * Nat.pow 5 unitExponent : Nat) :=
    mod_cast hhigh
  exact ⟨div_le_div_of_nonneg_right (by linarith) (Nat.cast_nonneg _),
    div_le_div_of_nonneg_right (by linarith) (Nat.cast_nonneg _)⟩

/-! ## Rounded values -/

theorem exact_roundedTo_mono (places : Nat) (h : m ≤ n) :
    (roundedTo places m).exact ≤ (roundedTo places n).exact := by
  have hunits : units m ≤ units n := by
    rcases Nat.eq_or_lt_of_le h with rfl | hlt
    · exact Nat.le_refl _
    · exact Nat.le_of_lt (units_lt_units hlt)
  have hround := roundHalfEven_mono unitsPerOne (Nat.mul_le_mul_right (Nat.pow 10 places) hunits)
  exact div_le_div_of_nonneg_right (Nat.cast_le.mpr hround) (by positivity)

/-- **A rounded value** is at most half of its last place off. -/
theorem abs_exact_roundedTo_sub_le (places m : Nat) :
    |(roundedTo places m).exact - amount m| ≤ 1 / (2 * 10 ^ places) := by
  have hone := unitsPerOne_cast_pos
  have hplaces : (0 : ℚ) < 10 ^ places := by positivity
  have hle : (2 * ((roundedTo places m).coefficient * unitsPerOne) : ℚ)
      ≤ 2 * (units m * 10 ^ places) + unitsPerOne := mod_cast roundedTo_le places m
  have hge : (2 * (units m * 10 ^ places) : ℚ)
      ≤ 2 * ((roundedTo places m).coefficient * unitsPerOne) + unitsPerOne :=
    mod_cast le_roundedTo places m
  have hdifference : (roundedTo places m).exact - amount m
      = ((roundedTo places m).coefficient * unitsPerOne - 10 ^ places * units m)
          / (10 ^ places * unitsPerOne) :=
    div_sub_div _ _ (ne_of_gt hplaces) (ne_of_gt hone)
  have hhalf : 1 / (2 * 10 ^ places) * (10 ^ places * (unitsPerOne : ℚ)) = unitsPerOne / 2 := by
    field_simp
  rw [hdifference, abs_div, abs_of_pos (mul_pos hplaces hone), div_le_iff₀ (mul_pos hplaces hone),
    hhalf, abs_le]
  constructor <;> linarith

/-- Fractions are not rounded to more than `2 ^ 52`. -/
theorem exact_roundedTo_le (h : ¬ IsWhole m) :
    (roundedTo resultPlaces m).exact ≤ 0x10000000000000 := by
  have hle := coefficient_le_of_not_whole h
  rw [Decimal.exact, div_le_iff₀ (by positivity)]
  exact_mod_cast hle

/-! ## Shown decimals -/

theorem shownDecimal_of_pos (h : 0 < m) : shownDecimal m = resultDecimal m :=
  if_neg (Nat.ne_of_gt h)

theorem pos_of_not_whole (h : ¬ IsWhole m) : 0 < m :=
  Nat.pos_of_ne_zero fun hzero ↦ h (hzero ▸ Nat.zero_mod _)

/-- A whole number is shown without a fraction. -/
theorem places_shownDecimal_of_whole (h : IsWhole m) : (shownDecimal m).places = 0 := by
  rcases Nat.eq_zero_or_pos m with rfl | hpos
  · rfl
  · obtain ⟨q, hq⟩ := exists_of_whole h
    have hqpos : 0 < q := by
      refine Nat.pos_of_ne_zero fun hzero ↦ Nat.ne_of_gt hpos (units_eq_zero_iff.mp ?_)
      rw [hq, hzero, Nat.zero_mul]
    rw [shownDecimal_of_pos hpos, resultDecimal_of_whole h, places_shortest_of_whole hqpos hq]

/-- A whole number is read back from what is shown of it. -/
theorem reading_shownDecimal_of_whole (hm : m < infinity) (h : IsWhole m) :
    (shownDecimal m).reading = m := by
  rcases Nat.eq_zero_or_pos m with rfl | hpos
  · exact nearest_zero _
  · rw [shownDecimal_of_pos hpos, reading_of_whole hpos hm h]

/-- **There are at most eight places,** and the last one is not zero. -/
theorem shownDecimal_places (m : Nat) :
    (shownDecimal m).places ≤ resultPlaces ∧
      ((shownDecimal m).places = 0 ∨ (shownDecimal m).coefficient % 10 ≠ 0) := by
  by_cases h : IsWhole m
  · rw [places_shownDecimal_of_whole h]
    exact ⟨Nat.zero_le _, Or.inl rfl⟩
  · rw [shownDecimal_of_pos (pos_of_not_whole h), resultDecimal_of_not_whole h]
    exact ⟨Decimal.dropZeros_places_le _ _, Decimal.trimmed_places_eq_zero_or _⟩

/-- Dropping zeros does not change what is shown of a fraction. -/
theorem exact_shownDecimal_of_not_whole (h : ¬ IsWhole m) :
    (shownDecimal m).exact = (roundedTo resultPlaces m).exact := by
  rw [shownDecimal_of_pos (pos_of_not_whole h), resultDecimal_of_not_whole h]
  exact Decimal.exact_eq_of_sameValue (Decimal.sameValue_trimmed _)

/-- Below `2 ^ 53`, what is shown is the rounded value, of whole numbers too. -/
theorem exact_shownDecimal_of_lt (hm : units m < 0x20000000000000 * unitsPerOne) :
    (shownDecimal m).exact = (roundedTo resultPlaces m).exact := by
  by_cases h : IsWhole m
  · obtain ⟨q, hq⟩ := exists_of_whole h
    have hshown : shownDecimal m = ⟨q, 0⟩ := by
      rcases Nat.eq_zero_or_pos q with rfl | hqpos
      · rw [Nat.zero_mul, units_eq_zero_iff] at hq
        rw [hq]
        rfl
      · have hlt : q < 0x20000000000000 := Nat.lt_of_mul_lt_mul_right (hq ▸ hm)
        rw [shownDecimal_of_pos (pos_of_whole hqpos hq), resultDecimal_of_whole h,
          shortest_whole hqpos hlt hq]
    rw [hshown, roundedTo_whole hq]
    exact Decimal.exact_eq_of_sameValue (Nat.mul_one _).symm
  · exact exact_shownDecimal_of_not_whole h

/-- What is shown of a whole number is below the midpoint to the next double. -/
theorem exact_shownDecimal_le_of_whole (h : IsWhole m) :
    (shownDecimal m).exact ≤ (amount m + amount (m + 1)) / 2 := by
  rcases Nat.eq_zero_or_pos m with rfl | hpos
  · have hzero : (shownDecimal 0).exact = 0 := Decimal.exact_eq_zero_iff.mpr rfl
    have hfirst := amount_nonneg 0
    have hsecond := amount_nonneg (0 + 1)
    linarith
  · rw [shownDecimal_of_pos hpos, resultDecimal_of_whole h]
    exact (shortest_between hpos).2

/-- **What is shown is in the order of the doubles.** -/
theorem exact_shownDecimal_monotone : Monotone fun m ↦ (shownDecimal m).exact := by
  intro m n hle
  show (shownDecimal m).exact ≤ (shownDecimal n).exact
  rcases Nat.eq_or_lt_of_le hle with rfl | hlt
  · exact le_refl _
  rcases Nat.lt_or_ge (units n) (0x20000000000000 * unitsPerOne) with hn | hn
  · rw [exact_shownDecimal_of_lt hn, exact_shownDecimal_of_lt ((units_lt_units hlt).trans hn)]
    exact exact_roundedTo_mono resultPlaces hle
  · have hpos : 0 < n := Nat.zero_lt_of_lt hlt
    have hwhole : IsWhole n := by
      by_contra h
      have hsmall := units_lt_of_not_whole h
      omega
    have hmono := amount_strictMono.monotone
    obtain ⟨hbelow, -⟩ := shortest_between hpos
    rw [shownDecimal_of_pos hpos, resultDecimal_of_whole hwhole]
    refine le_trans ?_ hbelow
    -- everything that is shown of a smaller double is below the midpoint
    by_cases hm : IsWhole m
    · have habove := exact_shownDecimal_le_of_whole hm
      have hfirst : amount m ≤ amount (n - 1) := hmono (Nat.le_sub_one_of_lt hlt)
      have hsecond : amount (m + 1) ≤ amount n := hmono hlt
      linarith
    · have hrounded := exact_roundedTo_le hm
      have hlarge : 0x20000000000000 ≤ amount n := by
        rw [amount, le_div_iff₀ unitsPerOne_cast_pos]
        exact_mod_cast hn
      have hpred := amount_nonneg (n - 1)
      rw [exact_shownDecimal_of_not_whole hm]
      linarith

end Double

end Calculator

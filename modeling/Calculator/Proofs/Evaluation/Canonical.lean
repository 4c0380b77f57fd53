import Calculator.Proofs.Decimal.Accuracy
import Calculator.Proofs.Evaluation.Redisplay

/-!
# Results are canonical

A result is a numeral with or without a minus in front, and the numeral has one form only: no zero
in front that could be left out, no exponent, and behind the point, if there is one, one to eight
digits that do not end in a zero (`Numeral.IsCanonical`).

What such a text says is a number.  `denoted` reads it off the characters, without rounding, so it
can be compared with the exact value of the double.  The minus is there exactly if that number is
negative.  It is the number that the double stands for up to half of the eighth place, a whole
number is read back as the double itself, and larger doubles do not look smaller
(`resultText_canonical`).
-/

set_option autoImplicit false

namespace Calculator

/-! ## The form of a numeral -/

namespace Numeral

/-- The number that a numeral spells. -/
def exact (n : Numeral) : ℚ := Nat.ofDigitChars 10 n.digits 0 * 10 ^ n.scale

/-- The form in which results are written. -/
structure IsCanonical (n : Numeral) : Prop extends n.WellFormed where
  integer_ne_nil : n.integer ≠ []
  leading : n.integer.head? = some '0' → n.integer = ['0']
  exponent_eq : n.exponent = none
  places : ∀ ds ∈ n.fraction, 1 ≤ ds.length ∧ ds.length ≤ resultPlaces
  last : ∀ ds ∈ n.fraction, ds.getLast? ≠ some '0'

end Numeral

/-- Only zero has a zero for its first digit. -/
theorem eq_zero_of_head_toDigits {n : Nat} (h : (Nat.toDigits 10 n).head? = some '0') :
    n = 0 := by
  induction n using Nat.strong_induction_on with
  | _ n ih =>
    rcases Nat.lt_or_ge n 10 with hlt | hge
    · rw [Nat.toDigits_of_lt_base hlt] at h
      have hchar : (Nat.digitChar n).toNat = 48 := congrArg Char.toNat (Option.some.inj h)
      rw [Nat.toNat_digitChar_of_lt_ten hlt] at hchar
      omega
    · rw [Nat.toDigits_of_base_le (by decide) hge] at h
      rw [List.head?_append_of_ne_nil _ Nat.toDigits_ne_nil] at h
      have hzero := ih (n / 10) (by omega) h
      omega

namespace Decimal

variable {d : Decimal}

theorem leading_integerDigits (h : d.integerDigits.head? = some '0') :
    d.integerDigits = ['0'] := by
  rw [integerDigits, eq_zero_of_head_toDigits h]
  rfl

/-- A fraction that ends in a zero has a coefficient that does. -/
theorem coefficient_of_getLast (hplaces : d.places ≠ 0)
    (h : d.fractionDigits.getLast? = some '0') : d.coefficient % 10 = 0 := by
  obtain ⟨ds, hds⟩ := List.getLast?_eq_some_iff.mp h
  have hdigits : d.numeral.digits = d.integerDigits ++ ds ++ ['0'] := by
    rw [Numeral.digits, numeral, if_neg hplaces, Option.getD_some, hds, List.append_assoc]
  rw [← ofDigitChars_digits, hdigits, Nat.ofDigitChars_append]
  exact Nat.mul_mod_right 10 _

/-- **A decimal is written canonically** if its last place is needed. -/
theorem numeral_isCanonical (hplaces : d.places ≤ resultPlaces)
    (hlast : d.places = 0 ∨ d.coefficient % 10 ≠ 0) : d.numeral.IsCanonical where
  toWellFormed := d.numeral_wellFormed
  integer_ne_nil := Nat.toDigits_ne_nil
  leading := leading_integerDigits
  exponent_eq := rfl
  places ds hds := by
    simp only [numeral] at hds
    split at hds
    · cases hds
    · rename_i hne
      cases hds
      rw [length_fractionDigits hne]
      exact ⟨Nat.pos_of_ne_zero hne, hplaces⟩
  last ds hds hzero := by
    simp only [numeral] at hds
    split at hds
    · cases hds
    · rename_i hne
      cases hds
      exact hlast.resolve_left hne (coefficient_of_getLast hne hzero)

theorem numeral_exact (d : Decimal) : d.numeral.exact = d.exact := by
  rw [Numeral.exact, ofDigitChars_digits, numeral_scale, zpow_neg, zpow_natCast, exact,
    div_eq_mul_inv]

end Decimal

/-! ## What a text denotes -/

/-- The number that a text denotes: the one that the numeral in it spells, or its negative if there
is a minus in front. -/
def denoted : List Char → ℚ
  | '-' :: cs => -(Numeral.scan cs).1.exact
  | cs => (Numeral.scan cs).1.exact

theorem denoted_signed {n : Numeral} (hn : n.WellFormed) (hc : n.isComplete = true)
    (negative : Bool) : denoted (signed negative n.text) = withSign negative n.exact := by
  have hscan : Numeral.scan (n.text ++ []) = (n, []) :=
    Numeral.scan_text_append hn fun c hc ↦ by cases hc
  rw [List.append_nil] at hscan
  cases negative with
  | true =>
    show -(Numeral.scan n.text).1.exact = -n.exact
    rw [hscan]
  | false =>
    obtain ⟨c, cs, htext, hstarts⟩ := Numeral.head_text hn hc
    show denoted n.text = n.exact
    have hdenoted : denoted n.text = (Numeral.scan n.text).1.exact := by
      rw [htext]
      unfold denoted
      split
      · rename_i heq
        cases heq
        exact absurd hstarts (by decide)
      · rfl
    rw [hdenoted, hscan]

/-! ## Results -/

/-- The minus of a result. -/
def showsMinus (x : Float) : Bool :=
  Double.isNegative x && (shownDecimal (Double.magnitude x)).coefficient != 0

variable {x : Float}

/-- What is shown as zero has no minus. -/
theorem showsMinus_of_eq_zero (h : (shownDecimal (Double.magnitude x)).coefficient = 0) :
    showsMinus x = false := by
  rw [showsMinus, h, bne_self_eq_false, Bool.and_false]

theorem showsMinus_of_ne_zero (h : (shownDecimal (Double.magnitude x)).coefficient ≠ 0) :
    showsMinus x = Double.isNegative x := by
  rw [showsMinus, bne_iff_ne.mpr h, Bool.and_true]

theorem showsMinus_of_magnitude (h : Double.magnitude x = 0) : showsMinus x = false :=
  showsMinus_of_eq_zero (by rw [h]; rfl)

/-- A result is the text of a decimal, with or without a minus. -/
theorem resultText_eq (hx : x.isFinite = true) :
    resultText x
      = signed (showsMinus x) (shownDecimal (Double.magnitude x)).numeral.text := by
  rw [Decimal.numeral_text]
  rcases Nat.eq_zero_or_pos (Double.magnitude x) with hzero | hpos
  · rw [resultText_of_zero hzero, showsMinus_of_magnitude hzero, hzero]
    decide
  · rw [resultText_of_ne_zero hx (Nat.ne_of_gt hpos), showsMinus, Double.shownDecimal_of_pos hpos]

theorem denoted_resultText (hx : x.isFinite = true) :
    denoted (resultText x)
      = withSign (Double.isNegative x) (shownDecimal (Double.magnitude x)).exact := by
  rw [resultText_eq hx, denoted_signed (Decimal.numeral_wellFormed _)
    (Decimal.numeral_isComplete _), Decimal.numeral_exact]
  by_cases hzero : (shownDecimal (Double.magnitude x)).coefficient = 0
  · rw [showsMinus_of_eq_zero hzero, Decimal.exact_eq_zero_iff.mpr hzero, withSign_zero,
      withSign_zero]
  · rw [showsMinus_of_ne_zero hzero]

/-- **A minus is shown** exactly in front of what is negative. -/
theorem showsMinus_iff (hx : x.isFinite = true) :
    showsMinus x = true ↔ denoted (resultText x) < 0 := by
  have hnonneg := (shownDecimal (Double.magnitude x)).exact_nonneg
  have hzero := @Decimal.exact_eq_zero_iff (shownDecimal (Double.magnitude x))
  rw [denoted_resultText hx, showsMinus, Bool.and_eq_true, bne_iff_ne, ne_eq, ← hzero]
  cases Double.isNegative x with
  | false => simp [withSign, hnonneg]
  | true => simp [withSign, hnonneg.lt_iff_ne, eq_comm]

/-- **Results are in the order of the numbers.** -/
theorem denoted_mono {y : Float} (hx : x.isFinite = true) (hy : y.isFinite = true) (h : x ≤ y) :
    denoted (resultText x) ≤ denoted (resultText y) := by
  rw [denoted_resultText hx, denoted_resultText hy]
  exact withSign_le_withSign Double.exact_shownDecimal_monotone
    (Decimal.exact_eq_zero_iff.mpr rfl) ((Double.le_iff hx hy).mp h)

/-- **A fraction is shown** to within half of the eighth place. -/
theorem abs_denoted_sub_le (hx : x.isFinite = true) (h : ¬ Double.IsWhole (Double.magnitude x)) :
    |denoted (resultText x) - Double.exact x| ≤ 5 / 10 ^ 9 := by
  have hround := Double.abs_exact_roundedTo_sub_le resultPlaces (Double.magnitude x)
  have hbound : (1 : ℚ) / (2 * 10 ^ resultPlaces) = 5 / 10 ^ 9 := by norm_num [resultPlaces]
  rw [hbound] at hround
  rw [denoted_resultText hx, Double.exact, Double.exact_shownDecimal_of_not_whole h]
  cases Double.isNegative x with
  | false => exact hround
  | true =>
    show |-_ - -_| ≤ _
    rw [neg_sub_neg, abs_sub_comm]
    exact hround

/-! ## Whole numbers -/

/-- The number itself, without the sign of a zero. -/
def unsignedZero (x : Float) : Float := if Double.magnitude x = 0 then 0 else x

/-- Its sign is the one that is shown. -/
theorem unsignedZero_spec (hx : x.isFinite = true) (h : Double.IsWhole (Double.magnitude x)) :
    Double.isNegative (unsignedZero x) = showsMinus x ∧
      Double.magnitude (unsignedZero x) = Double.magnitude x := by
  rw [unsignedZero]
  split
  · rename_i hzero
    obtain ⟨hnegative, hmagnitude⟩ := Double.magnitude_zero
    exact ⟨hnegative.trans (showsMinus_of_magnitude hzero).symm, hmagnitude.trans hzero.symm⟩
  · rename_i hne
    have hpos := Nat.pos_of_ne_zero hne
    have hcoefficient : (shownDecimal (Double.magnitude x)).coefficient ≠ 0 := by
      rw [Double.shownDecimal_of_pos hpos]
      exact fun hzero ↦ (Double.resultDecimal_of_zero hpos (Double.isFinite_iff.mp hx) hzero).1 h
    exact ⟨(showsMinus_of_ne_zero hcoefficient).symm, rfl⟩

/-- **A whole number** is shown without a point and read back as itself. -/
theorem resultText_of_whole (hx : x.isFinite = true) (h : Double.IsWhole (Double.magnitude x)) :
    '.' ∉ resultText x ∧
      withSign (showsMinus x) (shownDecimal (Double.magnitude x)).numeral.value = unsignedZero x ∧
      evaluate (resultText x) = .ok (unsignedZero x) := by
  obtain ⟨hnegative, hmagnitude⟩ := unsignedZero_spec hx h
  have hlt := Double.isFinite_iff.mp hx
  have hw : (unsignedZero x).isFinite = true := Double.isFinite_iff.mpr (hmagnitude ▸ hlt)
  have hreading := (Double.reading_shownDecimal_of_whole hlt h).trans hmagnitude.symm
  rw [resultText_eq hx, ← hnegative]
  refine ⟨fun hpoint ↦ ?_, ?_, ?_⟩
  · have hplaces := Double.places_shownDecimal_of_whole h
    rw [Decimal.numeral_text, Decimal.text, if_pos hplaces] at hpoint
    have hmem : '.' ∈ (shownDecimal (Double.magnitude x)).integerDigits := by
      rw [signed] at hpoint
      split at hpoint
      · exact (List.mem_cons.mp hpoint).resolve_left (by decide)
      · exact hpoint
    exact absurd (Decimal.isDigit_of_mem_integerDigits hmem) (by decide)
  · rw [Numeral.value, Decimal.numeral_magnitude]
    show withSign _ (Double.ofMagnitude (shownDecimal _).reading) = _
    rw [hreading]
    exact (Double.eq_ofMagnitude (Nat.le_of_lt (Double.isFinite_iff.mp hw))).symm
  · rw [Decimal.numeral_text]
    exact evaluate_signed_text hw hreading

/-- Zero is never shown with a minus. -/
theorem resultText_ne_minus_zero (hx : x.isFinite = true) : resultText x ≠ ['-', '0'] := by
  intro h
  have htext : ['-', '0'] = signed true (Decimal.mk 0 0).numeral.text := by decide
  have hzero : denoted ['-', '0'] = 0 := by
    rw [htext, denoted_signed (Decimal.numeral_wellFormed _) (Decimal.numeral_isComplete _),
      Decimal.numeral_exact, Decimal.exact_eq_zero_iff.mpr rfl, withSign_zero]
  have hminus : showsMinus x = false := by
    rw [← Bool.not_eq_true, showsMinus_iff hx, h, hzero]
    exact lt_irrefl 0
  obtain ⟨c, cs, hcons, hstarts⟩ := Numeral.head_text
    (shownDecimal (Double.magnitude x)).numeral_wellFormed (Decimal.numeral_isComplete _)
  rw [resultText_eq hx, hminus, hcons] at h
  cases h
  exact absurd hstarts (by decide)

/-- **Results are canonical and accurate.** -/
theorem resultText_canonical (hx : x.isFinite = true) :
    ∃ (negative : Bool) (n : Numeral), resultText x = signed negative n.text ∧ n.IsCanonical ∧
      resultText x ≠ ['-', '0'] ∧
      (negative = true ↔ denoted (resultText x) < 0) ∧
      (Double.IsWhole (Double.magnitude x) →
        '.' ∉ resultText x ∧ withSign negative n.value = unsignedZero x ∧
          evaluate (resultText x) = .ok (unsignedZero x)) ∧
      (¬ Double.IsWhole (Double.magnitude x) →
        |denoted (resultText x) - Double.exact x| ≤ 5 / 10 ^ 9) ∧
      ∀ y : Float, y.isFinite = true → x ≤ y →
        denoted (resultText x) ≤ denoted (resultText y) := by
  obtain ⟨hplaces, hlast⟩ := Double.shownDecimal_places (Double.magnitude x)
  exact ⟨showsMinus x, _, resultText_eq hx, Decimal.numeral_isCanonical hplaces hlast,
    resultText_ne_minus_zero hx, showsMinus_iff hx, resultText_of_whole hx, abs_denoted_sub_le hx,
    fun _ hy hle ↦ denoted_mono hx hy hle⟩

/-- A negative fraction that is too small to be shown loses its minus. -/
theorem resultText_canonical_vanishing :
    let x : Float := -0.000000004
    x.isFinite = true ∧ resultText x = ['0'] ∧
      ∃ (negative : Bool) (n : Numeral), resultText x = signed negative n.text ∧ n.IsCanonical ∧
        resultText x ≠ ['-', '0'] ∧
        (negative = true ↔ denoted (resultText x) < 0) ∧
        (Double.IsWhole (Double.magnitude x) →
          '.' ∉ resultText x ∧ withSign negative n.value = unsignedZero x ∧
            evaluate (resultText x) = .ok (unsignedZero x)) ∧
        (¬ Double.IsWhole (Double.magnitude x) →
          |denoted (resultText x) - Double.exact x| ≤ 5 / 10 ^ 9) ∧
        ∀ y : Float, y.isFinite = true → x ≤ y →
          denoted (resultText x) ≤ denoted (resultText y) := by
  have hfinite : Float.isFinite (-0.000000004) = true := by decide +kernel
  exact ⟨hfinite, by decide +kernel, resultText_canonical hfinite⟩

end Calculator

import Calculator.Proofs.Decimal.Displayed
import Calculator.Proofs.Evaluation.Accepted
import Calculator.Proofs.Evaluation.Spacing
import Calculator.Proofs.Language.Passes

/-!
# A displayed result is an expression

A result can be typed in again as it is displayed.  The separators in it are dropped, no pass
changes anything in the text of a number, and what is left spells the number or the number behind a
minus; so the value is the double that the displayed decimal is read as (`evaluate_signed_text`).

That double need not be the result, because fractions are displayed rounded, but it is displayed in
the same way, and a whole number is not changed at all (`evaluate_resultText`).
-/

set_option autoImplicit false

namespace Calculator

/-! ## Texts of decimals -/

/-- A text of tokens without blanks is in the arithmetic language already. -/
theorem reduce_of_spells {u : List Char} {ts : List Token} (h : Token.Spells u ts)
    (hblank : ∀ c ∈ u, Text.isBlank c = false) : reduce u = .ok u := by
  have hnormal : normalize u = u :=
    normalize_of_isTokenChar fun c hc ↦ ⟨Token.isTokenChar_of_spells h c hc, hblank c hc⟩
  rw [reduce_eq_resolve, hnormal, (inert_of_spells h).resolve_eq]

/-- **The value of a decimal's text,** with or without a minus, is the double that the decimal is
read as. -/
theorem evaluate_signed_text {w : Float} {d : Decimal} (hw : w.isFinite = true)
    (hd : d.reading = Double.magnitude w) :
    evaluate (signed (Double.isNegative w) d.text) = .ok w := by
  have hspells := Token.spells_signed d.numeral_wellFormed d.numeral_isComplete
    (Nat.le_of_lt (Double.isFinite_iff.mp hw)) (d.numeral_magnitude.trans hd)
  have hblank : ∀ c ∈ signed (Double.isNegative w) d.numeral.text, Text.isBlank c = false := by
    have hnumeral := Token.isBlank_of_mem_text d.numeral_wellFormed
    rw [signed]
    split
    · exact List.forall_mem_cons.mpr ⟨by decide, hnumeral⟩
    · exact hnumeral
  have hreduce := reduce_of_spells hspells hblank
  rw [d.numeral_text] at hspells hreduce
  rw [evaluate_of_reduce hreduce hspells (Expr.ofFloat_wellFormed w).2, Expr.value_ofFloat]
  exact finiteValue_eq_ok_iff.mpr ⟨rfl, hw⟩

/-! ## Results -/

/-- What is displayed of `x` is the text of a decimal that is read as `w`. -/
def ShownAs (x w : Float) : Prop :=
  ∃ d : Decimal, d.reading = Double.magnitude w ∧
    resultText x = signed (Double.isNegative w) d.text

theorem ShownAs.evaluate_eq {x w : Float} (h : ShownAs x w) (hw : w.isFinite = true) :
    evaluate (resultText x) = .ok w := by
  obtain ⟨d, hd, htext⟩ := h
  rw [htext]
  exact evaluate_signed_text hw hd

variable {x : Float}

theorem resultText_of_zero (h : Double.magnitude x = 0) : resultText x = ['0'] := by
  simp only [resultText, h]
  rfl

/-- Zero has no sign, and neither has what is rounded to it. -/
theorem evaluate_of_shown_zero (h : resultText x = ['0']) :
    evaluate (resultText x) = .ok 0 ∧ resultText 0 = resultText x := by
  obtain ⟨hnegative, hmagnitude⟩ := Double.magnitude_zero
  have hfinite : (0 : Float).isFinite = true :=
    Double.isFinite_iff.mpr (hmagnitude ▸ by decide)
  have hshown : ShownAs x 0 := by
    refine ⟨⟨0, 0⟩, (Double.nearest_zero _).trans hmagnitude.symm, ?_⟩
    rw [h, hnegative]
    decide
  exact ⟨hshown.evaluate_eq hfinite, (resultText_of_zero hmagnitude).trans h.symm⟩

theorem resultText_of_ne_zero (hx : x.isFinite = true) (hm : Double.magnitude x ≠ 0) :
    resultText x
      = signed (Double.isNegative x && (resultDecimal (Double.magnitude x)).coefficient != 0)
          (resultDecimal (Double.magnitude x)).text := by
  have hlt := Double.isFinite_iff.mp hx
  simp only [resultText]
  rw [if_neg (Nat.not_le.mpr hlt), if_neg hm]

theorem resultText_of_coefficient (hx : x.isFinite = true) (hm : Double.magnitude x ≠ 0)
    (h : (resultDecimal (Double.magnitude x)).coefficient ≠ 0) :
    resultText x
      = signed (Double.isNegative x) (resultDecimal (Double.magnitude x)).text := by
  rw [resultText_of_ne_zero hx hm, bne_iff_ne.mpr h, Bool.and_true]

/-- A result that is not displayed as zero keeps its sign and is displayed as what is read. -/
theorem exists_shownAs (hx : x.isFinite = true) (hm : Double.magnitude x ≠ 0)
    (h : (resultDecimal (Double.magnitude x)).coefficient ≠ 0) :
    ∃ w : Float, w.isFinite = true ∧ ShownAs x w ∧ resultText w = resultText x ∧
      (Double.IsWhole (Double.magnitude x) → w = x) := by
  have hpos := Nat.pos_of_ne_zero hm
  have hlt := Double.isFinite_iff.mp hx
  have hreading := Double.reading_lt_infinity hpos hlt
  have hsame := Double.resultDecimal_reading hpos hlt h
  obtain ⟨w, hnegative, hmagnitude⟩ :=
    Double.exists_float (Double.isNegative x) (Nat.le_of_lt hreading)
  have hw : w.isFinite = true := Double.isFinite_iff.mpr (hmagnitude ▸ hreading)
  have hdecimal : resultDecimal (Double.magnitude w) = resultDecimal (Double.magnitude x) := by
    rw [hmagnitude, hsame]
  have htext := resultText_of_coefficient hx hm h
  refine ⟨w, hw, ⟨_, hmagnitude.symm, hnegative ▸ htext⟩, ?_, fun hwhole ↦ ?_⟩
  · have hne : Double.magnitude w ≠ 0 := hmagnitude ▸ Double.reading_ne_zero hpos hlt h
    rw [resultText_of_coefficient hw hne (hdecimal ▸ h), hdecimal, hnegative, htext]
  · rw [Double.reading_of_whole hpos hlt hwhole] at hmagnitude
    exact Double.eq_of_magnitude hnegative hmagnitude

/-- **A displayed result can be typed in again.**  It has a value, which is displayed in the same
way, and the value of a whole number is that number, without the sign of a zero. -/
theorem evaluate_resultText (hx : x.isFinite = true) :
    ∃ w : Float, evaluate (Text.applyGrouping (resultText x)) = .ok w ∧
      resultText w = resultText x ∧
      (Double.IsWhole (Double.magnitude x) → w = if Double.magnitude x = 0 then 0 else x) := by
  rw [evaluate_applyGrouping]
  by_cases hm : Double.magnitude x = 0
  · obtain ⟨hvalue, hsame⟩ := evaluate_of_shown_zero (resultText_of_zero hm)
    exact ⟨0, hvalue, hsame, fun _ ↦ (if_pos hm).symm⟩
  by_cases hcoefficient : (resultDecimal (Double.magnitude x)).coefficient = 0
  · -- a fraction that is rounded to zero
    obtain ⟨hfraction, hd⟩ := Double.resultDecimal_of_zero (Nat.pos_of_ne_zero hm)
      (Double.isFinite_iff.mp hx) hcoefficient
    have htext : resultText x = ['0'] := by
      rw [resultText_of_ne_zero hx hm, hd, bne_self_eq_false, Bool.and_false]
      decide
    obtain ⟨hvalue, hsame⟩ := evaluate_of_shown_zero htext
    exact ⟨0, hvalue, hsame, fun hwhole ↦ absurd hwhole hfraction⟩
  · obtain ⟨w, hw, hshown, hsame, hwhole⟩ := exists_shownAs hx hm hcoefficient
    exact ⟨w, hshown.evaluate_eq hw, hsame, fun h ↦ (hwhole h).trans (if_neg hm).symm⟩

/-- A fraction right below a whole number is displayed as that number. -/
theorem evaluate_resultText_carried :
    let x : Float := 1999.9999999999998
    x.isFinite = true ∧ Text.applyGrouping (resultText x) = ['2', ',', '0', '0', '0'] ∧
      ∃ w : Float, evaluate (Text.applyGrouping (resultText x)) = .ok w ∧
        resultText w = resultText x ∧
        (Double.IsWhole (Double.magnitude x) → w = if Double.magnitude x = 0 then 0 else x) := by
  have hfinite : Float.isFinite 1999.9999999999998 = true := by decide +kernel
  exact ⟨hfinite, by decide +kernel, evaluate_resultText hfinite⟩

end Calculator

import Calculator.Proofs.Dialog.Independence
import Calculator.Proofs.Evaluation.Causes
import Calculator.Proofs.Evaluation.Spacing

/-!
# Typing what is shown

The line being typed is shown with its thousands separated.  Whoever types what is shown types other
characters than the line has, but the same expression, since grouping changes none of the characters
that mean something.  So the outcome is the same but for the text of the expression, and the same
result is left (`calculate_retyped`).

There is one exception.  Whether a line is calculated at all is decided on its characters as they
are, and there a separator counts as something typed: a line with nothing in it but separators and
blanks fails.  In what is shown these separators are gone, and nothing comes of the blank line that
is left.  In what is shown, then, to be blank is the same as to have no expression
(`allBlank_applyGrouping_iff`).
-/

set_option autoImplicit false

namespace Calculator

/-! ## Blank lines -/

namespace Text

/-- A separator is put behind digits only, and these are not blank. -/
theorem allBlank_insertSeparators (inFraction : Bool) (cs : List Char) :
    allBlank (insertSeparators inFraction cs) = allBlank cs := by
  have hdigit {c : Char} (hc : c.isDigit = true) : isBlank c = false :=
    Token.isBlank_of_starts (Numeral.starts_of_isDigit hc)
  fun_induction insertSeparators inFraction cs with
  | case1 => rfl
  | case2 _ c cs hc => simp [allBlank, hdigit hc]
  | case3 _ c cs hc => simp [allBlank, hdigit hc]
  | case4 _ c cs _ ih =>
    rw [allBlank, allBlank] at ih
    rw [allBlank, allBlank, List.all_cons, List.all_cons, ih]

/-- What is shown is blank exactly if there is no expression in the text. -/
theorem allBlank_applyGrouping_iff {cs : List Char} :
    allBlank (applyGrouping cs) = true ↔ normalize cs = [] := by
  rw [applyGrouping, allBlank_insertSeparators, normalize_eq_nil_iff, allBlank_iff]
  simp only [strip, List.mem_filter, isIgnored, Bool.or_eq_true, bne_iff_ne, beq_iff_eq]
  constructor
  · intro h c hc
    by_cases hseparator : c = separator
    · exact Or.inr hseparator
    · exact Or.inl (h c ⟨hc, hseparator⟩)
  · rintro h c ⟨hc, hne⟩
    exact (h c hc).resolve_right hne

/-- There are separators in the text, and blanks perhaps, but nothing else. -/
def OnlySeparators (cs : List Char) : Prop := separator ∈ cs ∧ ∀ c ∈ cs, isIgnored c = true

theorem OnlySeparators.not_allBlank {cs : List Char} (h : OnlySeparators cs) :
    allBlank cs = false :=
  Bool.eq_false_iff.mpr fun hblank ↦ absurd (allBlank_iff.mp hblank _ h.1) (by decide)

/-- All other texts are blank exactly if they are shown blank. -/
theorem allBlank_applyGrouping {cs : List Char} (h : ¬ OnlySeparators cs) :
    allBlank (applyGrouping cs) = allBlank cs := by
  rw [Bool.eq_iff_iff, allBlank_applyGrouping_iff, normalize_eq_nil_iff, allBlank_iff]
  constructor
  · intro hignored c hc
    refine (Bool.or_eq_true_iff.mp (hignored c hc)).resolve_right fun hseparator ↦ ?_
    exact h ⟨beq_iff_eq.mp hseparator ▸ hc, hignored⟩
  · exact fun hblank c hc ↦ Bool.or_eq_true_iff.mpr (Or.inl (hblank c hc))

end Text

/-! ## Outcomes -/

/-- Two outcomes that differ in nothing but the texts of their expressions. -/
structure Outcome.Alike (o p : Outcome) : Prop where
  isSuccess : o.isSuccess = p.isSuccess
  value? : o.value? = p.value?
  result? : o.result? = p.result?
  display : o.display = p.display

theorem none_iff_of_alike {o p : Option Outcome} (h : Option.Rel Outcome.Alike o p) :
    o = none ↔ p = none := by
  cases h <;> simp

/-- Lines with the same value, or with none, have outcomes alike. -/
theorem calculate_alike (marker : String) {x y : String}
    (hblank : Text.allBlank x.toList = Text.allBlank y.toList)
    (hvalue : evaluate x.toList = evaluate y.toList) :
    Option.Rel Outcome.Alike (calculate marker x) (calculate marker y) := by
  rw [calculate, calculate, hblank, hvalue]
  split
  · exact .none
  · split <;> exact .some ⟨rfl, rfl, rfl, rfl⟩

namespace Session

variable {σ : Type} [StateStore σ]

/-- What becomes of a result after an outcome. -/
theorem result_calculate (s : Session σ) (now : Moment) :
    (s.calculate now).2.result
      = ((s.calculate now).1.map fun o ↦ o.result?.getD o.display).getD s.result := by
  rw [calculate]
  split <;> rfl

omit [StateStore σ] in
theorem toList_displayInput (s : Session σ) :
    s.displayInput.toList = Text.applyGrouping s.input.toList :=
  String.toList_ofList

/-- Lines with outcomes alike leave the same result. -/
theorem result_of_alike {s t : Session σ} {now later : Moment}
    (h : Option.Rel Outcome.Alike (t.calculate later).1 (s.calculate now).1)
    (hresult : t.result = s.result) :
    (t.calculate later).2.result = (s.calculate now).2.result := by
  rw [result_calculate, result_calculate]
  generalize (t.calculate later).1 = o, (s.calculate now).1 = p at h
  cases h with
  | none => exact hresult
  | some halike => simp [halike.result?, halike.display]

/-- **Typing what is shown** makes no difference, except for lines of separators and blanks.  The
line and what is shown of it are calculated both or neither; they succeed or fail alike, with the
same value and result, which is displayed in the same way; and the same result is left.  A line of
separators fails and what is shown of it is not calculated.  What is shown is blank if there is no
expression in the line, or just as well in what is shown. -/
theorem calculate_retyped (s : Session σ) (now later : Moment) :
    let retyped := s.setInput s.displayInput
    (¬ Text.OnlySeparators s.input.toList →
      ((retyped.calculate later).1 = none ↔ (s.calculate now).1 = none) ∧
      Option.Rel Outcome.Alike (retyped.calculate later).1 (s.calculate now).1 ∧
      (retyped.calculate later).2.result = (s.calculate now).2.result) ∧
    (Text.OnlySeparators s.input.toList →
      s.calculate now = (some (.failure s.input s.config.errorMarker),
        { s with result := s.config.errorMarker }) ∧
      retyped.calculate later = (none, retyped)) ∧
    (Text.allBlank s.displayInput.toList = true ↔ normalize s.input.toList = []) ∧
    normalize s.displayInput.toList = normalize s.input.toList := by
  intro retyped
  have hinput : retyped.input.toList = Text.applyGrouping s.input.toList := s.toList_displayInput
  refine ⟨fun h ↦ ?_, fun h ↦ ?_, ?_, ?_⟩
  · have halike : Option.Rel Outcome.Alike (retyped.calculate later).1 (s.calculate now).1 := by
      rw [fst_calculate, fst_calculate]
      refine calculate_alike _ ?_ ?_
      · rw [hinput, Text.allBlank_applyGrouping h]
      · rw [hinput, evaluate_applyGrouping]
    exact ⟨none_iff_of_alike halike, halike, result_of_alike halike rfl⟩
  · have hempty : evaluate s.input.toList = .error (.arithmetic .empty) :=
      evaluate_eq_empty_iff.mpr h.2
    have hshown : Text.allBlank retyped.input.toList = true := by
      rw [hinput, Text.allBlank_applyGrouping_iff, normalize_eq_nil_iff]
      exact h.2
    have htyped : Calculator.calculate s.config.errorMarker s.input
        = some (.failure s.input s.config.errorMarker) := by
      rw [Calculator.calculate, h.not_allBlank, hempty, if_neg Bool.false_ne_true]
    have hnothing : Calculator.calculate retyped.config.errorMarker retyped.input = none :=
      calculate_eq_none_iff.mpr hshown
    rw [calculate, htyped, calculate, hnothing]
    exact ⟨rfl, rfl⟩
  · rw [toList_displayInput, Text.allBlank_applyGrouping_iff]
  · rw [toList_displayInput, ← normalize_significant, significant_applyGrouping,
      normalize_significant]

/-- A blank and a separator in odd places, and a line of nothing else. -/
theorem calculate_retyped_spaced :
    let now : Moment := ⟨2026, 1, 2, 3, 4, 5, 0, 0⟩
    let s := (start (MemoryStore.mk .empty) Config.default).setInput "1000\u00a0+ ,1"
    let separators := s.setInput " ,\t"
    ¬ Text.OnlySeparators s.input.toList ∧ s.displayInput = "1,000\u00a0+ 1" ∧
      (s.calculate now).1 = some (.success "1000\u00a0+ ,1" 1001 "1001") ∧
      Option.Rel Outcome.Alike ((s.setInput s.displayInput).calculate now).1 (s.calculate now).1 ∧
      ((s.setInput s.displayInput).calculate now).2.result = (s.calculate now).2.result ∧
      Text.OnlySeparators separators.input.toList ∧
      (separators.calculate now).1 = some (.failure " ,\t" "Error") := by
  intro now s separators
  have hs : ¬ Text.OnlySeparators s.input.toList := fun h ↦
    absurd (h.2 '1' (by decide)) (by decide)
  have hseparators : Text.OnlySeparators separators.input.toList :=
    ⟨by decide, List.all_eq_true.mp (by decide +kernel)⟩
  obtain ⟨-, halike, hresult⟩ := (calculate_retyped s now now).1 hs
  have hfails := ((calculate_retyped separators now now).2.1 hseparators).1
  refine ⟨hs, by decide +kernel, by decide +kernel, halike, hresult, hseparators, ?_⟩
  rw [hfails]
  rfl

/-- A separator alone fails, but nothing comes of what is shown of it. -/
theorem calculate_separator_vanishes :
    let now : Moment := ⟨2026, 1, 2, 3, 4, 5, 0, 0⟩
    let s := (start (MemoryStore.mk .empty) Config.default).setInput ","
    let retyped := s.setInput s.displayInput
    ((s.calculate now).1 = some (.failure "," "Error") ∧ (s.calculate now).2.result = "Error") ∧
      (s.displayInput = "" ∧ (retyped.calculate now).1 = none ∧
        (retyped.calculate now).2.result = "") ∧
      ¬ ((retyped.calculate now).1 = none ↔ (s.calculate now).1 = none) ∧
      (retyped.calculate now).2.result ≠ (s.calculate now).2.result := by
  decide +kernel

end Session

end Calculator

import Calculator.CommandLine.Report
import Calculator.Proofs.Evaluation.Outcomes

/-!
# What is shown after a calculation

A session keeps the text of its result, but not whether it is that of a success: a result is taken
for a failure if it is the error marker.  An outcome knows better, and a single calculation is
reported from its outcome.  Still a session shows the outcome that it has computed
(`calculate_shows`), unless the marker is chosen badly (`calculate_misleads`).

A marker may be a text that calculations can result in.  A success with just this text cannot be
told from a failure afterwards.  What is shown is then still the text of the outcome, as far as
there are no thousands to separate in it, but the style can be wrong.

A marker may also be empty.  A failure then leaves an empty result, for which there is no line.
-/

set_option autoImplicit false

namespace Calculator

namespace Outcome

/-- The role that an outcome plays on the screen. -/
def role : Outcome → Role
  | success _ _ _ => .result
  | failure _ _ => .error

/-- A success whose text is the error marker. -/
def Resembles (o : Outcome) (marker : String) : Prop := o.result? = some marker

end Outcome

namespace Session

variable {σ : Type} [StateStore σ] {s t : Session σ}

/-! ## Results and lines -/

omit [StateStore σ] in
theorem showsError_eq (s : Session σ) :
    s.showsError = decide (s.result = s.config.errorMarker) := by
  rw [showsError, Bool.beq_eq_decide_eq]

omit [StateStore σ] in
theorem displayResult_of_eq (h : s.result = s.config.errorMarker) :
    s.displayResult = s.config.errorMarker := by
  rw [displayResult, showsError_eq, h, decide_eq_true rfl, if_pos rfl]

omit [StateStore σ] in
theorem displayResult_of_ne (h : s.result ≠ s.config.errorMarker) :
    s.displayResult = Text.grouped s.result := by
  rw [displayResult, showsError_eq, decide_eq_false h, if_neg Bool.false_ne_true]

theorem resultLine_of_ne (h : s.result ≠ "") (p : Palette) :
    s.resultLine p
      = some (p.paint (if s.showsError then .error else .result) ("= " ++ s.displayResult)) :=
  if_neg h

/-! ## Calculations -/

/-- The result is the text of a success, which is not empty, or the marker. -/
theorem calculate_cases {now : Moment} {outcome : Outcome}
    (h : s.calculate now = (some outcome, t)) :
    t.config = s.config ∧
      ((∃ value, outcome = .success s.input value t.result ∧ t.result ≠ "") ∨
        outcome = .failure s.input t.result ∧ t.result = s.config.errorMarker) := by
  rw [calculate] at h
  split at h
  · cases h
  · rename_i expression value result hsuccess
    obtain ⟨-, -, rfl, rfl⟩ := calculate_eq_success_iff.mp hsuccess
    cases h
    refine ⟨rfl, .inl ⟨value, rfl, fun hempty ↦ resultText_ne_nil value ?_⟩⟩
    exact String.ofList_eq_empty_iff.mp hempty
  · rename_i expression marker hfailure
    obtain ⟨rfl, rfl⟩ := calculate_eq_failure hfailure
    cases h
    exact ⟨rfl, .inr ⟨rfl, rfl⟩⟩

/-- **A session shows the outcome of a calculation**, as it is reported of a single one: the same
text, in the style of a success or a failure.  It may fail to do so for a success that looks like
the marker, and there is no line for a failure if the marker is empty. -/
theorem calculate_shows {now : Moment} {outcome : Outcome}
    (h : s.calculate now = (some outcome, t)) :
    (s.evaluateOnce now s.input).1.output = outcome.display ++ "\n" ∧
    ((outcome.Resembles s.config.errorMarker →
        Text.grouped s.config.errorMarker = s.config.errorMarker) →
      t.displayResult = outcome.display) ∧
    ∀ p : Palette,
      if outcome = .failure s.input "" then t.resultLine p = none
      else ∃ role, t.resultLine p = some (p.paint role ("= " ++ t.displayResult)) ∧
        (¬ outcome.Resembles s.config.errorMarker → role = outcome.role) := by
  have honce : (s.evaluateOnce now s.input).1 = .ofOutcome outcome := by
    show Report.ofOutcome? (s.calculate now).1 = _
    rw [h]
    rfl
  refine ⟨congrArg Report.output honce, ?_⟩
  obtain ⟨hconfig, ⟨value, rfl, hne⟩ | ⟨rfl, hmarker⟩⟩ := calculate_cases h
  · rw [← hconfig]
    by_cases hmarker : t.result = t.config.errorMarker
    · refine ⟨fun hgrouped ↦ ?_, fun p ↦ ?_⟩
      · rw [displayResult_of_eq hmarker, Outcome.display, hmarker]
        exact (hgrouped (congrArg some hmarker)).symm
      · rw [if_neg Outcome.noConfusion, resultLine_of_ne hne]
        exact ⟨_, rfl, fun hother ↦ absurd (congrArg some hmarker) hother⟩
    · refine ⟨fun _ ↦ displayResult_of_ne hmarker, fun p ↦ ?_⟩
      rw [if_neg Outcome.noConfusion, resultLine_of_ne hne, showsError_eq, decide_eq_false hmarker]
      exact ⟨_, rfl, fun _ ↦ rfl⟩
  · rw [← hconfig] at hmarker ⊢
    refine ⟨fun _ ↦ (displayResult_of_eq hmarker).trans hmarker.symm, fun p ↦ ?_⟩
    by_cases hempty : t.result = ""
    · rw [if_pos (congrArg _ hempty)]
      exact if_pos hempty
    · rw [if_neg fun he ↦ hempty (Outcome.failure.inj he).2, resultLine_of_ne hempty, showsError_eq,
        decide_eq_true hmarker]
      exact ⟨_, rfl, fun _ ↦ rfl⟩

/-- A success and a failure under the usual marker. -/
theorem calculate_shows_usually :
    let now : Moment := ⟨2026, 1, 2, 3, 4, 5, 0, 0⟩
    let s := (start (MemoryStore.mk .empty) Config.default).setInput "500×2.5"
    let failing := (start (MemoryStore.mk .empty) Config.default).setInput "1÷0"
    (s.calculate now).1 = some (.success "500×2.5" 1250 "1250") ∧
      (s.calculate now).2.displayResult = "1,250" ∧
      (∀ p : Palette,
        (s.calculate now).2.resultLine p = some (p.paint .result ("= " ++ "1,250"))) ∧
      (failing.calculate now).1 = some (.failure "1÷0" "Error") ∧
      (failing.calculate now).2.displayResult = "Error" := by
  intro now s failing
  have hsuccess : (s.calculate now).1 = some (.success "500×2.5" 1250 "1250") := by decide +kernel
  have hfailure : (failing.calculate now).1 = some (.failure "1÷0" "Error") := by decide +kernel
  have hplain : ¬ (Outcome.success "500×2.5" 1250 "1250").Resembles "Error" := fun h ↦
    absurd (Option.some.inj h) (by decide)
  obtain ⟨-, hdisplay, hline⟩ := calculate_shows (Prod.ext hsuccess rfl : s.calculate now = (_, _))
  obtain ⟨-, hmarker, -⟩ :=
    calculate_shows (Prod.ext hfailure rfl : failing.calculate now = (_, _))
  have hshown : (s.calculate now).2.displayResult = "1,250" :=
    (hdisplay fun h ↦ absurd h hplain).trans (by decide +kernel)
  refine ⟨hsuccess, hshown, fun p ↦ ?_, hfailure, hmarker fun h ↦ by cases h⟩
  have hp := hline p
  rw [if_neg Outcome.noConfusion, hshown] at hp
  obtain ⟨role, hrole, hstyle⟩ := hp
  rw [hrole, hstyle hplain, Outcome.role]

/-- A marker that is the text of a result, and an empty one. -/
theorem calculate_misleads :
    let now : Moment := ⟨2026, 1, 2, 3, 4, 5, 0, 0⟩
    let mistaken := (start (MemoryStore.mk .empty)
      { Config.default with errorMarker := "1000" }).setInput "500+500"
    let speechless := (start (MemoryStore.mk .empty)
      { Config.default with errorMarker := "" }).setInput "1/0"
    let p : Palette := ⟨.dark, true⟩
    ((mistaken.calculate now).1 = some (.success "500+500" 1000 "1000") ∧
      (Outcome.success "500+500" 1000 "1000").display = "1,000" ∧
      (mistaken.calculate now).2.displayResult = "1000" ∧
      (mistaken.calculate now).2.resultLine p = some (p.paint .error "= 1000") ∧
      (mistaken.calculate now).2.resultLine p ≠ some (p.paint .result "= 1,000")) ∧
    ((speechless.calculate now).1 = some (.failure "1/0" "") ∧
      (speechless.calculate now).2.resultLine p = none) := by
  decide +kernel

end Session

end Calculator

import Calculator.Proofs.Dialog.Independence
import Calculator.Session.Action

/-!
# Calculations that come to nothing

A calculation is fruitless if the line is blank or has no value.  Nothing comes of it but the marker
in the place of the result, and the result is what nothing depends on: no action looks at it, and
nothing of it is stored.  So fruitless calculations can be left out of whatever is done with a
session, and the same is answered and the same remains, the result apart
(`fruitless_leave_no_trace`).

This is a statement about two runs, the one that was made and the one without its fruitless steps.
It is proved for the runs from two sessions that differ in their results, because a fruitless step
is where the results part.

What is left out takes time with it.  The steps that remain may be made at other moments, which does
not show if timestamps do not tell the moment.
-/

set_option autoImplicit false

namespace Calculator

/-- The action at another moment, if it is one that takes note of the moment. -/
def Action.atMoment (now : Moment) : Action → Action
  | .calculate _ => .calculate now
  | a => a

/-- The answer to a calculation that came to nothing. -/
def Answer.isFruitless : Answer → Bool
  | .outcome none => true
  | .outcome (some o) => !o.isSuccess
  | _ => false

namespace Session

variable {σ : Type} [StateStore σ] {s : Session σ}

/-- What is done one after the other, each with the answer to it. -/
def log (s : Session σ) : List Action → List (Action × Answer)
  | [] => []
  | a :: as => (a, (s.perform a).1) :: log (s.perform a).2 as

/-- What is left of it without the calculations that came to nothing. -/
def fruitful (s : Session σ) (actions : List Action) : List (Action × Answer) :=
  (s.log actions).filter fun step ↦ !step.2.isFruitless

theorem fruitful_cons_of_fruitless {a : Action} (h : (s.perform a).1.isFruitless = true)
    (as : List Action) : s.fruitful (a :: as) = (s.perform a).2.fruitful as := by
  simp [fruitful, log, h]

theorem fruitful_cons_of_not {a : Action} (h : ¬ (s.perform a).1.isFruitless = true)
    (as : List Action) :
    s.fruitful (a :: as) = (a, (s.perform a).1) :: (s.perform a).2.fruitful as := by
  simp [fruitful, log, h]

/-! ## The result -/

/-- The session with another result. -/
def withResult (s : Session σ) (result : String) : Session σ := { s with result }

/-- **No action looks at the result.** -/
theorem perform_withResult (s : Session σ) (result : String) (a : Action) :
    ∃ later, (s.withResult result).perform a
      = ((s.perform a).1, (s.perform a).2.withResult later) := by
  cases a with
  | calculate now =>
    have hinput : (s.withResult result).input = s.input := rfl
    have hconfig : (s.withResult result).config = s.config := rfl
    simp only [perform, calculate, hinput, hconfig]
    split
    · exact ⟨result, rfl⟩
    · exact ⟨_, rfl⟩
    · exact ⟨_, rfl⟩
  | revisit index =>
    have hhistory : (s.withResult result).history = s.history := rfl
    simp only [perform, revisit, hhistory]
    split
    · exact ⟨result, rfl⟩
    · exact ⟨_, rfl⟩
  | clearInput => exact ⟨"", rfl⟩
  | append _ | setInput _ | backspace | toggleHistory | clearHistory | toggleTheme =>
    exact ⟨result, rfl⟩

/-- A calculation that comes to nothing changes the result at most. -/
theorem perform_of_fruitless {a : Action} (h : (s.perform a).1.isFruitless = true) :
    ∃ later, (s.perform a).2 = s.withResult later := by
  cases a with
  | calculate now =>
    simp only [perform, calculate] at h ⊢
    split at h
    · exact ⟨s.result, rfl⟩
    · simp [Answer.isFruitless, Outcome.isSuccess] at h
    · exact ⟨_, rfl⟩
  | _ => simp [perform, Answer.isFruitless] at h

/-! ## Moments -/

theorem perform_atMoment (h : s.config.Timeless) (now : Moment) (a : Action) :
    s.perform (a.atMoment now) = s.perform a := by
  cases a with
  | calculate later => simp only [Action.atMoment, perform, calculate_timeless h now later]
  | _ => rfl

theorem config_perform (s : Session σ) (a : Action) : (s.perform a).2.config = s.config := by
  cases a with
  | calculate now => exact s.config_calculate now
  | revisit index =>
    simp only [perform, revisit]
    split <;> rfl
  | _ => rfl

/-! ## Runs -/

/-- Two runs from sessions that differ in their results, by induction on the longer one. -/
theorem run_withResult (h : s.config.Timeless) (now : Moment) {actions others : List Action}
    (hothers : others.map (Action.atMoment now)
      = (s.fruitful actions).map fun step ↦ step.1.atMoment now) (result : String) :
    ((s.withResult result).log others).map Prod.snd = (s.fruitful actions).map Prod.snd ∧
      ∃ later, (s.withResult result).performAll others
        = (s.performAll actions).withResult later := by
  induction actions generalizing s others result with
  | nil =>
    obtain rfl : others = [] := List.map_eq_nil_iff.mp hothers
    exact ⟨rfl, result, rfl⟩
  | cons a as ih =>
    have hconfig : (s.perform a).2.config.Timeless := s.config_perform a ▸ h
    by_cases hfruitless : (s.perform a).1.isFruitless = true
    · obtain ⟨later, hlater⟩ := perform_of_fruitless hfruitless
      rw [fruitful_cons_of_fruitless hfruitless] at hothers ⊢
      have hrest := ih hconfig hothers result
      rw [hlater] at hrest
      rw [hlater, performAll_cons, hlater]
      exact hrest
    · rw [fruitful_cons_of_not hfruitless] at hothers ⊢
      obtain ⟨b, bs, rfl, hb, hbs⟩ := List.map_eq_cons_iff.mp hothers
      obtain ⟨later, hlater⟩ := s.perform_withResult result a
      have hsame : (s.withResult result).perform b
          = ((s.perform a).1, (s.perform a).2.withResult later) := by
        rw [← hlater, ← perform_atMoment (s := s.withResult result) h now b, hb,
          perform_atMoment (s := s.withResult result) h]
      obtain ⟨hanswers, hfinal⟩ := ih hconfig hbs later
      refine ⟨?_, ?_⟩
      · rw [log, hsame, List.map_cons, List.map_cons, hanswers]
      · rw [performAll_cons, performAll_cons, hsame]
        exact hfinal

/-- **Fruitless calculations leave no trace.**  Without them, a run has the same answers to what is
left, whenever it is made, and leaves the same session with the same store, apart from the
result. -/
theorem fruitless_leave_no_trace (h : s.config.Timeless) {actions others : List Action}
    {now : Moment} (hothers : others.map (Action.atMoment now)
      = (s.fruitful actions).map fun step ↦ step.1.atMoment now) :
    (s.log others).map Prod.snd = (s.fruitful actions).map Prod.snd ∧
      s.performAll others
        = { s.performAll actions with result := (s.performAll others).result } := by
  obtain ⟨hanswers, later, hfinal⟩ := run_withResult h now hothers s.result
  have hself : s.withResult s.result = s := rfl
  rw [hself] at hanswers hfinal
  exact ⟨hanswers, by rw [hfinal]; rfl⟩

/-- A blank line and a quotient by zero, in a session whose file holds no map and cannot be written
at the first attempt. -/
theorem fruitless_leave_no_trace_in_corrupt_file :
    let config : Config := { Config.default with timestampLayout := "today" }
    let disk : Disk := ⟨.text "?", fun n ↦ n != 0, 0⟩
    let s := Session.start (FileStore.openAt "state.json" disk) config
    let now : Moment := ⟨2026, 1, 2, 3, 4, 5, 0, 0⟩
    let later : Moment := ⟨2026, 1, 2, 3, 4, 6, 0, 0⟩
    let actions : List Action := [.setInput "3!", .calculate now, .append "÷0", .calculate now,
      .toggleTheme, .setInput " ", .calculate now, .revisit 0, .calculate now]
    let others : List Action := [.setInput "3!", .calculate later, .append "÷0", .toggleTheme,
      .setInput " ", .revisit 0, .calculate later]
    config.Timeless ∧
      others.map (Action.atMoment now)
        = (s.fruitful actions).map (fun step ↦ step.1.atMoment now) ∧
      (s.log others).map Prod.snd = (s.fruitful actions).map Prod.snd ∧
      s.performAll others
        = { s.performAll actions with result := (s.performAll others).result } := by
  intro config disk s now later actions others
  have htimeless : config.Timeless :=
    Config.timeless_of_literals (scanLayout_literal (by decide))
  have hothers : others.map (Action.atMoment now)
      = (s.fruitful actions).map (fun step ↦ step.1.atMoment now) := by decide +kernel
  exact ⟨htimeless, hothers, fruitless_leave_no_trace (s := s) htimeless hothers⟩

end Session

end Calculator

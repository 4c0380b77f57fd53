import Calculator.CommandLine.Run

/-!
# What a dialog depends on

A session takes its history and its theme from the store when it starts, and never looks into the
store again.  So it does not matter what becomes of the things that it saves.  To say this, a
session is compared with the same session without its store (`detached`), which is a session too,
with a store that keeps nothing.  Whatever is asked of a session, its detached self gives the same
answer and remains its detached self (`detached_respond`), and so it is for whole dialogs
(`detached_converse`).  Two sessions that differ only in their stores therefore hold the same
dialogs.

The clock is the only other thing that a dialog depends on besides its lines, and it is needed for
timestamps only.  It does not matter if the configured layout shows nothing of it (`Timeless`).

A single calculation is reported from its outcome, which depends on the expression and the marker
alone.  Together this says that failures to save never surface (`failures_never_surface`).
-/

set_option autoImplicit false

namespace Calculator

namespace Session

section

variable {σ : Type} [StateStore σ] {s t : Session σ}

/-! ## Answers -/

/-- There is no such entry. -/
theorem respondToLoad_of_none {index : Option Nat} (h : index.bind s.history.get? = none)
    (color : Bool) :
    s.respondToLoad color index
      = ([(s.palette color).paint .error "no such history entry"], s) := by
  cases index with
  | none => rfl
  | some index =>
    have hentry : s.history.get? index = none := h
    rw [respondToLoad, Option.map_some, revisit_of_none hentry]

/-- The entry is shown as it is gone back to. -/
theorem respondToLoad_of_some {index : Option Nat} {e : Entry}
    (h : index.bind s.history.get? = some e) (color : Bool) :
    let next : Session σ :=
      { s with input := e.expression, result := e.result, historyVisible := false }
    s.respondToLoad color index
      = ((s.palette color).paint .expression next.displayInput
          :: (next.resultLine (s.palette color)).toList, next) := by
  cases index with
  | none => cases h
  | some index =>
    have hentry : s.history.get? index = some e := h
    rw [respondToLoad, Option.map_some, revisit_of_get? hentry]

theorem config_calculate (s : Session σ) (now : Moment) :
    (s.calculate now).2.config = s.config := by
  rw [calculate]
  split <;> rfl

/-- The configuration stays as it is. -/
theorem config_respond (s : Session σ) (color : Bool) (now : Moment) (r : Request) :
    (s.respond color now r).2.config = s.config := by
  cases r with
  | evaluate expression => exact config_calculate (s.setInput expression) now
  | load index =>
    show (s.respondToLoad color index).2.config = s.config
    rcases h : index.bind s.history.get? with _ | e
    · rw [respondToLoad_of_none h]
    · rw [respondToLoad_of_some h]
  | _ => rfl

theorem config_of_hear {color : Bool} {a : Arrival} {output : String}
    (h : s.hear color a = .next output t) : t.config = s.config := by
  rw [hear] at h
  split at h
  · cases h
  · cases h
  · cases h
    exact s.config_respond color a.moment _

end

end Session

/-! ## Moments -/

/-- The timestamp in a layout without specifiers, or with such as stand for one character. -/
theorem stamp_of_literals {layout : String} {text : List Char}
    (h : layoutItems? layout = some (text.map .literal)) (m : Moment) :
    stamp layout m = String.ofList text := by
  have htext : (text.map LayoutItem.literal).flatMap (LayoutItem.text m) = text := by
    rw [List.flatMap_map]
    exact List.flatMap_singleton' text
  rw [stamp, h, Option.getD_some, htext]

/-- Timestamps show nothing of the moment. -/
def Config.Timeless (c : Config) : Prop :=
  ∀ m n : Moment, stamp c.timestampLayout m = stamp c.timestampLayout n

theorem Config.timeless_of_literals {c : Config} {text : List Char}
    (h : layoutItems? c.timestampLayout = some (text.map .literal)) : c.Timeless :=
  fun m n ↦ (stamp_of_literals h m).trans (stamp_of_literals h n).symm

namespace Session

section

variable {σ : Type} [StateStore σ] {s : Session σ}

theorem calculate_timeless (h : s.config.Timeless) (now later : Moment) :
    s.calculate now = s.calculate later := by
  have hrecord (result : String) : s.record now result = s.record later result := by
    rw [record, record, h now later]
  rw [calculate, calculate]
  split
  · rfl
  · rw [hrecord]
  · rfl

theorem respond_timeless (h : s.config.Timeless) (color : Bool) (now later : Moment)
    (r : Request) : s.respond color now r = s.respond color later r := by
  cases r with
  | evaluate expression =>
    have hcalculate := calculate_timeless (s := s.setInput expression) h now later
    show s.respondToExpression color now expression = s.respondToExpression color later expression
    rw [respondToExpression, respondToExpression, hcalculate]
  | _ => rfl

theorem hear_timeless (h : s.config.Timeless) (color : Bool) {a b : Arrival}
    (htext : a.text? = b.text?) : s.hear color a = s.hear color b := by
  rw [hear, hear, htext]
  split
  · rfl
  · rfl
  · rw [respond_timeless h color a.moment b.moment]

/-- It does not matter when the lines of a dialog arrive. -/
theorem converse_timeless (h : s.config.Timeless) (color : Bool) {as bs : List Arrival}
    (htexts : as.map Arrival.text? = bs.map Arrival.text?) :
    s.converse color as = s.converse color bs := by
  induction as generalizing s bs with
  | nil => rw [List.map_eq_nil_iff.mp htexts.symm]
  | cons a as ih =>
    obtain ⟨b, bs, rfl, htext, hrest⟩ := List.map_eq_cons_iff.mp htexts.symm
    rw [converse, converse, hear_timeless h color htext.symm]
    split
    · rename_i output next hnext
      rw [ih (s := next) (config_of_hear hnext ▸ h) hrest.symm]
    · rfl
    · rfl

end

/-! ## Sessions without their stores -/

end Session

/-- A store that keeps nothing. -/
structure NoStore where

instance : StateStore NoStore where
  load _ _ := none
  save s _ _ := (.ok (), s)
  remove s _ := (.ok (), s)

namespace Session

variable {σ τ : Type} [StateStore σ] [StateStore τ]

/-- All of a session but its store. -/
def detached (s : Session σ) : Session NoStore where
  store := ⟨⟩
  config := s.config
  input := s.input
  result := s.result
  history := s.history
  theme := s.theme
  historyVisible := s.historyVisible

theorem detached_calculate (s : Session σ) (now : Moment) :
    s.detached.calculate now = ((s.calculate now).1, (s.calculate now).2.detached) := by
  have hconfig : s.detached.config = s.config := rfl
  have hinput : s.detached.input = s.input := rfl
  rw [calculate, calculate, hconfig, hinput]
  split <;> rfl

/-- **The store has no part in an answer.** -/
theorem detached_respond (s : Session σ) (color : Bool) (now : Moment) (r : Request) :
    s.detached.respond color now r
      = ((s.respond color now r).1, (s.respond color now r).2.detached) := by
  cases r with
  | evaluate expression =>
    have hcalculate := (s.setInput expression).detached_calculate now
    show respondToExpression s.detached color now expression = _
    rw [respondToExpression, show s.detached.setInput expression = (s.setInput expression).detached
      from rfl, hcalculate]
    rfl
  | load index =>
    show respondToLoad s.detached color index
      = ((s.respondToLoad color index).1, (s.respondToLoad color index).2.detached)
    rcases h : index.bind s.history.get? with _ | e
    · rw [respondToLoad_of_none h, respondToLoad_of_none (s := s.detached) h]
      rfl
    · rw [respondToLoad_of_some h, respondToLoad_of_some (s := s.detached) h]
      rfl
  | _ => rfl

end Session

/-- All of a turn but the store. -/
def Turn.detached {σ : Type} : Turn σ → Turn NoStore
  | next output session => .next output session.detached
  | finish => .finish
  | broken => .broken

/-- All of a transcript but the store. -/
def Transcript.detached {σ : Type} (t : Transcript σ) : Transcript NoStore :=
  ⟨t.output, t.session.detached, t.complete⟩

namespace Session

variable {σ τ : Type} [StateStore σ] [StateStore τ]

theorem detached_hear (s : Session σ) (color : Bool) (a : Arrival) :
    s.detached.hear color a = (s.hear color a).detached := by
  rw [hear, hear]
  split
  · rfl
  · rfl
  · rw [detached_respond]
    rfl

/-- **The store has no part in a dialog.** -/
theorem detached_converse (s : Session σ) (color : Bool) (as : List Arrival) :
    s.detached.converse color as = (s.converse color as).detached := by
  induction as generalizing s with
  | nil => rfl
  | cons a as ih =>
    rw [converse, converse, detached_hear]
    cases s.hear color a with
    | next output next =>
      show (converse color next.detached as).after _ = _
      rw [ih]
      rfl
    | finish => rfl
    | broken => rfl

/-- Stores in which the same history and the same theme are found give the same start. -/
theorem detached_start {store : σ} {other : τ} (config : Config)
    (hhistory : StateStore.load store historyKey = StateStore.load other historyKey)
    (htheme : StateStore.load store themeKey = StateStore.load other themeKey) :
    (start store config).detached = (start other config).detached := by
  simp only [detached, start, hhistory, htheme]

/-- Such stores give the same dialogs. -/
theorem detached_converse_start {store : σ} {other : τ} {config : Config} (h : config.Timeless)
    (hhistory : StateStore.load store historyKey = StateStore.load other historyKey)
    (htheme : StateStore.load store themeKey = StateStore.load other themeKey) (color : Bool)
    {as bs : List Arrival} (htexts : as.map Arrival.text? = bs.map Arrival.text?) :
    ((start store config).converse color as).detached
      = ((start other config).converse color bs).detached := by
  rw [← detached_converse, ← detached_converse, detached_start config hhistory htheme]
  exact converse_timeless (s := (start other config).detached) h color htexts

/-! ## Single calculations -/

/-- The outcome depends on the line and the marker alone. -/
theorem fst_calculate (s : Session σ) (now : Moment) :
    (s.calculate now).1 = Calculator.calculate s.config.errorMarker s.input := by
  rw [calculate]
  split <;> rename_i h <;> rw [h]

theorem report_serve (s : Session σ) (color : Bool) (now : Moment) {expression : String}
    (h : Text.allBlank expression.toList = false) (input : List Arrival) :
    (s.serve color now expression input).1
      = .ofOutcome? (Calculator.calculate s.config.errorMarker expression) := by
  rw [serve, h, if_neg Bool.false_ne_true]
  exact congrArg Report.ofOutcome? ((s.setInput expression).fst_calculate now)

end Session

namespace CommandLine.Surroundings

/-- Wherever the state is kept, a single calculation is reported in the same way. -/
theorem report_serveWith (w : Surroundings) {i : Invocation}
    (h : Text.allBlank i.expression.toList = false) (c : Config) :
    (w.serveWith i c).1 = .ofOutcome? (calculate c.errorMarker i.expression) := by
  rw [serveWith]
  split
  · rfl
  · exact Session.report_serve _ w.color w.moment h _
  · exact Session.report_serve _ w.color w.moment h _

end CommandLine.Surroundings

/-! ## Failures -/

open CommandLine

/-- **Failures to save never surface.**  Whichever attempts to write its file fail, a dialog prints
the same and leaves the same session as with a file that can always be written, or with a store in
memory that starts with the same values.  A single calculation is reported in the same way whatever
is stored and wherever, and so it is if nothing is stored at all. -/
theorem failures_never_surface (config : Config) :
    (config.Timeless → ∀ (path : String) (disk other : Disk), disk.content = other.content →
      ∀ (color : Bool) (as bs : List Arrival),
        as.map Arrival.text? = bs.map Arrival.text? →
        let transcript := (Session.start (FileStore.openAt path disk) config).converse color as
        transcript.detached
            = ((Session.start (FileStore.openAt path other) config).converse color bs).detached ∧
          transcript.detached
            = ((Session.start (MemoryStore.mk (Values.ofFile disk.content)) config).converse
                color bs).detached) ∧
    ∀ i : Invocation, Text.allBlank i.expression.toList = false →
      (∀ {σ : Type} [StateStore σ] (store : σ) (color : Bool) (now : Moment)
        (input : List Arrival),
        ((Session.start store config).serve color now i.expression input).1
          = .ofOutcome? (calculate config.errorMarker i.expression)) ∧
      ∀ w other : Surroundings,
        (w.serveWith i config).1 = (other.serveWith { i with noHistory := true } config).1 := by
  refine ⟨fun h path disk other hcontent color as bs htexts ↦ ?_, fun i h ↦ ⟨?_, ?_⟩⟩
  · have hfile (key : String) : StateStore.load (FileStore.openAt path disk) key
        = StateStore.load (FileStore.openAt path other) key :=
      congrArg (fun content ↦ (Values.ofFile content).get? key) hcontent
    have hmemory (key : String) : StateStore.load (FileStore.openAt path disk) key
        = StateStore.load (MemoryStore.mk (Values.ofFile disk.content)) key := rfl
    exact ⟨Session.detached_converse_start h (hfile _) (hfile _) color htexts,
      Session.detached_converse_start h (hmemory _) (hmemory _) color htexts⟩
  · intro σ _ store color now input
    exact (Session.start store config).report_serve color now h input
  · intro w other
    exact (w.report_serveWith h config).trans
      (other.report_serveWith (i := { i with noHistory := true }) h config).symm

/-- A file that cannot be written at all, and one that can be written at every second attempt. -/
theorem failures_never_surface_anyhow :
    let config : Config := { Config.default with timestampLayout := "today" }
    let content : FileContent := .text "\x7b\"calculator_theme\":\"light\"\x7d"
    let lines := ["2+2", ":theme", "3!", ":history", ":clear-history", ":load 0", "1/0"]
    let now : Moment := ⟨2026, 1, 2, 3, 4, 5, 0, 0⟩
    let later : Moment := ⟨2026, 1, 2, 3, 4, 6, 0, 0⟩
    let converse (accepts : Nat → Bool) (now : Moment) :=
      (Session.start (FileStore.openAt "state.json" ⟨content, accepts, 0⟩) config).converse false
        (lines.map fun line ↦ ⟨some line, now⟩)
    let once (values : Values) (noHistory : Bool) :=
      Surroundings.serveWith ⟨⟨[([], values.json)], []⟩, none, false, now, []⟩
        ⟨none, none, false, noHistory, false, ["6*7"]⟩ config
    (converse (fun _ ↦ false) now).output
        = String.join ["> = 4\n", "> theme: dark\n", "> = 6\n", "> [0] 3! = 6  today\n",
          "[1] 2+2 = 4  today\n", "> No history yet\n", "> no such history entry\n",
          "> = Error\n", "> "] ∧
      (converse (fun _ ↦ false) now).detached = (converse (fun n ↦ n % 2 == 0) later).detached ∧
      (once .empty true).1 = ⟨.success, "42\n"⟩ ∧
      (once (Values.empty.insert historyKey "?") false).1 = (once .empty true).1 := by
  intro config content lines now later converse once
  have htimeless : config.Timeless :=
    Config.timeless_of_literals (scanLayout_literal (by decide))
  obtain ⟨hdialog, hsingle⟩ := failures_never_surface config
  have hnever := hdialog htimeless "state.json" ⟨content, fun _ ↦ false, 0⟩
    ⟨content, fun n ↦ n % 2 == 0, 0⟩ rfl false (lines.map fun line ↦ ⟨some line, now⟩)
    (lines.map fun line ↦ ⟨some line, later⟩) rfl
  have honce := (hsingle ⟨none, none, false, false, false, ["6*7"]⟩ (by decide)).2
  exact ⟨by decide +kernel, hnever.1, by decide +kernel, honce _ _⟩

end Calculator

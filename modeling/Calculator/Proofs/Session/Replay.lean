import Calculator.Proofs.Evaluation.Outcomes
import Calculator.Proofs.Session.InStep

/-!
# Going back to a calculation

Every entry of the history can be gone back to: its expression, calculated again, gives its result
(`Entry.Replays`).  An entry is made where a calculation has just succeeded, and of nothing but what
was typed and what came of it, so it replays when it is made (`Entry.replays_of_calculate`), and
nothing changes it afterwards.

The life of a session goes on when its store is opened again, possibly with another configuration.
What is in the history then was read from the store, and it is the history that was there before,
because a session and its store do not drift apart.  So the entries of a session that started
without a history have all been made by itself or by one of its predecessors, and all of them replay
(`entries_replay`).
-/

set_option autoImplicit false

namespace Calculator

/-! ## Entries that replay -/

/-- Calculating the expression gives the result, whatever the marker is. -/
def Entry.Replays (e : Entry) : Prop :=
  ∀ marker, ∃ value, calculate marker e.expression = some (.success e.expression value e.result)

/-- What is recorded of a success replays. -/
theorem Entry.replays_of_calculate {marker input expression result : String} {value : Float}
    (h : calculate marker input = some (.success expression value result)) (timestamp : String) :
    Replays ⟨input, result, timestamp⟩ := by
  obtain ⟨hblank, hvalue, -, hresult⟩ := calculate_eq_success_iff.mp h
  exact fun _ ↦ ⟨value, calculate_eq_success_iff.mpr ⟨hblank, hvalue, rfl, hresult⟩⟩

theorem History.mem_push {h : History} {e f : Entry} (hf : f ∈ (h.push e).entries) :
    f = e ∨ f ∈ h.entries :=
  List.mem_cons.mp (List.mem_of_mem_take hf)

namespace Session

variable {σ : Type} [StateStore σ]

/-! ## Repeating -/

theorem calculate_of_success {s : Session σ} {expression result : String} {value : Float}
    (h : Calculator.calculate s.config.errorMarker s.input
      = some (.success expression value result)) (now : Moment) :
    s.calculate now = (some (.success expression value result), s.record now result) := by
  rw [calculate, h]

/-- The calculation that entry `e` records is repeated from session `s`: going back to the entry
with this index brings it up, and calculating then succeeds with the same expression and result,
which also make the newest entry. -/
def Repeats (s : Session σ) (index : Nat) (e : Entry) : Prop :=
  (s.revisit index).1 = some e ∧ (s.revisit index).2.result = e.result ∧
    ∀ now : Moment, let after := (s.revisit index).2.calculate now
      (∃ value, after.1 = some (.success e.expression value e.result)) ∧
        after.2.result = e.result ∧
        ∃ top, after.2.history.get? 0 = some top ∧ top.expression = e.expression ∧
          top.result = e.result

/-- Entries that replay can be repeated. -/
theorem repeats_of_replays {s : Session σ} {index : Nat} {e : Entry}
    (hindex : s.history.get? index = some e) (he : e.Replays) : s.Repeats index e := by
  obtain ⟨value, hvalue⟩ := he s.config.errorMarker
  have hagain (now : Moment) := calculate_of_success
    (s := { s with input := e.expression, result := e.result, historyVisible := false }) hvalue now
  rw [Repeats, revisit_of_get? hindex]
  refine ⟨rfl, rfl, fun now ↦ ?_⟩
  dsimp only
  rw [hagain]
  exact ⟨⟨value, rfl⟩, rfl, _, rfl, rfl, rfl⟩

/-! ## Actions -/

/-- What is in the history after an action was there before, or replays. -/
theorem mem_or_replays_of_mem_perform {s : Session σ} {a : Action} {e : Entry}
    (h : e ∈ (s.perform a).2.history.entries) : e ∈ s.history.entries ∨ e.Replays := by
  cases a with
  | calculate now =>
    change e ∈ (s.calculate now).2.history.entries at h
    rw [calculate] at h
    split at h
    · exact Or.inl h
    · rename_i hsuccess
      rcases History.mem_push h with rfl | hold
      · exact Or.inr (Entry.replays_of_calculate hsuccess _)
      · exact Or.inl hold
    · exact Or.inl h
  | revisit index =>
    change e ∈ (s.revisit index).2.history.entries at h
    rw [revisit] at h
    split at h <;> exact Or.inl h
  | clearHistory => cases h
  | append _ | setInput _ | clearInput | backspace | toggleHistory | toggleTheme => exact Or.inl h

/-! ## Lives -/

/-- What happens to a session: something is done with it, or it ends and a new one begins with its
store and a configuration. -/
inductive Event where
  | act (action : Action)
  | reopen (config : Config)

/-- The session after an event, when a store is opened again by `reopen`. -/
def undergo (reopen : σ → σ) (s : Session σ) : Event → Session σ
  | .act action => (s.perform action).2
  | .reopen config => start (reopen s.store) config

/-- The session after several events. -/
def undergoAll (reopen : σ → σ) (s : Session σ) (events : List Event) : Session σ :=
  events.foldl (undergo reopen) s

/-- The invariant of a life that began without a history. -/
structure Replayable (s : Session σ) : Prop where
  inStep : s.InStep
  replays : ∀ e ∈ s.history.entries, e.Replays

theorem Replayable.undergo [LawfulStore σ] {s : Session σ} (h : s.Replayable) {reopen : σ → σ}
    (hreopen : reopen s.store = s.store) (event : Event) : (s.undergo reopen event).Replayable := by
  cases event with
  | act action =>
    refine ⟨h.inStep.change (s.change_perform action), fun e he ↦ ?_⟩
    rcases mem_or_replays_of_mem_perform he with hold | hnew
    · exact h.replays e hold
    · exact hnew
  | reopen config =>
    refine ⟨inStep_start _ _, ?_⟩
    have hhistory : (start (reopen s.store) config).history = s.history := by
      rw [hreopen, h.inStep.start_eq]
    show ∀ e ∈ (start (reopen s.store) config).history.entries, e.Replays
    rw [hhistory]
    exact h.replays

theorem replayable_start (store : σ)
    (h : History.ofStored (StateStore.load store historyKey) = History.empty) (config : Config) :
    (start store config).Replayable := by
  refine ⟨inStep_start store config, fun e he ↦ ?_⟩
  change e ∈ (History.ofStored (StateStore.load store historyKey)).entries at he
  rw [h] at he
  cases he

/-- A store in memory is just kept. -/
theorem replayable_undergoAll_memory {s : Session MemoryStore} (h : s.Replayable)
    (events : List Event) : (s.undergoAll id events).Replayable := by
  induction events generalizing s with
  | nil => exact h
  | cons event events ih => exact ih (h.undergo rfl event)

/-! ### Stores in a file -/

/-- A session of which all is known as long as no attempt to write has failed since `store`. -/
structure ReplayableSince (store : FileStore) (s : Session FileStore) : Prop where
  used : store.UsedSince s.store
  replayable : (∀ n, store.disk.attempts ≤ n → n < s.store.disk.attempts →
    store.disk.accepts n = true) → s.Replayable

theorem usedSince_undergo {store : FileStore} {s : Session FileStore}
    (h : store.UsedSince s.store) (event : Event) :
    store.UsedSince (s.undergo FileStore.reopen event).store := by
  cases event with
  | act action => exact usedSince_of_change h (s.change_perform action)
  | reopen config => exact ⟨h.accepts, h.attempts_le, fun _ ↦ FileStore.synced_openAt _ _⟩

/-- No event takes an attempt to write back. -/
theorem attempts_le_undergo (s : Session FileStore) (event : Event) :
    s.store.disk.attempts ≤ (s.undergo FileStore.reopen event).store.disk.attempts := by
  cases event with
  | act action => exact attempts_le_of_change (s.change_perform action)
  | reopen config => exact Nat.le_refl _

theorem ReplayableSince.undergo {store : FileStore} {s : Session FileStore}
    (h : ReplayableSince store s) (event : Event) :
    ReplayableSince store (s.undergo FileStore.reopen event) := by
  refine ⟨usedSince_undergo h.used event, fun haccepts ↦ ?_⟩
  have hearlier : ∀ n, store.disk.attempts ≤ n → n < s.store.disk.attempts →
      store.disk.accepts n = true := fun n hn hlt ↦
    haccepts n hn (Nat.lt_of_lt_of_le hlt (attempts_le_undergo s event))
  exact (h.replayable hearlier).undergo (FileStore.reopen_eq_self (h.used.synced hearlier)) event

theorem ReplayableSince.undergoAll {store : FileStore} {s : Session FileStore}
    (h : ReplayableSince store s) (events : List Event) :
    ReplayableSince store (s.undergoAll FileStore.reopen events) := by
  induction events generalizing s with
  | nil => exact h
  | cons event events ih => exact ih (h.undergo event)

/-! ## From the start on -/

/-- Whatever is in the history replays, and every index of it can be repeated. -/
structure AllRepeat (s : Session σ) : Prop where
  size_le : s.history.size ≤ 20
  replays : ∀ e ∈ s.history.entries, e.Replays
  repeats : ∀ index < s.history.size, ∃ e, s.history.get? index = some e ∧ s.Repeats index e

theorem Replayable.allRepeat {s : Session σ} (h : s.Replayable) : s.AllRepeat where
  size_le := s.history.length_le
  replays := h.replays
  repeats index hindex := by
    have hget : s.history.get? index = some (s.history.entries[index]) :=
      List.getElem?_eq_getElem hindex
    exact ⟨_, hget, repeats_of_replays hget (h.replays _ (List.getElem_mem hindex))⟩

/-- **Every recorded calculation can be repeated**, at any point of the life of a session that began
without a history.  For a store in a file, all attempts to write it have to succeed. -/
theorem entries_replay (config : Config) (events : List Event) :
    (∀ values : Values, History.ofStored (values.get? historyKey) = History.empty →
      ((start (MemoryStore.mk values) config).undergoAll id events).AllRepeat) ∧
    ∀ (path : String) (disk : Disk),
      History.ofStored ((Values.ofFile disk.content).get? historyKey) = History.empty →
      let s := (start (FileStore.openAt path disk) config).undergoAll FileStore.reopen events
      (∀ n, disk.attempts ≤ n → n < s.store.disk.attempts → disk.accepts n = true) →
      s.AllRepeat := by
  refine ⟨fun values hvalues ↦ ?_, fun path disk hvalues ↦ ?_⟩
  · have hstart := replayable_start (MemoryStore.mk values) hvalues config
    exact (replayable_undergoAll_memory hstart events).allRepeat
  · intro s haccepts
    have hstart := replayable_start (FileStore.openAt path disk) hvalues config
    have hsince : ReplayableSince (FileStore.openAt path disk) (start _ config) :=
      ⟨.refl (FileStore.synced_openAt path disk), fun _ ↦ hstart⟩
    exact ((hsince.undergoAll events).replayable haccepts).allRepeat

/-- A success, a failure, and a new session with another marker. -/
theorem entries_replay_reopened :
    let s := (start (FileStore.openAt "state.json" (.reliable .missing)) Config.default).undergoAll
      FileStore.reopen
      [.act (.setInput " 7×3!"), .act (.calculate ⟨2026, 1, 2, 3, 4, 5, 0, 0⟩),
        .act (.setInput "1/0"), .act (.calculate ⟨2026, 1, 2, 3, 4, 6, 0, 0⟩),
        .reopen { Config.default with errorMarker := "42" }, .act (.append "7")]
    s.history.entries = [⟨" 7×3!", "42", "02.01.2026 03:04:05"⟩] ∧ s.input = "7" ∧
      s.AllRepeat := by
  intro s
  have hall := (entries_replay Config.default
    [.act (.setInput " 7×3!"), .act (.calculate ⟨2026, 1, 2, 3, 4, 5, 0, 0⟩),
      .act (.setInput "1/0"), .act (.calculate ⟨2026, 1, 2, 3, 4, 6, 0, 0⟩),
      .reopen { Config.default with errorMarker := "42" }, .act (.append "7")]).2 "state.json"
    (.reliable .missing) rfl fun _ _ _ ↦ rfl
  exact ⟨by decide +kernel, by decide +kernel, hall⟩

end Session

end Calculator

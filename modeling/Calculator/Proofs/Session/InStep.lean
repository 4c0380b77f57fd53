import Calculator.Proofs.History.RoundTrip
import Calculator.Proofs.Store.Laws
import Calculator.Session.Action

/-!
# A session and its store

The history and the theme of a session are also in its store, and the two never differ (`InStep`).
They agree when a session starts, whatever is stored, because that is where the session takes them
from.  After that an action either touches none of them, or saves the whole history, or takes the
stored history away, or saves the theme (`Change`), and each of these keeps them in step.

So a session that starts with the store goes on where the other one was, with an empty line and the
history hidden.  A store in a file may be opened again instead, if no attempt to write it has
failed.
-/

set_option autoImplicit false

namespace Calculator

namespace Session

variable {σ : Type} [StateStore σ]

/-- The history and the theme are the ones that are stored. -/
structure InStep (s : Session σ) : Prop where
  history : History.ofStored (StateStore.load s.store historyKey) = s.history
  theme : Theme.ofStored (StateStore.load s.store themeKey) = s.theme

theorem inStep_start (store : σ) (config : Config) : (start store config).InStep := ⟨rfl, rfl⟩

/-- What an action does to the history and the theme, in the session and in the store. -/
inductive Change (s t : Session σ) : Prop where
  | nothing (store : t.store = s.store) (history : t.history = s.history)
      (theme : t.theme = s.theme)
  | recorded (store : t.store = (StateStore.save s.store historyKey t.history.json).2)
      (theme : t.theme = s.theme)
  | forgotten (store : t.store = (StateStore.remove s.store historyKey).2)
      (history : t.history = History.empty) (theme : t.theme = s.theme)
  | switched (store : t.store = (StateStore.save s.store themeKey t.theme.name).2)
      (history : t.history = s.history)

theorem change_perform (s : Session σ) (a : Action) : Change s (s.perform a).2 := by
  cases a with
  | append text => exact .nothing rfl rfl rfl
  | setInput text => exact .nothing rfl rfl rfl
  | clearInput => exact .nothing rfl rfl rfl
  | backspace => exact .nothing rfl rfl rfl
  | calculate now =>
    show Change s (s.calculate now).2
    rw [calculate]
    split
    · exact .nothing rfl rfl rfl
    · exact .recorded rfl rfl
    · exact .nothing rfl rfl rfl
  | toggleHistory => exact .nothing rfl rfl rfl
  | revisit index =>
    show Change s (s.revisit index).2
    rw [revisit]
    split <;> exact .nothing rfl rfl rfl
  | clearHistory => exact .forgotten rfl rfl rfl
  | toggleTheme => exact .switched rfl rfl

/-- What a change leaves in step. -/
theorem InStep.change [LawfulStore σ] {s t : Session σ} (h : s.InStep) (hchange : Change s t) :
    t.InStep := by
  have hkeys : themeKey ≠ historyKey := by decide
  cases hchange with
  | nothing store history theme =>
    constructor
    · rw [store, history, h.history]
    · rw [store, theme, h.theme]
  | recorded store theme =>
    constructor
    · rw [store, LawfulStore.load_save, if_pos rfl]
      exact t.history.ofJson_json
    · rw [store, LawfulStore.load_save, if_neg hkeys, theme, h.theme]
  | forgotten store history theme =>
    constructor
    · rw [store, LawfulStore.load_remove, if_pos rfl, history]
      rfl
    · rw [store, LawfulStore.load_remove, if_neg hkeys, theme, h.theme]
  | switched store history =>
    constructor
    · rw [store, LawfulStore.load_save, if_neg hkeys.symm, history, h.history]
    · rw [store, LawfulStore.load_save, if_pos rfl]
      exact t.theme.ofStored_name

theorem InStep.performAll [LawfulStore σ] {s : Session σ} (h : s.InStep) (actions : List Action) :
    (s.performAll actions).InStep := by
  induction actions generalizing s with
  | nil => exact h
  | cons a actions ih => exact ih (h.change (s.change_perform a))

/-- A session that starts with the store of another one. -/
theorem InStep.start_eq {s : Session σ} (h : s.InStep) (config : Config) :
    start s.store config =
      { store := s.store, config, input := "", result := "", history := s.history,
        theme := s.theme, historyVisible := false } := by
  rw [start, h.history, h.theme]

/-! ## Sessions whose store is in a file -/

theorem usedSince_of_change {store : FileStore} {s t : Session FileStore}
    (h : store.UsedSince s.store) (hchange : Change s t) : store.UsedSince t.store := by
  cases hchange with
  | nothing hstore _ _ => exact hstore ▸ h
  | recorded hstore _ => exact hstore ▸ h.save _ _
  | forgotten hstore _ _ => exact hstore ▸ h.remove _
  | switched hstore _ => exact hstore ▸ h.save _ _

theorem usedSince_performAll {store : FileStore} {s : Session FileStore}
    (h : store.UsedSince s.store) (actions : List Action) :
    store.UsedSince (s.performAll actions).store := by
  induction actions generalizing s with
  | nil => exact h
  | cons a actions ih => exact ih (usedSince_of_change h (s.change_perform a))

/-- Nothing that is done takes an attempt to write back. -/
theorem attempts_le_of_change {s t : Session FileStore} (h : Change s t) :
    s.store.disk.attempts ≤ t.store.disk.attempts := by
  cases h with
  | nothing hstore _ _ => exact hstore ▸ Nat.le_refl _
  | recorded hstore _ => exact hstore ▸ s.store.attempts_le_save _ _
  | forgotten hstore _ _ => exact hstore ▸ s.store.attempts_le_remove _
  | switched hstore _ => exact hstore ▸ s.store.attempts_le_save _ _

theorem attempts_le_performAll (s : Session FileStore) (actions : List Action) :
    s.store.disk.attempts ≤ (s.performAll actions).store.disk.attempts := by
  induction actions generalizing s with
  | nil => exact Nat.le_refl _
  | cons a actions ih => exact Nat.le_trans (attempts_le_of_change (s.change_perform a)) (ih _)

/-! ## From the start on -/

/-- **A session and its store never drift apart**, whatever was stored and whatever is done.  For a
store in a file, all attempts to write it have to succeed. -/
theorem inStep_from_start (config : Config) (actions : List Action) :
    (∀ values : Values,
      let s := (start (MemoryStore.mk values) config).performAll actions
      s.InStep ∧ ∀ later : Config, start s.store later =
        { store := s.store, config := later, input := "", result := "", history := s.history,
          theme := s.theme, historyVisible := false }) ∧
    ∀ (path : String) (disk : Disk),
      let s := (start (FileStore.openAt path disk) config).performAll actions
      (∀ n, disk.attempts ≤ n → n < s.store.disk.attempts → disk.accepts n = true) →
      s.InStep ∧ ∀ later : Config, start s.store.reopen later =
        { store := s.store, config := later, input := "", result := "", history := s.history,
          theme := s.theme, historyVisible := false } := by
  refine ⟨fun values ↦ ?_, fun path disk ↦ ?_⟩
  · have h := (inStep_start (MemoryStore.mk values) config).performAll actions
    exact ⟨h, h.start_eq⟩
  · intro s haccepts
    have h := (inStep_start (FileStore.openAt path disk) config).performAll actions
    have hused := usedSince_performAll (s := start (FileStore.openAt path disk) config)
      (.refl (FileStore.synced_openAt path disk)) actions
    rw [FileStore.reopen_eq_self (hused.synced haccepts)]
    exact ⟨h, h.start_eq⟩

/-- A file that holds no map, and is replaced by one. -/
theorem inStep_from_corrupt_file :
    let store := FileStore.openAt "state.json" (.reliable (.text "?"))
    let s := (start store Config.default).performAll
      [.setInput "1+1", .calculate ⟨2026, 1, 2, 3, 4, 5, 0, 0⟩, .toggleTheme]
    store.values = Values.empty ∧ s.history.size = 1 ∧ s.theme = .light ∧ s.InStep ∧
      ∀ later : Config, start s.store.reopen later =
        { store := s.store, config := later, input := "", result := "", history := s.history,
          theme := s.theme, historyVisible := false } := by
  intro store s
  have hstep := (inStep_from_start Config.default
    [.setInput "1+1", .calculate ⟨2026, 1, 2, 3, 4, 5, 0, 0⟩, .toggleTheme]).2 "state.json"
    (.reliable (.text "?")) fun _ _ _ ↦ rfl
  exact ⟨by decide +kernel, by decide +kernel, by decide +kernel, hstep⟩

end Session

end Calculator

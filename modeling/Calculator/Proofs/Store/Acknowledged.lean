import Calculator.Proofs.Store.Laws

/-!
# Acknowledged calls

A call that changes a store in a file is acknowledged if it gives no error.  One might take this for
a promise that the file holds the values of the store from then on.  It is one for every call that
writes the file (`StoreCall.writes`), because a write is always one of all values: whatever earlier
attempts have failed to write is written by the next one that succeeds.

A call that takes away what is not there writes nothing, and is acknowledged all the same.  After it
the file holds the values of the store only if it held them before
(`FileStore.agrees_iff_of_acknowledged`), and after a refused attempt it may not: who repeats the
removal of a text that could not be removed gets an acknowledgement, and the text is still in the
file (`FileStore.remove_again_after_refusal`).
-/

set_option autoImplicit false

namespace Calculator

/-- A call that changes what is stored. -/
inductive StoreCall where
  | save (key value : String)
  | remove (key : String)
deriving DecidableEq, Repr

namespace StoreCall

section

variable {σ : Type} [StateStore σ]

/-- The answer to a call, and the store after it. -/
def perform (s : σ) : StoreCall → Except StoreError Unit × σ
  | save key value => StateStore.save s key value
  | remove key => StateStore.remove s key

/-- The store after several calls. -/
def performAll (s : σ) (calls : List StoreCall) : σ :=
  calls.foldl (fun s call ↦ (call.perform s).2) s

end

/-- The values that a call makes of others. -/
def change (v : Values) : StoreCall → Values
  | save key value => v.insert key value
  | remove key => v.erase key

/-- There is something for the call to do in this map: only a key that is there can be taken away. -/
def writes (v : Values) : StoreCall → Bool
  | save _ _ => true
  | remove key => (v.get? key).isSome

/-- A call with nothing to do changes nothing. -/
theorem change_of_not_writes {v : Values} {call : StoreCall} (h : call.writes v = false) :
    call.change v = v := by
  cases call with
  | save key value => cases h
  | remove key => exact Values.erase_eq_self (by simpa [writes] using h)

end StoreCall

namespace FileStore

/-- A call either writes the changed values, or does nothing. -/
theorem perform_eq (s : FileStore) (call : StoreCall) :
    call.perform s
      = if call.writes s.values then s.flush (call.change s.values) else (.ok (), s) := by
  cases call <;> rfl

/-- Whoever opens the file now finds under each key what the store holds there. -/
def Agrees (s : FileStore) : Prop :=
  ∀ key, StateStore.load s.reopen key = StateStore.load s key

/-- An attempt is acknowledged if the disk accepts it. -/
theorem flush_eq_ok_iff {s : FileStore} {values : Values} :
    (s.flush values).1 = .ok () ↔ s.disk.accepts s.disk.attempts = true := by
  show (if s.disk.accepts s.disk.attempts then Except.ok () else .error _) = _ ↔ _
  split <;> simp_all

/-- What has been written is found. -/
theorem agrees_flush {s : FileStore} {values : Values} (h : (s.flush values).1 = .ok ()) :
    (s.flush values).2.Agrees := by
  intro key
  rw [reopen_eq_self (synced_flush values (flush_eq_ok_iff.mp h))]

/-! ## The last attempt -/

/-- No attempt to write was made yet, or the last one was accepted. -/
def LastAccepted (s : FileStore) : Prop :=
  s.disk.attempts = 0 ∨ s.disk.accepts (s.disk.attempts - 1) = true

/-- The invariant of a store and its file: only a refused attempt can part them. -/
def SyncedUnlessRefused (s : FileStore) : Prop := s.LastAccepted → s.Synced

theorem SyncedUnlessRefused.perform {s : FileStore} (h : s.SyncedUnlessRefused)
    (call : StoreCall) : (call.perform s).2.SyncedUnlessRefused := by
  rw [perform_eq]
  split
  · intro hlast
    have haccepts : s.disk.accepts s.disk.attempts = true :=
      hlast.resolve_left (Nat.succ_ne_zero s.disk.attempts)
    exact synced_flush _ haccepts
  · exact h

theorem SyncedUnlessRefused.performAll {s : FileStore} (h : s.SyncedUnlessRefused)
    (calls : List StoreCall) : (StoreCall.performAll s calls).SyncedUnlessRefused := by
  induction calls generalizing s with
  | nil => exact h
  | cons call calls ih => exact ih (h.perform call)

/-! ## Acknowledgements -/

/-- **After an acknowledged call** the file is as good as the store if the call has written it, or
if it was so before; in particular it is if the last attempt to write was accepted. -/
theorem agrees_iff_of_acknowledged (path content : String) (accepts : Nat → Bool)
    (calls : List StoreCall) (call : StoreCall) :
    let s := StoreCall.performAll (openAt path ⟨.text content, accepts, 0⟩) calls
    let t := call.perform s
    t.1 = .ok () →
      (t.2.Agrees ↔ call.writes s.values = true ∨ s.Agrees) ∧ (t.2.LastAccepted → t.2.Agrees) := by
  intro s t hok
  constructor
  · show (call.perform s).2.Agrees ↔ _
    change (call.perform s).1 = .ok () at hok
    rw [perform_eq] at hok ⊢
    split at hok
    · rename_i hwrites
      rw [if_pos hwrites]
      exact ⟨fun _ ↦ .inl hwrites, fun _ ↦ agrees_flush hok⟩
    · rename_i hidle
      rw [if_neg hidle]
      exact ⟨.inr, fun h ↦ h.resolve_left hidle⟩
  · intro hlast key
    have hopen : (openAt path ⟨.text content, accepts, 0⟩).SyncedUnlessRefused :=
      fun _ ↦ synced_openAt _ _
    rw [reopen_eq_self ((hopen.performAll calls).perform call hlast)]

/-- A second save makes up for the first one, which was refused. -/
theorem agrees_after_refused_save :
    let s := StoreCall.performAll (openAt "state.json" ⟨.text "", fun n ↦ n != 0, 0⟩)
      [.save "a" "1", .remove "c"]
    let t := (StoreCall.save "b" "2").perform s
    t.1 = .ok () ∧ StateStore.load s.reopen "a" = none ∧ t.2.Agrees ∧
      StateStore.load t.2.reopen "a" = some "1" := by
  intro s t
  have haccepts : s.disk.accepts s.disk.attempts = true := by decide +kernel
  have hok : t.1 = .ok () := flush_eq_ok_iff.mpr haccepts
  have hagrees := (agrees_iff_of_acknowledged "state.json" "" (fun n ↦ n != 0)
    [.save "a" "1", .remove "c"] (.save "b" "2") hok).1.mpr (.inl rfl)
  exact ⟨hok, by decide +kernel, hagrees, (hagrees "a").trans (by decide +kernel)⟩

/-- A text whose removal was refused, and is acknowledged when it is repeated, is still in the
file. -/
theorem remove_again_after_refusal :
    let s := openAt "state.json" ⟨.text "\x7b\"a\":\"1\"\x7d", fun n ↦ n != 0, 0⟩
    let refused := StateStore.remove s "a"
    let again := StateStore.remove refused.2 "a"
    refused.1 = .error ⟨"state.json"⟩ ∧ again.1 = .ok () ∧
      StateStore.load again.2 "a" = none ∧ StateStore.load again.2.reopen "a" = some "1" := by
  intro s refused again
  have hwrites : (StoreCall.remove "a").writes s.values = true := by decide +kernel
  have hidle : (StoreCall.remove "a").writes refused.2.values = false := by decide +kernel
  have hrefused : refused = s.flush (s.values.erase "a") :=
    (perform_eq s (.remove "a")).trans (if_pos hwrites)
  have hagain : again = (.ok (), refused.2) :=
    (perform_eq refused.2 (.remove "a")).trans (if_neg (Bool.eq_false_iff.mp hidle))
  rw [hagain]
  exact ⟨congrArg Prod.fst hrefused, rfl, by decide +kernel, by decide +kernel⟩

end FileStore

end Calculator

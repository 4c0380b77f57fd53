import Calculator.Proofs.Store.Acknowledged
import Calculator.Proofs.Store.KeyOrder

/-!
# A file is as good as memory

As long as its file can be written, a store in a file cannot be told from one in memory by what is
loaded from it, no matter when it is opened again in between (`FileStore.refines_memory`).  The two
hold the same values all the time, and the file holds them as well (`FileStore.Mirrors`): it is
written whenever they change, and when it is not written there was nothing to change, as when a text
is taken away that is not there.  Only before the first write the file may hold something else, and
then it is something that is read as the same values.

What is written is one text for each map, with a line for each key in the order of the keys' bytes
(`Values.IsWritten`).
-/

set_option autoImplicit false

namespace Calculator

/-! ## Steps -/

/-- One thing that is done with a store. -/
inductive StoreStep where
  | call (call : StoreCall)
  | load (key : String)
  | reopen
deriving DecidableEq, Repr

namespace StoreStep

section

variable {σ : Type} [StateStore σ] (again : σ → σ)

/-- The store after a step, if `again` opens it again. -/
def next (s : σ) : StoreStep → σ
  | call c => (c.perform s).2
  | load _ => s
  | reopen => again s

/-- The store after several steps. -/
def run (s : σ) (steps : List StoreStep) : σ := steps.foldl (next again) s

/-- What is loaded in the course of the steps. -/
def loads (s : σ) : List StoreStep → List (Option String)
  | [] => []
  | load key :: steps => StateStore.load s key :: loads s steps
  | call c :: steps => loads (c.perform s).2 steps
  | reopen :: steps => loads (again s) steps

end

/-- What becomes of the text under a key: the last call that names the key decides, and no other
step matters. -/
def fate (key : String) (text : Option String) : List StoreStep → Option String
  | [] => text
  | call (.save k value) :: steps => fate key (if key = k then some value else text) steps
  | call (.remove k) :: steps => fate key (if key = k then none else text) steps
  | load _ :: steps => fate key text steps
  | reopen :: steps => fate key text steps

/-- In memory, the last text under a key is the one that is loaded. -/
theorem load_run_memory (m : MemoryStore) (steps : List StoreStep) (key : String) :
    StateStore.load (run id m steps) key = fate key (StateStore.load m key) steps := by
  induction steps generalizing m with
  | nil => rfl
  | cons step steps ih =>
    refine (ih (next id m step)).trans ?_
    cases step with
    | load _ => rfl
    | reopen => rfl
    | call c =>
      cases c with
      | save k value => exact congrArg (fate key · steps) (LawfulStore.load_save m k value key)
      | remove k => exact congrArg (fate key · steps) (LawfulStore.load_remove m k key)

end StoreStep

/-! ## The text of a file -/

namespace Values

/-- An object with these members, each on a line of its own. -/
def prettyObject (ms : List (List Char)) : List Char :=
  if ms = [] then ['\x7b', '\x7d']
  else '\x7b' :: '\n' :: [',', '\n'].intercalate ms ++ ['\n', '\x7d']

/-- A text is the written form of a map: it has a line for each key, in the order of the keys'
bytes, and is read as the map. -/
structure IsWritten (v : Values) (text : String) : Prop where
  layout : text.toList = prettyObject (v.entries.map fun e ↦
    ' ' :: ' ' :: Json.quote e.1 ++ ':' :: ' ' :: Json.quote e.2)
  ascend : v.entries.Pairwise fun a b ↦ bytes a.1 < bytes b.1
  reads : ofJson? text = some v

theorem members_eq_intercalate (e : String × String) (es : List (String × String)) :
    members (e :: es) = '\n' :: [',', '\n'].intercalate ((e :: es).map member) := by
  induction es generalizing e with
  | nil => simp [members, List.intercalate]
  | cons f es ih =>
    rw [members, ih]
    simp [List.intercalate]

theorem isWritten_json (v : Values) : v.IsWritten v.json where
  layout := by
    rw [json, String.toList_ofList]
    cases v.entries with
    | nil => rfl
    | cons e es =>
      show '\x7b' :: members (e :: es) ++ _ = '\x7b' :: '\n' :: _ ++ _
      rw [members_eq_intercalate]
      rfl
  ascend := v.bytes_pairwise
  reads := v.ofJson?_json

end Values

/-! ## The refinement -/

namespace FileStore

open StoreStep

/-- The store and its file hold what the memory holds. -/
structure Mirrors (s : FileStore) (m : MemoryStore) : Prop where
  values : s.values = m.values
  synced : s.Synced

theorem perform_memory (m : MemoryStore) (call : StoreCall) :
    call.perform m = (.ok (), ⟨call.change m.values⟩) := by
  cases call <;> rfl

/-- The values do not depend on what the disk does. -/
theorem values_perform (s : FileStore) (call : StoreCall) :
    (call.perform s).2.values = call.change s.values := by
  rw [perform_eq]
  split
  · rfl
  · rename_i h
    exact (StoreCall.change_of_not_writes (Bool.eq_false_iff.mpr h)).symm

theorem attempts_le_next (s : FileStore) (step : StoreStep) :
    s.disk.attempts ≤ (next reopen s step).disk.attempts := by
  cases step with
  | call c =>
    cases c with
    | save key value => exact s.attempts_le_save key value
    | remove key => exact s.attempts_le_remove key
  | load key => exact Nat.le_refl _
  | reopen => exact Nat.le_refl _

theorem attempts_le_run (s : FileStore) (steps : List StoreStep) :
    s.disk.attempts ≤ (run reopen s steps).disk.attempts := by
  induction steps generalizing s with
  | nil => exact Nat.le_refl _
  | cons step steps ih => exact Nat.le_trans (s.attempts_le_next step) (ih _)

theorem accepts_next (s : FileStore) (step : StoreStep) :
    (next reopen s step).disk.accepts = s.disk.accepts := by
  cases step with
  | call c =>
    show (c.perform s).2.disk.accepts = _
    rw [perform_eq]
    split <;> rfl
  | load key => rfl
  | reopen => rfl

theorem accepts_run (s : FileStore) (steps : List StoreStep) :
    (run reopen s steps).disk.accepts = s.disk.accepts := by
  induction steps generalizing s with
  | nil => rfl
  | cons step steps ih => exact (ih _).trans (s.accepts_next step)

/-- All attempts to write are accepted that are made on the way from one store to another. -/
def AllAccepted (s t : FileStore) : Prop :=
  ∀ n, s.disk.attempts ≤ n → n < t.disk.attempts → s.disk.accepts n = true

/-- A step with which the file is written if it has to be. -/
theorem Mirrors.next {s : FileStore} {m : MemoryStore} (h : s.Mirrors m) {step : StoreStep}
    (haccepted : s.AllAccepted (next reopen s step)) :
    (next reopen s step).Mirrors (StoreStep.next id m step) := by
  cases step with
  | call c =>
    constructor
    · show (c.perform s).2.values = (c.perform m).2.values
      rw [values_perform, perform_memory, h.values]
    · change s.AllAccepted (c.perform s).2 at haccepted
      show (c.perform s).2.Synced
      rw [perform_eq] at haccepted ⊢
      split
      · rename_i hwrites
        rw [if_pos hwrites] at haccepted
        exact synced_flush _ (haccepted _ (Nat.le_refl _) (Nat.lt_succ_self _))
      · exact h.synced
  | load key => exact h
  | reopen => exact ⟨(congrArg FileStore.values (reopen_eq_self h.synced)).trans h.values, rfl⟩

/-- The attempts of several steps are those of the first ones and those of the others. -/
theorem AllAccepted.append {s : FileStore} (before after : List StoreStep)
    (h : s.AllAccepted (run reopen s (before ++ after))) :
    s.AllAccepted (run reopen s before) ∧
      (run reopen s before).AllAccepted (run reopen (run reopen s before) after) := by
  have happend : run reopen s (before ++ after) = run reopen (run reopen s before) after :=
    List.foldl_append
  rw [happend] at h
  constructor
  · exact fun n hle hlt ↦ h n hle (Nat.lt_of_lt_of_le hlt (attempts_le_run _ after))
  · intro n hle hlt
    rw [accepts_run]
    exact h n (Nat.le_trans (s.attempts_le_run before) hle) hlt

theorem Mirrors.run {s : FileStore} {m : MemoryStore} (h : s.Mirrors m) {steps : List StoreStep}
    (haccepted : s.AllAccepted (run reopen s steps)) :
    (StoreStep.run reopen s steps).Mirrors (StoreStep.run id m steps) ∧
      loads reopen s steps = loads id m steps := by
  induction steps generalizing s m with
  | nil => exact ⟨h, rfl⟩
  | cons step steps ih =>
    obtain ⟨hfirst, hrest⟩ := AllAccepted.append [step] steps haccepted
    obtain ⟨hmirrors, hloads⟩ := ih (h.next hfirst) hrest
    refine ⟨hmirrors, ?_⟩
    cases step with
    | call c => exact hloads
    | load key =>
      have hload : StateStore.load s key = StateStore.load m key :=
        congrArg (Values.get? · key) h.values
      show _ :: loads reopen s steps = _ :: loads id m steps
      rw [hload]
      exact congrArg _ hloads
    | reopen => exact hloads

/-- An accepted save leaves the written form of the values in the file. -/
theorem Mirrors.save {s : FileStore} {m : MemoryStore} (h : s.Mirrors m) (key value : String)
    (haccepted : s.AllAccepted (StateStore.save s key value).2) :
    (StateStore.save s key value).1 = .ok () ∧
      ∃ text, (StateStore.save s key value).2.disk.content = .text text ∧
        (StateStore.save m key value).2.values.IsWritten text := by
  have haccepts := haccepted _ (Nat.le_refl _) (Nat.lt_succ_self _)
  refine ⟨flush_eq_ok_iff.mpr haccepts, _, if_pos haccepts, ?_⟩
  rw [h.values]
  exact Values.isWritten_json _

/-- **A store in a file refines one in memory** that starts with the map that is read first: the
same texts are loaded, and they are the last ones that were saved.  After each save the file holds
the written form of the map in memory. -/
theorem refines_memory (path : String) (disk : Disk) (steps : List StoreStep) :
    let s := openAt path disk
    let m := MemoryStore.mk (Values.ofFile disk.content)
    (∀ n, disk.attempts ≤ n → n < (run reopen s steps).disk.attempts → disk.accepts n = true) →
      loads reopen s steps = loads id m steps ∧
      (∀ key, StateStore.load (run reopen s steps) key
        = fate key ((Values.ofFile disk.content).get? key) steps) ∧
      ∀ before key value after, steps = before ++ .call (.save key value) :: after →
        let saved := StateStore.save (run reopen s before) key value
        saved.1 = .ok () ∧ ∃ text, saved.2.disk.content = .text text ∧
          (run id m (before ++ [.call (.save key value)])).values.IsWritten text := by
  intro s m haccepted
  have hopen : s.Mirrors m := ⟨rfl, rfl⟩
  obtain ⟨hrun, hloads⟩ := hopen.run haccepted
  refine ⟨hloads, fun key ↦ ?_, fun before key value after hsteps ↦ ?_⟩
  · exact (congrArg (Values.get? · key) hrun.values).trans (load_run_memory m steps key)
  · have hall : s.AllAccepted (run reopen s steps) := haccepted
    rw [hsteps] at hall
    obtain ⟨hbefore, hsave⟩ := AllAccepted.append before (.call (.save key value) :: after) hall
    obtain ⟨hone, -⟩ := AllAccepted.append [.call (.save key value)] after hsave
    rw [show run id m (before ++ [.call (.save key value)])
      = (StateStore.save (run id m before) key value).2 from List.foldl_append]
    exact (hopen.run hbefore).1.save key value hone

/-- A corrupt file, a removal of nothing, keys out of order and a text of odd characters. -/
theorem refines_memory_corrupt_file :
    let s := openAt "state.json" (.reliable (.text "["))
    let m := MemoryStore.mk Values.empty
    let steps : List StoreStep := [.call (.remove "b"), .reopen, .call (.save "b" "\"\n😀"),
      .reopen, .call (.save "a" "1"), .load "b", .call (.save "a" "2"), .reopen, .load "a"]
    loads reopen s steps = [some "\"\n😀", some "2"] ∧ loads reopen s steps = loads id m steps ∧
      (∀ key, StateStore.load (run reopen s steps) key = fate key none steps) ∧
      ∀ before key value after, steps = before ++ .call (.save key value) :: after →
        let saved := StateStore.save (run reopen s before) key value
        saved.1 = .ok () ∧ ∃ text, saved.2.disk.content = .text text ∧
          (run id m (before ++ [.call (.save key value)])).values.IsWritten text := by
  intro s m steps
  have hempty : Values.ofFile (.text "[") = Values.empty := by decide +kernel
  have hrefines := refines_memory "state.json" (.reliable (.text "[")) steps fun _ _ _ ↦ rfl
  rw [show (Disk.reliable (.text "[")).content = .text "[" from rfl, hempty] at hrefines
  exact ⟨by decide +kernel, hrefines⟩

end FileStore

end Calculator

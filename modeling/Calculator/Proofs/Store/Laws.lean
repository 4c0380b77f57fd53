import Calculator.Proofs.Store.RoundTrip
import Calculator.Store.Basic

/-!
# What stores keep

A text is loaded from the key that it was saved under last, and no other key is touched by saving or
removing (`LawfulStore`).  Both stores do this, and for the one in a file it makes no difference
whether the file could be written.

The next one to open the file finds what could be written, which is the whole map as it was at the
last attempt that succeeded.  So if no attempt has failed since the store was opened, then the file
holds the values of the store (`UsedSince.synced`), and the store is found as it is
(`FileStore.reopen_eq_self`).
-/

set_option autoImplicit false

namespace Calculator

/-- A store in which a text is found under the key it was put under, until it is replaced or taken
away. -/
class LawfulStore (σ : Type) [StateStore σ] : Prop where
  load_save (s : σ) (key value other : String) :
    StateStore.load (StateStore.save s key value).2 other
      = if other = key then some value else StateStore.load s other
  load_remove (s : σ) (key other : String) :
    StateStore.load (StateStore.remove s key).2 other
      = if other = key then none else StateStore.load s other

instance : LawfulStore MemoryStore where
  load_save s key value other := s.values.get?_insert key value other
  load_remove s key other := s.values.get?_erase key other

namespace FileStore

variable {s t : FileStore}

theorem remove_eq (s : FileStore) (key : String) :
    StateStore.remove s key
      = if (s.values.get? key).isSome then s.flush (s.values.erase key) else (.ok (), s) := rfl

/-- Taking a text away, whether or not there is one. -/
theorem values_remove (s : FileStore) (key : String) :
    (StateStore.remove s key).2.values = s.values.erase key := by
  rw [remove_eq]
  split
  · rfl
  · rename_i h
    rw [Bool.not_eq_true, Option.isSome_eq_false_iff, Option.isNone_iff_eq_none] at h
    exact (Values.erase_eq_self h).symm

instance : LawfulStore FileStore where
  load_save s key value other := s.values.get?_insert key value other
  load_remove s key other := by
    show (StateStore.remove s key).2.values.get? other = _
    rw [values_remove, Values.get?_erase]
    rfl

/-! ## The file -/

/-- The file holds the values of the store. -/
def Synced (s : FileStore) : Prop := Values.ofFile s.disk.content = s.values

/-- No call takes an attempt to write back. -/
theorem attempts_le_save (s : FileStore) (key value : String) :
    s.disk.attempts ≤ (StateStore.save s key value).2.disk.attempts := Nat.le_succ _

theorem attempts_le_remove (s : FileStore) (key : String) :
    s.disk.attempts ≤ (StateStore.remove s key).2.disk.attempts := by
  rw [remove_eq]
  split
  · exact Nat.le_succ _
  · exact Nat.le_refl _

/-- The next one to open the file finds the store as it is. -/
theorem reopen_eq_self (h : s.Synced) : s.reopen = s := by
  rw [reopen, openAt, h]

theorem synced_openAt (path : String) (disk : Disk) : (openAt path disk).Synced := rfl

theorem synced_flush (values : Values) (h : s.disk.accepts s.disk.attempts = true) :
    (s.flush values).2.Synced := by
  have hcontent : (s.flush values).2.disk.content = .text values.json := if_pos h
  rw [Synced, hcontent]
  show ((some values.json).bind Values.ofJson?).getD Values.empty = values
  rw [Option.bind_some, values.ofJson?_json]
  rfl

/-- What is known of a store that was in step with its file and has been used since. -/
structure UsedSince (s t : FileStore) : Prop where
  accepts : t.disk.accepts = s.disk.accepts
  attempts_le : s.disk.attempts ≤ t.disk.attempts
  synced : (∀ n, s.disk.attempts ≤ n → n < t.disk.attempts → s.disk.accepts n = true) → t.Synced

namespace UsedSince

theorem refl (h : s.Synced) : s.UsedSince s := ⟨rfl, Nat.le_refl _, fun _ ↦ h⟩

theorem flush (h : s.UsedSince t) (values : Values) : s.UsedSince (t.flush values).2 where
  accepts := h.accepts
  attempts_le := Nat.le_succ_of_le h.attempts_le
  synced hall := by
    refine synced_flush values ?_
    rw [h.accepts]
    exact hall t.disk.attempts h.attempts_le (Nat.lt_succ_self _)

theorem save (h : s.UsedSince t) (key value : String) :
    s.UsedSince (StateStore.save t key value).2 :=
  h.flush (t.values.insert key value)

theorem remove (h : s.UsedSince t) (key : String) : s.UsedSince (StateStore.remove t key).2 := by
  rw [remove_eq]
  split
  · exact h.flush (t.values.erase key)
  · exact h

end UsedSince

end FileStore

end Calculator

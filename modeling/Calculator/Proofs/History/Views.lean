import Calculator.Proofs.History.Decoding
import Calculator.Screen.Lines
import Mathlib.Data.List.DropRight

/-!
# Looking at a history

The entries of a history are counted and looked up, shown on the screen, gone back to and stored.
Stored they stand in the order in which they were made, everywhere else in the opposite one, and
each of these views has its own way to get from the one to the other.

All of them are views of one list (`views_agree`), which does not mention how a history is kept:
what was recorded since the history was last cleared, newest first and as far as it fits.  Storing
the history and reading it back in between does not show.
-/

set_option autoImplicit false

namespace Calculator

/-- One goes back to the entry with the same index. -/
theorem Session.fst_revisit {σ : Type} (s : Session σ) (index : Nat) :
    (s.revisit index).1 = s.history.get? index := by
  rw [revisit]
  split <;> rename_i hget <;> exact hget.symm

namespace History

variable {h : History}

/-! ## Changes -/

/-- What can happen to a history. -/
inductive Change where
  | push (e : Entry)
  | clear
  /-- The history is stored and read back. -/
  | reload
deriving DecidableEq

/-- The history after a change. -/
def undergo (h : History) : Change → History
  | .push e => h.push e
  | .clear => empty
  | .reload => ofJson h.json

/-- What becomes of the empty history. -/
def undergoAll (changes : List Change) : History := changes.foldl undergo empty

/-- The entry that a change records. -/
def Change.entry? : Change → Option Entry
  | push e => some e
  | clear | reload => none

/-- What was recorded since the history was last cleared, oldest first. -/
def recorded (changes : List Change) : List Entry :=
  (changes.rtakeWhile (· ≠ .clear)).filterMap Change.entry?

/-- One more change leaves the end of what is recorded then, if the history is the end of what was
recorded before. -/
theorem stored_undergo {h : History} {changes : List Change}
    (hstored : h.stored = (recorded changes).drop ((recorded changes).length - limit))
    (change : Change) :
    (h.undergo change).stored = (recorded (changes ++ [change])).drop
      ((recorded (changes ++ [change])).length - limit) := by
  cases change with
  | push e =>
    have hrecorded : recorded (changes ++ [.push e]) = recorded changes ++ [e] := by
      rw [recorded, List.rtakeWhile_concat_pos _ _ _ (by simp), List.filterMap_append]
      rfl
    have hsize : h.size = (recorded changes).length - ((recorded changes).length - limit) := by
      rw [← List.length_drop, ← hstored, stored, List.length_reverse, size]
    rw [undergo, stored_push, hstored, hrecorded, List.length_append, List.length_singleton,
      ← List.drop_append_of_le_length (Nat.sub_le _ _), List.drop_drop]
    congr 1
    omega
  | clear =>
    rw [undergo, recorded, List.rtakeWhile_concat_neg _ _ _ (by simp)]
    rfl
  | reload =>
    have hrecorded : recorded (changes ++ [.reload]) = recorded changes := by
      rw [recorded, List.rtakeWhile_concat_pos _ _ _ (by simp), List.filterMap_append]
      exact List.append_nil _
    rw [undergo, ofJson_json, hrecorded, hstored]

/-- **The history is the end of what is recorded**, by induction on the changes from the first one
on. -/
theorem stored_undergoAll (changes : List Change) :
    (undergoAll changes).stored
      = (recorded changes).drop ((recorded changes).length - limit) := by
  induction changes using List.reverseRecOn with
  | nil => rfl
  | append_singleton changes change ih =>
    rw [undergoAll, List.foldl_concat]
    exact stored_undergo ih change

/-- Seen from the other side, these are the newest entries. -/
theorem entries_undergoAll (changes : List Change) :
    (undergoAll changes).entries = (recorded changes).reverse.take limit := by
  rw [List.take_reverse, ← stored_undergoAll, stored, List.reverse_reverse]

/-! ## The history on the screen -/

/-- The line of an entry without colour. -/
def plainLine (index : Nat) (e : Entry) : String :=
  "[" ++ index.repr ++ "] " ++ Text.grouped e.expression ++ " = " ++ Text.grouped e.result ++ "  "
    ++ e.timestamp

theorem entryLine_plain {p : Palette} (hp : p.color = false) (index : Nat) (e : Entry) :
    p.entryLine index e = plainLine index e := by
  apply String.toList_injective
  simp [Palette.entryLine, plainLine, Palette.paint_plain hp]

theorem historyLines_of_ne (p : Palette) (label : String) (hne : h.isEmpty = false) :
    p.historyLines label h = h.entries.mapIdx p.entryLine := by
  rw [Palette.historyLines, if_neg (by simp [hne])]

theorem getElem?_historyLines {p : Palette} (hp : p.color = false) (hne : h.isEmpty = false)
    (label : String) (index : Nat) :
    (p.historyLines label h)[index]? = (h.get? index).map (plainLine index) := by
  rw [historyLines_of_ne p label hne, List.getElem?_mapIdx, get?]
  exact Option.map_congr fun e _ ↦ entryLine_plain hp index e

/-! ## All views -/

/-- **All views of a history agree.**  After any changes, the entries recorded since the history was
last cleared are listed newest first and cut to the first twenty.  The number of entries, the newest
one and the one with any index are those of this list.  Stored are the same entries the other way
round, and there an index counts from the end.  Without colour there is a line for each entry, which
shows the index together with the entry that one goes back to with this index. -/
theorem views_agree (changes : List Change) :
    let h := undergoAll changes
    let newest := (recorded changes).reverse.take 20
    (h.entries = newest ∧ h.size = newest.length ∧ (h.isEmpty = true ↔ newest = []) ∧
      h.latest? = newest.head? ∧ ∀ index, h.get? index = newest[index]?) ∧
    (h.stored = (recorded changes).drop ((recorded changes).length - 20) ∧
      h.json = entriesJson h.stored ∧ h.latest? = h.stored.getLast? ∧
      ∀ index, h.get? index
        = if index < h.size then h.stored[h.size - 1 - index]? else none) ∧
    ∀ (p : Palette) (label : String), p.color = false → newest ≠ [] →
      (p.historyLines label h).length = h.size ∧
      ∀ (σ : Type) (s : Session σ), s.history = h → ∀ index,
        (p.historyLines label h)[index]? = (h.get? index).map (plainLine index) ∧
        (s.revisit index).1 = h.get? index ∧
        ∀ e, h.get? index = some e →
          (s.revisit index).2.input = e.expression ∧ (s.revisit index).2.result = e.result := by
  intro h newest
  have hentries : h.entries = newest := entries_undergoAll changes
  have hempty : h.isEmpty = true ↔ newest = [] := by
    rw [isEmpty, hentries, List.isEmpty_iff]
  refine ⟨⟨hentries, congrArg _ hentries, hempty, congrArg _ hentries, fun index ↦ ?_⟩,
    ⟨stored_undergoAll changes, h.json_eq, h.latest?_eq_getLast?_stored, h.get?_eq_stored⟩,
    fun p label hp hne ↦ ?_⟩
  · rw [get?, hentries]
  · have hne : h.isEmpty = false := Bool.eq_false_iff.mpr (mt hempty.mp hne)
    refine ⟨?_, fun σ s hs index ↦ ⟨getElem?_historyLines hp hne label index, ?_, fun e he ↦ ?_⟩⟩
    · rw [historyLines_of_ne p label hne, List.length_mapIdx, size]
    · rw [Session.fst_revisit, hs]
    · rw [Session.revisit_of_get? (hs ▸ he)]
      exact ⟨rfl, rfl⟩

/-- Of twenty-one entries the first is gone, and so is all that was there before the history was
cleared. -/
theorem views_agree_cleared :
    let entry (result : String) : Entry := ⟨"1000 + 1", result, "t"⟩
    let changes : List Change := [.push (entry "a"), .clear, .push (entry "b")]
      ++ List.replicate 19 (.push (entry "c")) ++ [.reload, .push (entry "1001")]
    let h := undergoAll changes
    let s : Session Unit := ⟨(), Config.default, "", "", h, .dark, true⟩
    let lines := Palette.historyLines ⟨.dark, false⟩ "No history yet" h
    h.size = 20 ∧ h.latest? = some (entry "1001") ∧ h.get? 19 = some (entry "c") ∧
      h.get? 20 = none ∧ lines.length = 20 ∧ lines[0]? = some "[0] 1,000 + 1 = 1,001  t" ∧
      (s.revisit 0).2.result = "1001" := by
  intro entry changes h s lines
  obtain ⟨⟨-, hsize, -, hlatest, hget⟩, -, hscreen⟩ := views_agree changes
  obtain ⟨hlines, hback⟩ := hscreen ⟨.dark, false⟩ "No history yet" rfl (by decide +kernel)
  have hnewest : (recorded changes).reverse.take 20
      = entry "1001" :: List.replicate 19 (entry "c") := by decide +kernel
  rw [hnewest] at hsize hlatest hget
  have hfirst : h.get? 0 = some (entry "1001") := hget 0
  obtain ⟨hline, -, hload⟩ := hback Unit s rfl 0
  refine ⟨hsize, hlatest, hget 19, hget 20, hlines.trans hsize, ?_, (hload _ hfirst).2⟩
  rw [hline, hfirst]
  decide +kernel

end History

end Calculator

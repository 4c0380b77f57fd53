import Calculator.History.Entry
import Calculator.Timestamp.Layout

/-!
# The history of calculations

The history holds the latest entries, at most `History.limit` of them; recording one more drops the
oldest.  The bound is part of the type.

Entries are kept and shown with the newest first, and an entry's index counts from the newest.
They are stored the other way round, as a JSON array with the oldest first, so that stored histories
grow at the end and lose entries at the beginning (`History.stored_push`).  A text that is no array
of entries stands for the empty history, and of an array that is too long the newest entries count.
-/

set_option autoImplicit false

namespace Calculator

/-- The most entries that are kept. -/
def History.limit : Nat := 20

/-- The latest entries, newest first. -/
structure History where
  entries : List Entry
  length_le : entries.length ≤ History.limit
deriving DecidableEq

namespace History

/-- The history without entries. -/
def empty : History := ⟨[], Nat.zero_le _⟩

/-- The history of all these entries, newest first, as far as they fit. -/
def ofNewest (entries : List Entry) : History :=
  ⟨entries.take limit, List.length_take_le _ _⟩

/-- Record an entry. -/
def push (h : History) (e : Entry) : History := ofNewest (e :: h.entries)

/-- The number of entries. -/
def size (h : History) : Nat := h.entries.length

def isEmpty (h : History) : Bool := h.entries.isEmpty

/-- The entry with this index; the newest has index zero. -/
def get? (h : History) (index : Nat) : Option Entry := h.entries[index]?

/-- The newest entry. -/
def latest? (h : History) : Option Entry := h.entries.head?

theorem eq_of_entries_eq {h k : History} (he : h.entries = k.entries) : h = k := by
  cases h
  cases k
  cases he
  rfl

/-- A list that fits is kept whole. -/
theorem entries_ofNewest {entries : List Entry} (h : entries.length ≤ limit) :
    (ofNewest entries).entries = entries :=
  List.take_of_length_le h

theorem ofNewest_entries (h : History) : ofNewest h.entries = h :=
  eq_of_entries_eq (entries_ofNewest h.length_le)

/-- What has been dropped makes no difference to what is recorded afterwards. -/
theorem push_ofNewest (entries : List Entry) (e : Entry) :
    (ofNewest entries).push e = ofNewest (e :: entries) := by
  apply eq_of_entries_eq
  simp only [push, ofNewest]
  rw [← List.take_succ_cons, List.take_take]
  simp

/-! ## The order in which entries are stored -/

/-- The entries as they are stored, oldest first. -/
def stored (h : History) : List Entry := h.entries.reverse

/-- An entry is recorded at the end, and what does not fit any more is dropped at the beginning. -/
theorem stored_push (h : History) (e : Entry) :
    (h.push e).stored = (h.stored ++ [e]).drop (h.size + 1 - limit) := by
  rw [stored, push, ofNewest, List.reverse_take, List.reverse_cons, List.length_cons, stored, size]

theorem latest?_eq_getLast?_stored (h : History) : h.latest? = h.stored.getLast? :=
  List.getLast?_reverse.symm

/-- An index counts from the end of what is stored, and does not get past its start. -/
theorem get?_eq_stored (h : History) (index : Nat) :
    h.get? index = if index < h.size then h.stored[h.size - 1 - index]? else none := by
  have hsize : h.entries.length = h.size := rfl
  split
  · rename_i hindex
    have hlast : h.size - 1 - index < h.entries.length := by omega
    have hback : h.entries.length - 1 - (h.size - 1 - index) = index := by omega
    rw [stored, List.getElem?_reverse hlast, hback, get?]
  · rename_i hindex
    exact List.getElem?_eq_none (Nat.le_of_not_lt hindex)

/-! ## JSON -/

/-- Texts with commas between. -/
def commaSeparated : List (List Char) → List Char
  | [] => []
  | [a] => a
  | a :: b :: rest => a ++ ',' :: commaSeparated (b :: rest)

/-- The history as it is stored. -/
def json (h : History) : String :=
  String.ofList ('[' :: commaSeparated (h.entries.reverse.map Entry.json) ++ [']'])

/-- The entries, oldest first, that a text stands for. -/
def entriesOfJson? (s : String) : Option (List Entry) :=
  match Json.parse s with
  | some (.array items) => items.mapM Entry.ofJson?
  | _ => none

/-- The history that a stored text stands for. -/
def ofJson (s : String) : History :=
  match entriesOfJson? s with
  | some entries => ofNewest entries.reverse
  | none => empty

/-- The history that may have been stored. -/
def ofStored (stored : Option String) : History :=
  match stored with
  | some s => ofJson s
  | none => empty

end History

end Calculator

import Calculator.Store.Values

/-!
# Stores

A store keeps texts under keys, and the last text saved under a key is the one that is loaded.
There are two stores.  A `MemoryStore` only lives as long as the program.  A `FileStore` keeps a
copy of its values in memory, from which it loads, and writes all of them to one file whenever they
change.

The file is on a `Disk`, which may refuse to write.  Nothing is known about when it does, so a disk
carries the answer to each attempt: `accepts n` says whether the attempt succeeds that is made after
`n` others.  A refused attempt leaves the file as it was, but not the values in memory.

A file that is missing, cannot be read or does not hold a map of texts is as good as an empty one,
and stays as it is until something is saved.
-/

set_option autoImplicit false

namespace Calculator

/-- The key of the preferred theme. -/
def themeKey : String := "calculator_theme"

/-- The key of the history. -/
def historyKey : String := "calculator_history"

/-- The path of a file in a directory.  The empty path is the directory where one is. -/
def joinPath (directory name : String) : String :=
  if directory = "" ∨ directory.toList.getLast? = some '/' then directory ++ name
  else directory ++ "/" ++ name

/-- The path of the file that a store in this directory is kept in. -/
def statePath (directory : String) : String := joinPath directory "state.json"

/-- A file that could not be written. -/
structure StoreError where
  path : String
deriving DecidableEq, Repr

/-- The wording of the error. -/
def StoreError.message (e : StoreError) : String := "failed to access " ++ e.path

/-- What can be done with a store. -/
class StateStore (σ : Type) where
  /-- The text under a key. -/
  load : σ → String → Option String
  /-- Put a text under a key. -/
  save : σ → String → String → Except StoreError Unit × σ
  /-- Take the text under a key away. -/
  remove : σ → String → Except StoreError Unit × σ

/-! ## In memory -/

/-- A store that lives as long as the program. -/
structure MemoryStore where
  values : Values
deriving DecidableEq

instance : StateStore MemoryStore where
  load s key := s.values.get? key
  save s key value := (.ok (), ⟨s.values.insert key value⟩)
  remove s key := (.ok (), ⟨s.values.erase key⟩)

/-! ## In a file -/

/-- What there is to read at a path. -/
inductive FileContent where
  | missing
  | unreadable
  | text (content : String)
deriving DecidableEq, Repr

/-- The text of a file, if it has one. -/
def FileContent.text? : FileContent → Option String
  | text content => some content
  | _ => none

/-- A file, and whether the attempts to write it succeed. -/
structure Disk where
  content : FileContent
  accepts : Nat → Bool
  attempts : Nat

namespace Disk

/-- A disk with this content that never refuses. -/
def reliable (content : FileContent) : Disk := ⟨content, fun _ ↦ true, 0⟩

/-- Try to write the file. -/
def write (d : Disk) (content : String) : Bool × Disk :=
  let accepted := d.accepts d.attempts
  (accepted,
    ⟨if accepted then .text content else d.content, d.accepts, d.attempts + 1⟩)

end Disk

/-- The map that a file holds. -/
def Values.ofFile (content : FileContent) : Values :=
  (content.text?.bind Values.ofJson?).getD Values.empty

/-- A store that is kept in a file. -/
structure FileStore where
  path : String
  disk : Disk
  values : Values

namespace FileStore

/-- The store in the file at this path. -/
def openAt (path : String) (disk : Disk) : FileStore := ⟨path, disk, Values.ofFile disk.content⟩

/-- The store as it is found by the next one who opens its file. -/
def reopen (s : FileStore) : FileStore := openAt s.path s.disk

/-- Replace the values, and write them to the file. -/
def flush (s : FileStore) (values : Values) : Except StoreError Unit × FileStore :=
  let (accepted, disk) := s.disk.write values.json
  (if accepted then .ok () else .error ⟨s.path⟩, ⟨s.path, disk, values⟩)

end FileStore

/-- Taking away what is not there does not touch the file. -/
instance : StateStore FileStore where
  load s key := s.values.get? key
  save s key value := s.flush (s.values.insert key value)
  remove s key :=
    if (s.values.get? key).isSome then s.flush (s.values.erase key) else (.ok (), s)

end Calculator

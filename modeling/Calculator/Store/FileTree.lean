import Calculator.Store.Basic

/-!
# Trees of files

A file tree says what there is to read at each path and which paths can be written, as far as that
follows from the files alone.  Only files are recorded: a directory is what leads to a file or to
the working directory, and writing a file makes the directories that lead to it.

A path is followed name by name.  One that does not begin with a slash begins in the working
directory, one dot and an empty name stay where they are, and two dots go back.  All of them, like
any other name, have to be looked up in a directory: a reader finds nothing behind a directory that
is missing and fails at a file in its place, while a writer makes what is missing first.  A path
cannot hold a null character, and the length of names and paths is limited.
-/

set_option autoImplicit false

namespace Calculator

/-- The names of the directories from the root to a file, and that of the file. -/
abbrev Location := List String

/-- The files of a computer, and the directory that paths begin in. -/
structure FileTree where
  files : List (Location × String)
  workingDirectory : Location
deriving DecidableEq, Repr

/-- Where a path leads. -/
inductive Place where
  | found (location : Location)
  /-- Nothing is there. -/
  | missing
  /-- The path cannot be followed. -/
  | obstructed
deriving DecidableEq, Repr

namespace FileTree

/-! ## Names -/

/-- The most bytes in a name. -/
def nameLimit : Nat := 255

/-- The most bytes in a path. -/
def pathLimit : Nat := 4095

/-- What a path can be. -/
def isPath (path : String) : Bool :=
  !path.toList.contains '\x00' && path.utf8ByteSize ≤ pathLimit

/-- The location that a name leads to from a directory, unless the name is too long. -/
def child? (l : Location) (name : String) : Option Location :=
  if name = "" ∨ name = "." then some l
  else if name = ".." then some l.dropLast
  else if name.utf8ByteSize ≤ nameLimit then some (l ++ [name])
  else none

variable (t : FileTree)

/-- The location that a path begins at. -/
def start (path : String) : Location :=
  if path.toList.head? = some '/' then [] else t.workingDirectory

/-! ## Files and directories -/

/-- The text of the file at a location. -/
def fileAt? (l : Location) : Option String := t.files.lookup l

/-- There is a directory at a location. -/
def isDirectory (l : Location) : Bool :=
  l.isPrefixOf t.workingDirectory || t.files.any fun f ↦ l != f.1 && l.isPrefixOf f.1

/-- Put a text at a location. -/
def put (l : Location) (text : String) : FileTree :=
  { t with files := (l, text) :: t.files.filter fun f ↦ f.1 != l }

/-! ## Reading -/

/-- Look a name up. -/
def lookUp (place : Place) (name : String) : Place :=
  match place with
  | .found l =>
    if t.isDirectory l then ((child? l name).map Place.found).getD .obstructed
    else if (t.fileAt? l).isSome then .obstructed
    else .missing
  | other => other

/-- Where a path leads. -/
def locate (path : String) : Place :=
  if isPath path then (path.splitOn "/").foldl t.lookUp (.found (t.start path)) else .obstructed

/-- What there is to read at a path. -/
def content (path : String) : FileContent :=
  match t.locate path with
  | .found l =>
    match t.fileAt? l with
    | some text => .text text
    | none => if t.isDirectory l then .unreadable else .missing
  | .missing => .missing
  | .obstructed => .unreadable

/-! ## Writing -/

/-- Follow a name, making a directory to look it up in if there is none. -/
def enter (l : Location) (name : String) : Option Location :=
  if (t.fileAt? l).isSome then none else child? l name

/-- The location of the file that can be written at a path. -/
def target? (path : String) : Option Location :=
  if isPath path then
    ((path.splitOn "/").foldlM t.enter (t.start path)).filter fun l ↦ !t.isDirectory l
  else none

/-- The file at a path as a disk. -/
def disk (path : String) : Disk := ⟨t.content path, fun _ ↦ (t.target? path).isSome, 0⟩

/-- The tree after a disk has been used. -/
def update (path : String) (d : Disk) : FileTree :=
  match d.content, t.target? path with
  | .text text, some l => t.put l text
  | _, _ => t

end FileTree

end Calculator

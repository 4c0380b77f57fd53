import Calculator.Toml.Scalar
import Calculator.Toml.Table
import Calculator.Toml.Text

/-!
# TOML documents

A document is read line by line into one table.  A line is blank, a header or a key with a value; a
value may go on over several lines if it is an array, a table in braces or a long string.

Arrays and tables in braces may be nested up to `nestingLimit` deep.  Nothing can be added to them
once they are closed, so what they hold is checked and then forgotten; within the braces of a table,
keys follow the same rules as in the document.  In both, a comma may follow the last element, and
blanks, comments and line ends may stand between the parts, which include the equals sign of an
entry in braces.  A key is one part, on one line like the whole of a header, and has at most
`keyLimit` names.
-/

set_option autoImplicit false

namespace Calculator.Toml

/-! ## Keys -/

def isBareChar (c : Char) : Bool := c.isAlphanum || c == '_' || c == '-'

/-- One name of a key, and the rest of the document. -/
def scanName (cs : List Char) : Option (String × List Char) :=
  match cs.takeWhile isBareChar with
  | [] => (scanShortText cs).map fun s ↦ (String.ofList s.1, s.2)
  | name => some (String.ofList name, cs.dropWhile isBareChar)

/-- The most names that a key or a header can have. -/
def keyLimit : Nat := 80

/-- The names of a key, at most as many as the first argument says, and the rest of the document.
Only spaces and tabs may stand between them. -/
def scanKey : Nat → List Char → Option (List String × List Char)
  | 0, _ => none
  | n + 1, cs => do
    let (name, rest) ← scanName (skipSpaces cs)
    match skipSpaces rest with
    | '.' :: rest => do
      let (names, rest) ← scanKey n rest
      return (name :: names, rest)
    | rest => return ([name], rest)

/-- The names of a key and the text of its value.  The first argument drops what may stand on both
sides of the equals sign. -/
def scanKeyAndEquals (skip : List Char → List Char) (cs : List Char) :
    Option (List String × List Char) := do
  let (key, rest) ← scanKey keyLimit cs
  return (key, skip (← expect? '=' (skip rest)))

/-! ## Values -/

/-- How deep arrays and tables in braces may be nested. -/
def nestingLimit : Nat := 80

/-- The text behind the elements of an array and its closing bracket. -/
def arrayItems? (value : List Char → Option (Item × List Char)) :
    Nat → List Char → Option (List Char)
  | 0, _ => none
  | n + 1, cs =>
    match skipBlank cs with
    | ']' :: rest => some rest
    | cs => do
      let (_, rest) ← value cs
      match skipBlank rest with
      | ',' :: rest => arrayItems? value n rest
      | ']' :: rest => some rest
      | _ => none

/-- The text behind the entries of a table in braces and its closing brace. -/
def braceEntries? (value : List Char → Option (Item × List Char)) :
    Nat → Entries → List Char → Option (List Char)
  | 0, _, _ => none
  | n + 1, entries, cs =>
    match skipBlank cs with
    | '\x7d' :: rest => some rest
    | cs => do
      let (key, rest) ← scanKeyAndEquals skipBlank cs
      let (item, rest) ← value rest
      let entries ← entries.insert item key
      match skipBlank rest with
      | ',' :: rest => braceEntries? value n entries rest
      | '\x7d' :: rest => some rest
      | _ => none

/-- A value that is nested at most this deep, and the rest of the document. -/
def scanValue : Nat → List Char → Option (Item × List Char)
  | depth, '[' :: rest =>
    match depth with
    | 0 => none
    | depth + 1 =>
      (arrayItems? (scanValue depth) (rest.length + 1) rest).map fun rest ↦ (.other, rest)
  | depth, '\x7b' :: rest =>
    match depth with
    | 0 => none
    | depth + 1 =>
      (braceEntries? (scanValue depth) (rest.length + 1) [] rest).map fun rest ↦ (.other, rest)
  | _, '"' :: rest =>
    (scanText ('"' :: rest)).map fun s ↦ (.text (String.ofList s.1), s.2)
  | _, '\'' :: rest =>
    (scanText ('\'' :: rest)).map fun s ↦ (.text (String.ofList s.1), s.2)
  | _, cs => (scalar? cs).map fun rest ↦ (.other, rest)

/-! ## Lines -/

/-- The document so far, and the table that keys are added to. -/
structure Progress where
  root : Entries
  path : List String

/-- Read a line that is a header or a key with a value. -/
def readLine (state : Progress) : List Char → Option (Progress × List Char)
  | '[' :: '[' :: rest => do
    let (key, rest) ← scanKey keyLimit rest
    let rest ← expect? ']' (← expect? ']' rest)
    let root ← state.root.change (Entries.openArrayTable (← key.getLast?)) key.dropLast
    return (⟨root, key⟩, ← endLine? rest)
  | '[' :: rest => do
    let (key, rest) ← scanKey keyLimit rest
    let rest ← expect? ']' rest
    let root ← state.root.change (Entries.openTable (← key.getLast?)) key.dropLast
    return (⟨root, key⟩, ← endLine? rest)
  | cs => do
    let (key, rest) ← scanKeyAndEquals skipSpaces cs
    let (item, rest) ← scanValue nestingLimit rest
    let root ← state.root.change (Entries.insert item key) state.path
    return (⟨root, state.path⟩, ← endLine? rest)

/-- Read the lines of a document; the first argument bounds their number. -/
def readLines : Nat → Progress → List Char → Option Entries
  | 0, _, _ => none
  | n + 1, state, cs =>
    match skipBlank cs with
    | [] => some state.root
    | cs => do
      let (next, rest) ← readLine state cs
      readLines n next rest

/-- The entries of a document.  A byte order mark in front of it does not count. -/
def parse (s : String) : Option Entries :=
  let cs :=
    match s.toList with
    | '\uFEFF' :: cs => cs
    | cs => cs
  readLines (cs.length + 1) ⟨[], []⟩ cs

end Calculator.Toml

/-!
# Tables in TOML

A document is a table of named items.  Tables come about in three ways, and how one came about
decides how it may grow:

* a *header* names a table, once; keys are added to it by the lines that follow;
* a header with several names *implies* the tables on the way to the last one, and each of those may
  still get a header of its own;
* a *dotted* key makes the tables on the way to its last name, and only dotted keys add to those,
  apart from headers of tables within them.

Of an array of tables only the last one can still be added to, and it is the only one kept.  Items
that nothing can be added to are texts and all others.
-/

set_option autoImplicit false

namespace Calculator.Toml

/-- How a table came about. -/
inductive Origin where
  | header
  | implied
  | dotted
deriving DecidableEq, Repr

/-- What a name stands for. -/
inductive Item where
  | text (value : String)
  | other
  | table (origin : Origin) (entries : List (String × Item))
  | lastTable (entries : List (String × Item))

/-- The entries of a table. -/
abbrev Entries := List (String × Item)

namespace Entries

/-- The item with this name. -/
def find? (entries : Entries) (name : String) : Option Item :=
  (List.find? (fun e ↦ e.1 == name) entries).map Prod.snd

/-- Put an item in the place of the one with the same name, or at the end. -/
def set (entries : Entries) (name : String) (item : Item) : Entries :=
  if entries.any fun e ↦ e.1 == name then
    entries.map fun e ↦ if e.1 == name then (name, item) else e
  else entries ++ [(name, item)]

/-- Change the table at the end of a path; the tables on the way may be implied. -/
def change (f : Entries → Option Entries) : List String → Entries → Option Entries
  | [], entries => f entries
  | name :: path, entries =>
    match entries.find? name with
    | none => (change f path []).map fun t ↦ entries.set name (.table .implied t)
    | some (.table origin t) =>
      (change f path t).map fun t ↦ entries.set name (.table origin t)
    | some (.lastTable t) => (change f path t).map fun t ↦ entries.set name (.lastTable t)
    | some _ => none

/-- A header for a table with this name. -/
def openTable (name : String) (entries : Entries) : Option Entries :=
  match entries.find? name with
  | none => some (entries.set name (.table .header []))
  | some (.table .implied t) => some (entries.set name (.table .header t))
  | some _ => none

/-- A header for one more table of an array with this name. -/
def openArrayTable (name : String) (entries : Entries) : Option Entries :=
  match entries.find? name with
  | none => some (entries.set name (.lastTable []))
  | some (.lastTable _) => some (entries.set name (.lastTable []))
  | some _ => none

/-- Add an item under a key, which may be dotted.  The item's own table has to be made by dotted
keys if the key has several names. -/
def insert (item : Item) : List String → Entries → Option Entries
  | [], _ => none
  | [name], entries => if (entries.find? name).isNone then some (entries.set name item) else none
  | name :: path, entries =>
    match entries.find? name with
    | none => (insert item path []).map fun t ↦ entries.set name (.table .dotted t)
    | some (.table origin t) =>
      if origin = .header || (path.length == 1 && origin != .dotted) then none
      else (insert item path t).map fun t ↦ entries.set name (.table origin t)
    | some (.lastTable t) =>
      if path.length == 1 then none
      else (insert item path t).map fun t ↦ entries.set name (.lastTable t)
    | some _ => none

end Entries

end Calculator.Toml

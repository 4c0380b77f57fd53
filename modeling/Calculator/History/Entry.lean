import Calculator.Evaluation
import Calculator.Json.Value

/-!
# Entries of the history

An entry records one successful calculation: the expression as it was typed, the text of its result
and a timestamp.

Entries are stored as JSON.  An entry is written as an object with its three fields in order.  It is
read from an object that has each of the three fields once, as a string, and possibly others that do
not matter, or from an array of exactly three strings.
-/

set_option autoImplicit false

namespace Calculator

/-- A recorded calculation. -/
structure Entry where
  expression : String
  result : String
  timestamp : String
deriving DecidableEq, Repr

namespace Entry

/-- The entry of a calculation that succeeded. -/
def ofOutcome? (outcome : Outcome) (timestamp : String) : Option Entry :=
  match outcome with
  | .success expression _ result => some ⟨expression, result, timestamp⟩
  | .failure _ _ => none

/-! ## JSON -/

/-- The entry as a JSON object. -/
def json (e : Entry) : List Char :=
  '\x7b' :: Json.quote "expression" ++ ':' :: Json.quote e.expression
    ++ ',' :: Json.quote "result" ++ ':' :: Json.quote e.result
    ++ ',' :: Json.quote "timestamp" ++ ':' :: Json.quote e.timestamp ++ ['\x7d']

/-- The text of the one member with this name. -/
def field? (name : String) (members : List (Option String × Json)) : Option String :=
  (Json.uniqueMember? name members).bind Json.text?

/-- The entry that a JSON value stands for.  The names of all members have to be texts. -/
def ofJson? : Json → Option Entry
  | .object members =>
    if members.all fun m ↦ m.1.isSome then do
      return ⟨← field? "expression" members, ← field? "result" members,
        ← field? "timestamp" members⟩
    else none
  | .array [.string (some expression), .string (some result), .string (some timestamp)] =>
    some ⟨expression, result, timestamp⟩
  | _ => none

end Entry

end Calculator

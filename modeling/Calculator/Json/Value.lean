import Calculator.Json.Lexer

/-!
# JSON values

The grammar of JSON, read token by token.  The reader remembers the arrays and objects that are
still open, each with what has been read of it, and is in one of six states, which say what may come
next. A value that is finished goes into the innermost open array or object, or is the whole
document.

Members of an object keep their order and may repeat a name.  What a repeated or an unknown name
means is for the reader of a particular document to say.
-/

set_option autoImplicit false

namespace Calculator

/-- A JSON value.  A string that spells no text is `none`. -/
inductive Json where
  | null
  | bool (value : Bool)
  | number (text : String)
  | string (text : Option String)
  | array (items : List Json)
  | object (members : List (Option String × Json))

namespace Json

/-- An array or object that is still open; what has been read of it stands in reverse. -/
inductive Frame where
  | array (items : List Json)
  | member (members : List (Option String × Json)) (name : Option String)

/-- What may come next. -/
inductive State where
  /-- A value. -/
  | value (stack : List Frame)
  /-- A value, or the end of an empty array. -/
  | firstItem (stack : List Frame)
  /-- A name, or the end of an empty object. -/
  | firstName (stack : List Frame)
  /-- A name. -/
  | name (stack : List Frame) (members : List (Option String × Json))
  /-- A colon behind a name. -/
  | colon (stack : List Frame) (members : List (Option String × Json)) (name : Option String)
  /-- A comma or the end of what is open, behind a value. -/
  | done (stack : List Frame) (finished : Json)

/-- Read the token that a value starts with. -/
def beginValue (stack : List Frame) : Token → Option State
  | .openBrace => some (.firstName stack)
  | .openBracket => some (.firstItem stack)
  | .string s => some (.done stack (.string s))
  | .number s => some (.done stack (.number s))
  | .bool b => some (.done stack (.bool b))
  | .null => some (.done stack .null)
  | _ => none

/-- Read one token. -/
def step : State → Token → Option State
  | .value stack, t => beginValue stack t
  | .firstItem stack, .closeBracket => some (.done stack (.array []))
  | .firstItem stack, t => beginValue (.array [] :: stack) t
  | .firstName stack, .closeBrace => some (.done stack (.object []))
  | .firstName stack, .string s => some (.colon stack [] s)
  | .name stack members, .string s => some (.colon stack members s)
  | .colon stack members s, .colon => some (.value (.member members s :: stack))
  | .done (.array items :: stack) v, .comma => some (.value (.array (v :: items) :: stack))
  | .done (.array items :: stack) v, .closeBracket =>
    some (.done stack (.array (v :: items).reverse))
  | .done (.member members s :: stack) v, .comma => some (.name stack ((s, v) :: members))
  | .done (.member members s :: stack) v, .closeBrace =>
    some (.done stack (.object ((s, v) :: members).reverse))
  | _, _ => none

/-- The document that has been read. -/
def finish : State → Option Json
  | .done [] v => some v
  | _ => none

/-- Read tokens from a given state on. -/
def run (state : State) (ts : List Token) : Option State := ts.foldlM step state

theorem run_nil (state : State) : run state [] = some state := rfl

theorem run_cons (state : State) (t : Token) (ts : List Token) :
    run state (t :: ts) = (step state t).bind fun next ↦ run next ts := rfl

/-- Tokens can be read in pieces. -/
theorem run_append (state : State) (a b : List Token) :
    run state (a ++ b) = (run state a).bind fun next ↦ run next b := by
  rw [run, List.foldlM_append]
  rfl

/-- The document that a text is. -/
def parse (s : String) : Option Json := do
  finish (← run (.value []) (← lex s.toList))

/-! ## Looking into a value -/

/-- The text of a string. -/
def text? : Json → Option String
  | .string s => s
  | _ => none

/-- The value of the one member with this name. -/
def uniqueMember? (name : String) (members : List (Option String × Json)) : Option Json :=
  match members.filter fun m ↦ m.1 == some name with
  | [m] => some m.2
  | _ => none

end Json

end Calculator

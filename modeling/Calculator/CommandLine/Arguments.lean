/-!
# Arguments

The arguments of the program are options followed by an expression.  A switch is either given or
not, and a setting has a value, which is the next argument or follows an equals sign.  The short
switches can be joined behind one dash.

An expression may begin with a minus sign, as in `-5+3`, so an argument with a dash is an option
only if it is known as one.  The first argument that is not an option begins the expression, to
which all further arguments belong, whatever they look like.  A double dash ends the options too,
without being part of the expression.

Options are read one after the other, and the first that asks for something else than a calculation
decides, or the first mistake: an option that is given twice, a switch with a value, or a setting
without one.
-/

set_option autoImplicit false

namespace Calculator.CommandLine

/-- An option that is given or not. -/
inductive Switch where
  | noPersist
  | noHistory
  | verbose
  | version
  | help
deriving DecidableEq, Repr

/-- An option that has a value. -/
inductive Setting where
  | config
  | dataDirectory
deriving DecidableEq, Repr

/-- What the arguments ask for. -/
structure Invocation where
  /-- The configuration file to load. -/
  config : Option String
  /-- The directory that the state is kept in. -/
  dataDirectory : Option String
  /-- Nothing is kept. -/
  noPersist : Bool
  /-- A single result is not recorded. -/
  noHistory : Bool
  verbose : Bool
  /-- The arguments that make up the expression. -/
  words : List String
deriving DecidableEq, Repr

/-- A reason not to calculate at all. -/
inductive Stop where
  | misuse
  | version
  | help
deriving DecidableEq, Repr

namespace Switch

def name : Switch → String
  | noPersist => "no-persist"
  | noHistory => "no-history"
  | verbose => "verbose"
  | version => "version"
  | help => "help"

/-- The switch of a letter. -/
def ofLetter? : Char → Option Switch
  | 'v' => some verbose
  | 'V' => some version
  | 'h' => some help
  | _ => none

def all : List Switch := [noPersist, noHistory, verbose, version, help]

/-- The switch with this name. -/
def ofName? (name : String) : Option Switch := all.find? fun s ↦ s.name == name

end Switch

namespace Setting

def name : Setting → String
  | config => "config"
  | dataDirectory => "data-dir"

def all : List Setting := [config, dataDirectory]

/-- The setting with this name. -/
def ofName? (name : String) : Option Setting := all.find? fun s ↦ s.name == name

end Setting

/-! ## Kinds of arguments -/

/-- What an argument is that stands before the expression. -/
inductive Argument where
  /-- The end of the options. -/
  | separator
  /-- Switches that have no value. -/
  | switches (given : List Switch)
  /-- A switch with a value. -/
  | overfull
  | setting (setting : Setting) (value? : Option String)
  /-- The beginning of the expression. -/
  | word
deriving DecidableEq, Repr

namespace Argument

/-- What follows the first equals sign, and what precedes it. -/
def splitValue (cs : List Char) : String × Option String :=
  match cs.span (· != '=') with
  | (name, _ :: value) => (String.ofList name, some (String.ofList value))
  | (name, []) => (String.ofList name, none)

/-- What an argument is that begins with two dashes, of which the rest is given. -/
def ofLong (cs : List Char) : Argument :=
  let (name, value?) := splitValue cs
  match Setting.ofName? name, Switch.ofName? name, value? with
  | some s, _, _ => setting s value?
  | none, some _, some _ => overfull
  | none, some s, none => switches [s]
  | none, none, _ => word

/-- What an argument is that begins with one dash, of which the rest is given. -/
def ofLetters (cs : List Char) : Argument :=
  match cs.mapM Switch.ofLetter? with
  | some given => switches given
  | none => word

/-- What an argument is. -/
def ofString (s : String) : Argument :=
  match s.toList with
  | ['-', '-'] => separator
  | '-' :: '-' :: cs => ofLong cs
  | ['-'] => word
  | '-' :: cs => ofLetters cs
  | _ => word

end Argument

/-! ## Reading -/

namespace Invocation

/-- What no arguments ask for. -/
def plain : Invocation := ⟨none, none, false, false, false, []⟩

/-- Give a switch. -/
def give (i : Invocation) : Switch → Except Stop Invocation
  | .noPersist => if i.noPersist then .error .misuse else .ok { i with noPersist := true }
  | .noHistory => if i.noHistory then .error .misuse else .ok { i with noHistory := true }
  | .verbose => if i.verbose then .error .misuse else .ok { i with verbose := true }
  | .version => .error .version
  | .help => .error .help

/-- Give a setting its value, which is not empty. -/
def set (i : Invocation) (s : Setting) (value : String) : Except Stop Invocation :=
  if value.isEmpty then .error .misuse
  else
    match s with
    | .config => if i.config.isSome then .error .misuse else .ok { i with config := some value }
    | .dataDirectory =>
      if i.dataDirectory.isSome then .error .misuse else .ok { i with dataDirectory := some value }

/-- Read the arguments.  A setting can wait for its value, which has to be there before another
option. -/
def read (i : Invocation) (waiting : Option Setting) : List String → Except Stop Invocation
  | [] => if waiting.isSome then .error .misuse else .ok i
  | a :: rest =>
    match Argument.ofString a, waiting with
    | .word, some s => do read (← i.set s a) none rest
    | .word, none => .ok { i with words := a :: rest }
    | _, some _ => .error .misuse
    | .separator, none => .ok { i with words := rest }
    | .switches given, none => do read (← given.foldlM give i) none rest
    | .overfull, none => .error .misuse
    | .setting s (some value), none => do read (← i.set s value) none rest
    | .setting s none, none => read i (some s) rest

/-- What the arguments ask for. -/
def ofArguments (arguments : List String) : Except Stop Invocation := read plain none arguments

/-- The expression to be evaluated, blank if there is none. -/
def expression (i : Invocation) : String := " ".intercalate i.words

end Invocation

end Calculator.CommandLine

import Calculator.CommandLine.Report
import Calculator.Store.FileTree

/-!
# Runs of the program

A run loads a configuration, opens a session and either evaluates the expression among its arguments
or holds a dialog.  It needs no session if it evaluates an expression that is not to be recorded.

The configuration is loaded from the file that the arguments name, or else from one below the home
directory.  The state is kept in the directory that the arguments name, or else the one that is
configured, or else one below the home directory.  Without a home directory nothing is configured
and the state is kept where the program runs.

`run` is a whole run among given surroundings.  It answers with the report and the files afterwards.
-/

set_option autoImplicit false

namespace Calculator.CommandLine

/-- The name that files of the program are kept under. -/
def programName : String := "zcalc"

/-- The configuration file in a home directory. -/
def homeConfig (home : String) : String :=
  joinPath (joinPath (joinPath home ".config") programName) "config.toml"

/-- The directory for state in a home directory. -/
def homeData (home : String) : String := joinPath (joinPath home ".local/share") programName

/-- Where the state of a run is kept. -/
inductive Keeping where
  /-- There is no state. -/
  | nowhere
  | inMemory
  | inDirectory (path : String)
deriving DecidableEq, Repr

namespace Invocation

/-- The configuration file to load. -/
def configPath? (i : Invocation) (home : Option String) : Option String :=
  i.config <|> home.map homeConfig

/-- Prefer the directory among the arguments to the one that is configured. -/
def override (i : Invocation) (c : Config) : Config :=
  { c with dataDirectory := i.dataDirectory <|> c.dataDirectory }

/-- The configuration of a run, if what is read at a path is given. -/
def configure (i : Invocation) (home : Option String) (read : String → FileContent) :
    Except ConfigError Config :=
  match i.configPath? home with
  | none => .ok (i.override .default)
  | some path => (Config.load path (read path)).map i.override

/-- The directory that the state is kept in. -/
def stateDirectory (home : Option String) (c : Config) : String :=
  (c.dataDirectory <|> home.map homeData).getD "."

/-- Where the state is kept. -/
def keeping (i : Invocation) (home : Option String) (c : Config) : Keeping :=
  if i.noHistory && !Text.allBlank i.expression.toList then .nowhere
  else if i.noPersist then .inMemory
  else .inDirectory (stateDirectory home c)

end Invocation

/-- What surrounds a run. -/
structure Surroundings where
  files : FileTree
  home : Option String
  /-- Output is painted. -/
  color : Bool
  moment : Moment
  input : List UInt8

namespace Surroundings

variable (w : Surroundings)

/-- Serve an invocation in a session with this store. -/
def serve {σ : Type} [StateStore σ] (i : Invocation) (c : Config) (store : σ) :
    Report × Session σ :=
  (Session.start store c).serve w.color w.moment i.expression (arrivals w.moment w.input)

/-- Serve an invocation with this configuration. -/
def serveWith (i : Invocation) (c : Config) : Report × FileTree :=
  match i.keeping w.home c with
  | .nowhere => (.ofOutcome? (calculate c.errorMarker i.expression), w.files)
  | .inMemory => ((w.serve i c (MemoryStore.mk .empty)).1, w.files)
  | .inDirectory directory =>
    let path := statePath directory
    let (report, s) := w.serve i c (FileStore.openAt path (w.files.disk path))
    (report, w.files.update path s.store.disk)

/-- A whole run. -/
def run (arguments : List String) : Report × FileTree :=
  match Invocation.ofArguments arguments with
  | .error stop => (.ofStop stop, w.files)
  | .ok i =>
    match i.configure w.home w.files.content with
    | .error _ => (⟨.failure, ""⟩, w.files)
    | .ok c => w.serveWith i c

end Surroundings

end Calculator.CommandLine

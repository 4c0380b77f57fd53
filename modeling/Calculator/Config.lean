import Calculator.Store.Basic
import Calculator.Timestamp.Layout
import Calculator.Toml.Document

/-!
# The configuration

A configuration file is a TOML document with up to four texts; everything has a default, and keys
with other names do not matter.  A missing file is an empty one.  A file that cannot be read and
one that holds no configuration are two kinds of error.
-/

set_option autoImplicit false

namespace Calculator

/-- What can be configured. -/
structure Config where
  /-- What is shown in the place of a result when a calculation fails. -/
  errorMarker : String
  /-- What is shown in the place of an empty history. -/
  emptyHistory : String
  /-- The layout of timestamps. -/
  timestampLayout : String
  /-- Where the state is kept. -/
  dataDirectory : Option String
deriving DecidableEq, Repr

/-- A configuration file that cannot be used. -/
inductive ConfigError where
  | unreadable (path : String)
  | invalid (path : String)
deriving DecidableEq, Repr

/-- The wording of an error. -/
def ConfigError.message : ConfigError → String
  | unreadable path => "failed to read " ++ path
  | invalid path => "invalid config " ++ path

namespace Config

/-- What is used where nothing is configured. -/
def default : Config := ⟨"Error", "No history yet", defaultLayout, none⟩

/-- The text with this name, if the document has one; it is an error if it is not a text. -/
def text? (document : Toml.Entries) (name : String) : Option (Option String) :=
  match document.find? name with
  | none => some none
  | some (.text value) => some (some value)
  | some _ => none

/-- The configuration that a document holds. -/
def ofToml? (document : Toml.Entries) : Option Config := do
  let errorMarker ← text? document "error_marker"
  let emptyHistory ← text? document "empty_history"
  let timestampLayout ← text? document "timestamp_format"
  let dataDirectory ← text? document "data_dir"
  return ⟨errorMarker.getD default.errorMarker, emptyHistory.getD default.emptyHistory,
    timestampLayout.getD default.timestampLayout, dataDirectory⟩

/-- The configuration that a text holds. -/
def parse? (s : String) : Option Config := (Toml.parse s).bind ofToml?

/-- The configuration in a file. -/
def load (path : String) : FileContent → Except ConfigError Config
  | .missing => .ok default
  | .unreadable => .error (.unreadable path)
  | .text content =>
    match parse? content with
    | some config => .ok config
    | none => .error (.invalid path)

end Config

end Calculator

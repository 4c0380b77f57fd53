import Calculator.CommandLine.Arguments
import Calculator.Dialog.Transcript

/-!
# Reports

A run of the program reports to its caller by the text that it prints and by a status.  A single
calculation prints one line, and its status says whether it succeeded.  A dialog succeeds whatever
is calculated in it, unless it was broken off.
-/

set_option autoImplicit false

namespace Calculator

/-- How a run ends. -/
inductive ExitStatus where
  | success
  | failure
  | misuse
deriving DecidableEq, Repr

/-- The number that is reported for a status. -/
def ExitStatus.code : ExitStatus → Nat
  | success => 0
  | failure => 1
  | misuse => 2

/-- What a run reports. -/
structure Report where
  status : ExitStatus
  output : String
deriving DecidableEq, Repr

namespace Report

/-- The report on a single calculation. -/
def ofOutcome (o : Outcome) : Report :=
  ⟨if o.isSuccess then .success else .failure, o.display ++ "\n"⟩

/-- The report on a line; there is nothing to say about a blank one. -/
def ofOutcome? : Option Outcome → Report
  | some o => ofOutcome o
  | none => ⟨.success, ""⟩

/-- The report on a dialog. -/
def ofTranscript {σ : Type} (t : Transcript σ) : Report :=
  ⟨if t.complete then .success else .failure, t.output⟩

/-- The name and the version of the program. -/
def versionText : String := "zcalc 0.1.0\n"

/-- How the program is used. -/
def usageText : String := printed
  ["Usage: zcalc [OPTIONS] [EXPR]...",
    "",
    "Options:",
    "      --config PATH    load this configuration file",
    "      --data-dir PATH  keep the history and the theme in this directory",
    "      --no-persist     keep the history and the theme in memory only",
    "      --no-history     do not record a single result in the history",
    "  -v, --verbose        say what is done",
    "  -h, --help           print this help",
    "  -V, --version        print the version"]

/-- The report of a run that calculates nothing. -/
def ofStop : CommandLine.Stop → Report
  | .misuse => ⟨.misuse, ""⟩
  | .version => ⟨.success, versionText⟩
  | .help => ⟨.success, usageText⟩

end Report

namespace Session

variable {σ : Type} [StateStore σ]

/-- Make a single calculation. -/
def evaluateOnce (s : Session σ) (now : Moment) (expression : String) : Report × Session σ :=
  let (outcome, s) := (s.setInput expression).calculate now
  (Report.ofOutcome? outcome, s)

/-- Hold a dialog. -/
def holdDialog (s : Session σ) (color : Bool) (input : List Arrival) : Report × Session σ :=
  let t := s.converse color input
  (.ofTranscript t, t.session)

/-- Evaluate an expression, or hold a dialog if it is blank. -/
def serve (s : Session σ) (color : Bool) (now : Moment) (expression : String)
    (input : List Arrival) : Report × Session σ :=
  if Text.allBlank expression.toList then s.holdDialog color input
  else s.evaluateOnce now expression

end Session

end Calculator

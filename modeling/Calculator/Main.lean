import Calculator.CommandLine.Run
import Std.Time

/-!
# The program

The program reads its arguments, the files that they lead to and the clock, and leaves everything
else to the library.  A dialog is held line by line, so that each answer appears before the next
line is read.  Errors are explained on the standard error stream.
-/

set_option autoImplicit false

namespace Calculator.CommandLine

/-! ## Surroundings -/

/-- The moment that the clock shows. -/
def currentMoment : IO Moment := do
  let t ← Std.Time.DateTime.now
  return {
    year := t.year.toInt.toNat
    month := t.month.toNat
    day := t.day.toNat
    hour := t.hour.toNat
    minute := t.minute.toNat
    second := t.second.toNat
    nanosecond := t.nanosecond.toNat
    offset := t.offset.second.val
  }

/-- What there is to read at a path. -/
def readContent (path : String) : IO FileContent := do
  try
    let bytes ← IO.FS.readBinFile path
    match String.fromUTF8? bytes with
    | some text => return .text text
    | none => return .unreadable
  catch
    | .noFileOrDirectory _ _ _ => return .missing
    | _ => return .unreadable

/-- Write the file of a store in a directory, if there was an attempt to do so.  What becomes of it
makes no difference to the session. -/
def saveState (directory : String) (before after : FileStore) : IO Unit := do
  if after.disk.attempts ≠ before.disk.attempts then
    match after.disk.content with
    | .text text =>
      try
        if directory ≠ "" then IO.FS.createDirAll directory
        IO.FS.writeFile after.path text
      catch e => IO.eprintln ((StoreError.mk after.path).message ++ ": " ++ toString e)
    | _ => return

/-- The next line of a stream, without the line feed, unless the stream is at its end. -/
partial def readLine (stream : IO.FS.Stream) (line : ByteArray) : IO (Option ByteArray) := do
  let bytes ← stream.read 1
  match bytes[0]? with
  | none => return if line.isEmpty then none else some line
  | some b => if b = 0x0A then return some line else readLine stream (line.push b)

/-! ## Serving -/

section

variable {σ : Type} [StateStore σ]

/-- Hold a dialog.  Whenever the store has changed, `save` takes care of it. -/
partial def talk (save : σ → σ → IO Unit) (color : Bool) (s : Session σ) : IO ExitStatus := do
  let output ← IO.getStdout
  output.putStr (s.prompt color)
  output.flush
  match ← readLine (← IO.getStdin) ByteArray.empty with
  | none => return .success
  | some line =>
    match s.hear color ⟨decodeText line.data.toList, ← currentMoment⟩ with
    | .finish => return .success
    | .broken =>
      IO.eprintln "Error: reading input: the line is not UTF-8 text"
      return .failure
    | .next text next =>
      save s.store next.store
      output.putStr text
      talk save color next

/-- Print a report. -/
def present (r : Report) : IO ExitStatus := do
  IO.print r.output
  return r.status

/-- Serve an invocation in a session with this store. -/
def serveStore (save : σ → σ → IO Unit) (i : Invocation) (c : Config) (store : σ) :
    IO ExitStatus := do
  let s := Session.start store c
  if Text.allBlank i.expression.toList then
    talk save (← (← IO.getStdout).isTty) s
  else
    let (report, next) := s.evaluateOnce (← currentMoment) i.expression
    save store next.store
    present report

end

/-- Serve an invocation with this configuration. -/
def serveInvocation (i : Invocation) (home : Option String) (c : Config) : IO ExitStatus := do
  match i.keeping home c with
  | .nowhere => present (.ofOutcome? (calculate c.errorMarker i.expression))
  | .inMemory => serveStore (fun _ _ ↦ pure ()) i c (MemoryStore.mk .empty)
  | .inDirectory directory =>
    let path := statePath directory
    if i.verbose then IO.eprintln ("Using state file " ++ path)
    let store := FileStore.openAt path (.reliable (← readContent path))
    serveStore (saveState directory) i c store

/-- Do what the arguments ask for. -/
def start (arguments : List String) : IO ExitStatus := do
  match Invocation.ofArguments arguments with
  | .error stop =>
    if stop = .misuse then IO.eprint Report.usageText
    present (.ofStop stop)
  | .ok i =>
    let home ← IO.getEnv "HOME"
    let content ← match i.configPath? home with
      | some path => readContent path
      | none => pure .missing
    match i.configure home fun _ ↦ content with
    | .error e =>
      IO.eprintln ("Error: " ++ e.message)
      return .failure
    | .ok c => serveInvocation i home c

end Calculator.CommandLine

/-- The status is the number that the program ends with. -/
def main (arguments : List String) : IO UInt32 := do
  return UInt32.ofNat (← Calculator.CommandLine.start arguments).code

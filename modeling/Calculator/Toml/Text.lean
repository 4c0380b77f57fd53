import Calculator.Json.Quote
import Calculator.Toml.Lines

/-!
# Strings in TOML

There are four kinds of strings.  Double quotes allow escapes and single quotes do not; three
quotes instead of one allow line ends.  A line end directly after three opening quotes does not
belong to the string, and in a string with escapes a backslash at the end of a line joins it to the
next character that is not blank.  Up to two quotes may stand in front of the closing three.
-/

set_option autoImplicit false

namespace Calculator.Toml

/-- A character of a text, in front of what was scanned. -/
def push (c : Char) (scanned : List Char × List Char) : List Char × List Char :=
  (c :: scanned.1, scanned.2)

/-! ## Escapes -/

/-- The value of hexadecimal digits. -/
def hexNumber? (cs : List Char) : Option Nat :=
  cs.foldlM (fun n c ↦ (Json.hexValue? c).map (16 * n + ·)) 0

/-- The character with the given code point, unless it belongs to a surrogate pair or to nothing. -/
def charOfCode? (code : Nat) : Option Char :=
  if code.isValidChar then some (Char.ofNat code) else none

/-- The character named by this many hexadecimal digits, and the rest of the text. -/
def scanCode (digits : Nat) (cs : List Char) : Option (Char × List Char) :=
  if cs.length < digits then none
  else (hexNumber? (cs.take digits)).bind fun code ↦
    (charOfCode? code).map fun c ↦ (c, cs.drop digits)

/-- The character that a backslash and this text stand for, and the rest of the text. -/
def scanEscape : List Char → Option (Char × List Char)
  | 'b' :: rest => some ('\x08', rest)
  | 't' :: rest => some ('\t', rest)
  | 'n' :: rest => some ('\n', rest)
  | 'f' :: rest => some ('\x0c', rest)
  | 'r' :: rest => some ('\r', rest)
  | 'e' :: rest => some ('\x1b', rest)
  | '"' :: rest => some ('"', rest)
  | '\\' :: rest => some ('\\', rest)
  | 'x' :: rest => scanCode 2 rest
  | 'u' :: rest => scanCode 4 rest
  | 'U' :: rest => scanCode 8 rest
  | _ => none

/-! ## Strings on one line

The first argument bounds the number of characters. -/

/-- The text up to the closing double quote, and the rest. -/
def scanBasic : Nat → List Char → Option (List Char × List Char)
  | _, '"' :: rest => some ([], rest)
  | n + 1, '\\' :: rest => do
    let (c, rest) ← scanEscape rest
    return push c (← scanBasic n rest)
  | n + 1, c :: rest => if isControl c then none else (scanBasic n rest).map (push c)
  | _, _ => none

/-- The text up to the closing single quote, and the rest. -/
def scanLiteral : List Char → Option (List Char × List Char)
  | [] => none
  | c :: rest =>
    if c = '\'' then some ([], rest)
    else if isControl c then none
    else (scanLiteral rest).map (push c)

/-! ## Strings on several lines -/

/-- Drop the line end that may follow the opening quotes. -/
def skipFirstLineEnd (cs : List Char) : List Char := (lineEnd? cs).getD cs

/-- Drop blanks and line ends. -/
def skipLineEnds : Nat → List Char → List Char
  | 0, cs => cs
  | n + 1, cs =>
    let rest := skipSpaces cs
    match lineEnd? rest with
    | some next => skipLineEnds n next
    | none => rest

/-- The text behind a backslash at the end of a line. -/
def joinLines? (cs : List Char) : Option (List Char) :=
  (lineEnd? (skipSpaces cs)).map fun rest ↦ skipLineEnds rest.length rest

/-- The quotes in front of the closing three, and the text behind those. -/
def closing? (quote : Char) : List Char → Option (List Char × List Char)
  | a :: b :: c :: rest =>
    if a = quote ∧ b = quote ∧ c = quote then
      match rest with
      | d :: e :: rest =>
        if d = quote ∧ e = quote then some ([quote, quote], rest)
        else if d = quote then some ([quote], e :: rest)
        else some ([], d :: e :: rest)
      | [d] => if d = quote then some ([quote], []) else some ([], [d])
      | [] => some ([], [])
    else none
  | _ => none

/-- The text up to the closing three double quotes, and the rest. -/
def scanLongBasic : Nat → List Char → Option (List Char × List Char)
  | 0, _ => none
  | n + 1, cs =>
    match closing? '"' cs with
    | some closed => some closed
    | none =>
      match cs with
      | '\\' :: rest =>
        match joinLines? rest with
        | some next => scanLongBasic n next
        | none => do
          let (c, rest) ← scanEscape rest
          return push c (← scanLongBasic n rest)
      | '\r' :: '\n' :: rest => (scanLongBasic n rest).map fun s ↦ push '\r' (push '\n' s)
      | c :: rest =>
        if isControl c && c != '\n' then none else (scanLongBasic n rest).map (push c)
      | [] => none

/-- The text up to the closing three single quotes, and the rest. -/
def scanLongLiteral : Nat → List Char → Option (List Char × List Char)
  | 0, _ => none
  | n + 1, cs =>
    match closing? '\'' cs with
    | some closed => some closed
    | none =>
      match cs with
      | '\r' :: '\n' :: rest => (scanLongLiteral n rest).map fun s ↦ push '\r' (push '\n' s)
      | c :: rest =>
        if isControl c && c != '\n' then none else (scanLongLiteral n rest).map (push c)
      | [] => none

/-! ## Any string -/

/-- The text of a string on one line, and the rest of the document. -/
def scanShortText : List Char → Option (List Char × List Char)
  | '"' :: rest => scanBasic rest.length rest
  | '\'' :: rest => scanLiteral rest
  | _ => none

/-- The text of a string, and the rest of the document. -/
def scanText : List Char → Option (List Char × List Char)
  | '"' :: '"' :: '"' :: rest =>
    let body := skipFirstLineEnd rest
    scanLongBasic (body.length + 1) body
  | '\'' :: '\'' :: '\'' :: rest =>
    let body := skipFirstLineEnd rest
    scanLongLiteral (body.length + 1) body
  | cs => scanShortText cs

end Calculator.Toml

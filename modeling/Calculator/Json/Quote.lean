/-!
# Quoted strings

How a string is written in JSON, and how it is read.  Writing escapes the quotation mark, the
backslash and the control characters below the space: seven have short escapes, the others are
written as four lower-case hexadecimal digits.  Everything else stands for itself.

Reading knows more ways than writing uses.  It goes in two steps.  `scanString` finds the end of
the string and takes the escapes apart; it fails on what is not JSON.  `decodePieces` puts the
characters together; an escape can name half of a surrogate pair, and a string in which such a half
has lost its other half is JSON but is no text.
-/

set_option autoImplicit false

namespace Calculator.Json

/-! ## Writing -/

/-- A hexadecimal digit in lower case. -/
def hexDigit (n : Nat) : Char := n.digitChar

/-- A character as it is written in a string. -/
def escape (c : Char) : List Char :=
  if c = '"' then ['\\', '"']
  else if c = '\\' then ['\\', '\\']
  else if c = '\n' then ['\\', 'n']
  else if c = '\r' then ['\\', 'r']
  else if c = '\t' then ['\\', 't']
  else if c.toNat = 0x08 then ['\\', 'b']
  else if c.toNat = 0x0C then ['\\', 'f']
  else if c.toNat < 0x20 then
    ['\\', 'u', '0', '0', hexDigit (c.toNat / 16), hexDigit (c.toNat % 16)]
  else [c]

/-- The string in quotation marks. -/
def quote (s : String) : List Char := '"' :: (s.toList.flatMap escape ++ ['"'])

/-! ## Reading -/

/-- A piece of a string: a character, or the code unit named by an escape. -/
inductive Piece where
  | char (c : Char)
  | unit (code : Nat)
deriving DecidableEq, Repr

/-- The value of a hexadecimal digit. -/
def hexValue? (c : Char) : Option Nat :=
  let n := c.toNat
  if 0x30 ≤ n ∧ n ≤ 0x39 then some (n - 0x30)
  else if 0x41 ≤ n ∧ n ≤ 0x46 then some (n - 0x41 + 10)
  else if 0x61 ≤ n ∧ n ≤ 0x66 then some (n - 0x61 + 10)
  else none

/-- The value of four hexadecimal digits. -/
def hexUnit? (a b c d : Char) : Option Nat := do
  return ((← hexValue? a) * 16 + (← hexValue? b)) * 256 + (← hexValue? c) * 16 + (← hexValue? d)

/-- The character that a backslash and this letter stand for. -/
def shortEscape? : Char → Option Char
  | '"' => some '"'
  | '\\' => some '\\'
  | '/' => some '/'
  | 'b' => some '\x08'
  | 'f' => some '\x0c'
  | 'n' => some '\n'
  | 'r' => some '\r'
  | 't' => some '\t'
  | _ => none

/-- Put a piece in front of those that were scanned. -/
def Piece.cons (p : Piece) (scanned : List Piece × List Char) : List Piece × List Char :=
  (p :: scanned.1, scanned.2)

/-- The pieces up to the quotation mark that ends the string, and the text behind it. -/
def scanString : List Char → Option (List Piece × List Char)
  | [] => none
  | '"' :: rest => some ([], rest)
  | '\\' :: 'u' :: a :: b :: c :: d :: rest => do
    let code ← hexUnit? a b c d
    return Piece.cons (.unit code) (← scanString rest)
  | '\\' :: e :: rest => do
    let c ← shortEscape? e
    return Piece.cons (.char c) (← scanString rest)
  | c :: rest =>
    if c = '\\' ∨ c.toNat < 0x20 then none
    else (scanString rest).map (Piece.cons (.char c))

/-- The first half of a surrogate pair. -/
def isHighSurrogate (code : Nat) : Bool := 0xD800 ≤ code && code < 0xDC00

/-- The second half of a surrogate pair. -/
def isLowSurrogate (code : Nat) : Bool := 0xDC00 ≤ code && code < 0xE000

/-- The text that the pieces spell, unless half of a surrogate pair stands alone. -/
def decodePieces : List Piece → Option (List Char)
  | [] => some []
  | .char c :: ps => (decodePieces ps).map (c :: ·)
  | .unit high :: .unit low :: ps =>
    if isHighSurrogate high then
      if isLowSurrogate low then
        (decodePieces ps).map
          (Char.ofNat (0x10000 + (high - 0xD800) * 0x400 + (low - 0xDC00)) :: ·)
      else none
    else if isLowSurrogate high then none
    else (decodePieces (.unit low :: ps)).map (Char.ofNat high :: ·)
  | .unit code :: ps =>
    if isHighSurrogate code || isLowSurrogate code then none
    else (decodePieces ps).map (Char.ofNat code :: ·)

/-- What is behind a string is shorter than what the string is read from. -/
theorem length_scanString_lt {cs : List Char} {pieces : List Piece} {rest : List Char}
    (h : scanString cs = some (pieces, rest)) : rest.length < cs.length := by
  fun_induction scanString cs generalizing pieces rest with
  | case1 => cases h
  | case2 => cases h; simp
  | case3 a b c d tail ih =>
    rcases hu : hexUnit? a b c d with _ | code
    · simp [hu] at h
    · rcases hs : scanString tail with _ | scanned
      · simp [hu, hs] at h
      · have := ih hs
        simp only [hu, hs, Option.bind_eq_bind, Option.bind_some, Piece.cons, pure,
          Option.some.injEq, Prod.mk.injEq] at h
        simp only [List.length_cons, ← h.2]
        omega
  | case4 e tail _ ih =>
    rcases he : shortEscape? e with _ | c
    · simp [he] at h
    · rcases hs : scanString tail with _ | scanned
      · simp [he, hs] at h
      · have := ih hs
        simp only [he, hs, Option.bind_eq_bind, Option.bind_some, Piece.cons, pure,
          Option.some.injEq, Prod.mk.injEq] at h
        simp only [List.length_cons, ← h.2]
        omega
  | case5 => cases h
  | case6 c tail _ _ _ _ ih =>
    obtain ⟨scanned, hs, heq⟩ := Option.map_eq_some_iff.mp h
    have := ih hs
    simp only [Piece.cons, Prod.mk.injEq] at heq
    simp only [List.length_cons, ← heq.2]
    omega

end Calculator.Json

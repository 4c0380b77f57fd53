import Calculator.Json.Quote

/-!
# The tokens of JSON

JSON's tokens are six punctuation marks, strings, numbers and three words, and four characters may
stand between them.  A string is kept as the text it spells, or as `none` if it spells none.

A number has no superfluous zero in front, and a digit on both sides of its point.  The lexer takes
the longest number there is; what is left of something like `012` is another number, which no
grammar rule allows to follow the first.
-/

set_option autoImplicit false

namespace Calculator.Json

/-- A token of JSON. -/
inductive Token where
  | openBrace
  | closeBrace
  | openBracket
  | closeBracket
  | colon
  | comma
  | string (text : Option String)
  | number (text : String)
  | bool (value : Bool)
  | null
deriving DecidableEq, Repr

/-- The characters that may stand between tokens. -/
def isSpace (c : Char) : Bool := c == ' ' || c == '\n' || c == '\t' || c == '\r'

/-- The punctuation marks. -/
def Token.ofChar? : Char → Option Token
  | '\x7b' => some .openBrace
  | '\x7d' => some .closeBrace
  | '[' => some .openBracket
  | ']' => some .closeBracket
  | ':' => some .colon
  | ',' => some .comma
  | _ => none

/-! ## Numbers -/

/-- At least one digit, and the rest of the text. -/
def scanDigits (cs : List Char) : Option (List Char × List Char) :=
  match cs.takeWhile Char.isDigit with
  | [] => none
  | ds => some (ds, cs.dropWhile Char.isDigit)

/-- A whole number without superfluous zeros, and the rest of the text. -/
def scanWhole : List Char → Option (List Char × List Char)
  | '0' :: rest => some (['0'], rest)
  | cs => scanDigits cs

/-- A point with digits, if there is a point. -/
def scanFraction : List Char → Option (List Char × List Char)
  | '.' :: rest => (scanDigits rest).map fun s ↦ ('.' :: s.1, s.2)
  | cs => some ([], cs)

/-- A sign, if there is one. -/
def scanSign : List Char → List Char × List Char
  | '+' :: rest => (['+'], rest)
  | '-' :: rest => (['-'], rest)
  | cs => ([], cs)

/-- An exponent, if there is one. -/
def scanExponent : List Char → Option (List Char × List Char)
  | [] => some ([], [])
  | c :: cs =>
    if c = 'e' ∨ c = 'E' then
      let sign := scanSign cs
      (scanDigits sign.2).map fun s ↦ (c :: (sign.1 ++ s.1), s.2)
    else some ([], c :: cs)

/-- A minus, if there is one. -/
def scanMinus : List Char → List Char × List Char
  | '-' :: rest => (['-'], rest)
  | cs => ([], cs)

/-- The number at the start of the text, and the rest of the text. -/
def scanNumber (cs : List Char) : Option (List Char × List Char) := do
  let minus := scanMinus cs
  let whole ← scanWhole minus.2
  let fraction ← scanFraction whole.2
  let exponent ← scanExponent fraction.2
  return (minus.1 ++ whole.1 ++ fraction.1 ++ exponent.1, exponent.2)

theorem length_scanDigits_lt {cs ds rest : List Char} (h : scanDigits cs = some (ds, rest)) :
    rest.length < cs.length := by
  unfold scanDigits at h
  split at h
  · cases h
  · rename_i _ hne
    have hlen := congrArg List.length
      (List.takeWhile_append_dropWhile (p := Char.isDigit) (l := cs))
    have hpos := List.length_pos_iff.mpr hne
    rw [List.length_append] at hlen
    cases h
    omega

theorem length_scanWhole_lt {cs ds rest : List Char} (h : scanWhole cs = some (ds, rest)) :
    rest.length < cs.length := by
  unfold scanWhole at h
  split at h
  · cases h; simp
  · exact length_scanDigits_lt h

theorem length_scanFraction_le {cs ds rest : List Char} (h : scanFraction cs = some (ds, rest)) :
    rest.length ≤ cs.length := by
  unfold scanFraction at h
  split at h
  · obtain ⟨s, hs, heq⟩ := Option.map_eq_some_iff.mp h
    cases heq
    exact Nat.le_of_lt (Nat.lt_succ_of_lt (length_scanDigits_lt hs))
  · cases h; exact Nat.le_refl _

theorem length_scanSign_le (cs : List Char) : (scanSign cs).2.length ≤ cs.length := by
  unfold scanSign
  split <;> simp

theorem length_scanMinus_le (cs : List Char) : (scanMinus cs).2.length ≤ cs.length := by
  unfold scanMinus
  split <;> simp

theorem length_scanExponent_le {cs ds rest : List Char} (h : scanExponent cs = some (ds, rest)) :
    rest.length ≤ cs.length := by
  unfold scanExponent at h
  split at h
  · cases h; exact Nat.le_refl _
  · split at h
    · rename_i cs _
      obtain ⟨s, hs, heq⟩ := Option.map_eq_some_iff.mp h
      cases heq
      have := length_scanDigits_lt hs
      have := length_scanSign_le cs
      simp only [List.length_cons]
      omega
    · cases h; exact Nat.le_refl _

theorem length_scanNumber_lt {cs ds rest : List Char} (h : scanNumber cs = some (ds, rest)) :
    rest.length < cs.length := by
  simp only [scanNumber, Option.bind_eq_bind, Option.bind_eq_some_iff, pure,
    Option.some.injEq, Prod.mk.injEq] at h
  obtain ⟨whole, hw, fraction, hf, exponent, he, _, hrest⟩ := h
  have := length_scanMinus_le cs
  have := length_scanWhole_lt hw
  have := length_scanFraction_le hf
  have := length_scanExponent_le he
  rw [← hrest]
  omega

/-! ## Tokens -/

/-- A word at the start of the text, and the rest of the text. -/
def scanWord? : List Char → Option (Token × List Char)
  | 't' :: 'r' :: 'u' :: 'e' :: rest => some (.bool true, rest)
  | 'f' :: 'a' :: 'l' :: 's' :: 'e' :: rest => some (.bool false, rest)
  | 'n' :: 'u' :: 'l' :: 'l' :: rest => some (.null, rest)
  | _ => none

theorem length_scanWord?_lt {cs rest : List Char} {t : Token} (h : scanWord? cs = some (t, rest)) :
    rest.length < cs.length := by
  unfold scanWord? at h
  split at h <;> cases h <;> simp only [List.length_cons] <;> omega

/-- The token at the start of a text that starts with the given character, and the rest. -/
def scanToken (c : Char) (cs : List Char) : Option (Token × List Char) :=
  match Token.ofChar? c with
  | some t => some (t, cs)
  | none =>
    if c = '"' then
      (scanString cs).map fun s ↦ (.string ((decodePieces s.1).map String.ofList), s.2)
    else if c.isDigit || c == '-' then
      (scanNumber (c :: cs)).map fun s ↦ (.number (String.ofList s.1), s.2)
    else
      scanWord? (c :: cs)

theorem length_scanToken_lt {c : Char} {cs rest : List Char} {t : Token}
    (h : scanToken c cs = some (t, rest)) : rest.length < (c :: cs).length := by
  unfold scanToken at h
  split at h
  · cases h; simp
  · split at h
    · obtain ⟨s, hs, heq⟩ := Option.map_eq_some_iff.mp h
      cases heq
      exact Nat.lt_succ_of_lt (length_scanString_lt hs)
    · split at h
      · obtain ⟨s, hs, heq⟩ := Option.map_eq_some_iff.mp h
        cases heq
        exact length_scanNumber_lt hs
      · exact length_scanWord?_lt h

/-- The tokens of a text. -/
def lex : List Char → Option (List Token)
  | [] => some []
  | c :: cs =>
    if isSpace c then lex cs
    else
      match _h : scanToken c cs with
      | none => none
      | some (t, rest) => (lex rest).map (t :: ·)
termination_by cs => cs.length
decreasing_by
  · simp
  · exact length_scanToken_lt _h

end Calculator.Json

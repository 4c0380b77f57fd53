import Calculator.Decimal.Numeral
import Calculator.Expr.Token
import Calculator.Text.Blank

/-!
# From characters to tokens

`Token.lex` cuts a text into tokens from left to right, each as long as possible, and passes over
blanks.  The first place where no token starts, or where a numeral lacks digits, decides the error.

Only two choices need a look at more than one character.  A star is the power sign when another star
follows it.  A digit or a point starts a numeral, and `Numeral.scan` says where it ends.
-/

set_option autoImplicit false

namespace Calculator

/-- The number of bytes that a text takes in UTF-8. -/
def byteLength : List Char → Nat
  | [] => 0
  | c :: cs => c.utf8Size + byteLength cs

theorem byteLength_append (a b : List Char) :
    byteLength (a ++ b) = byteLength a + byteLength b := by
  induction a with
  | nil => simp [byteLength]
  | cons c cs ih => simp only [List.cons_append, byteLength, ih]; omega

namespace Token

/-- The tokens that are one character whatever follows. -/
def ofChar? : Char → Option Token
  | '+' => some .plus
  | '-' => some .minus
  | '/' => some .divide
  | '(' => some .openParen
  | ')' => some .closeParen
  | _ => none

/-- The tokens of the text; `offset` is the number of bytes in front of it. -/
def lex (offset : Nat) : List Char → Except ArithmeticError (List Token)
  | [] => .ok []
  | c :: cs =>
    if Text.isBlank c then
      lex (offset + c.utf8Size) cs
    else if Numeral.starts c then
      let scanned := Numeral.scan (c :: cs)
      if scanned.1.isComplete then
        (lex (offset + byteLength scanned.1.text) scanned.2).map (.number scanned.1.value :: ·)
      else
        .error (.malformedNumber (String.ofList scanned.1.text))
    else if c = '*' then
      match cs with
      | '*' :: rest => (lex (offset + 2) rest).map (.power :: ·)
      | rest => (lex (offset + 1) rest).map (.times :: ·)
    else
      match ofChar? c with
      | some t => (lex (offset + 1) cs).map (t :: ·)
      | none => .error (.unexpectedChar c offset)
termination_by cs => cs.length
decreasing_by
  · simp
  · exact Numeral.length_scan_lt ‹_›
  · simp only [List.length_cons]; omega
  · simp
  · simp

end Token

/-- The tokens of a text. -/
def tokenize (s : List Char) : Except ArithmeticError (List Token) := Token.lex 0 s

end Calculator

import Calculator.Dialog.Response

/-!
# Dialogs

In a dialog a session reads lines and answers each of them.  In front of every line it prints a
prompt, so a prompt is also the last thing it prints.  The dialog ends when it is asked to, or when
there are no more lines.

Lines arrive as bytes.  One that is not UTF-8 text breaks the dialog off.  Timestamps depend on
when a line arrives, so each one comes with that moment.
-/

set_option autoImplicit false

namespace Calculator

/-! ## Input -/

/-- A line that arrives. -/
structure Arrival where
  /-- The line, if it is text. -/
  text? : Option String
  moment : Moment
deriving DecidableEq, Repr

/-- The lines of an input.  A line feed ends a line, and bytes after the last one are a line too. -/
def splitLines : List UInt8 → List (List UInt8)
  | [] => []
  | b :: bs =>
    if b = 0x0A then [] :: splitLines bs
    else
      match splitLines bs with
      | [] => [[b]]
      | line :: lines => (b :: line) :: lines

/-- What a line feed follows is the first line. -/
theorem splitLines_append {line bs : List UInt8} (h : 0x0A ∉ line) :
    splitLines (line ++ 0x0A :: bs) = line :: splitLines bs := by
  induction line with
  | nil => simp [splitLines]
  | cons b line ih =>
    have hb : b ≠ 0x0A := fun e ↦ h (by simp [e])
    have ih := ih fun hm ↦ h (List.mem_cons_of_mem b hm)
    simp [splitLines, hb, ih]

/-- An input that ends each line with a line feed has those lines. -/
theorem splitLines_flatMap {lines : List (List UInt8)} (h : ∀ line ∈ lines, 0x0A ∉ line) :
    splitLines (lines.flatMap (· ++ [0x0A])) = lines := by
  induction lines with
  | nil => rfl
  | cons line lines ih =>
    rw [List.flatMap_cons, List.append_assoc, List.singleton_append,
      splitLines_append (h line List.mem_cons_self),
      ih fun l hl ↦ h l (List.mem_cons_of_mem line hl)]

/-- The text that bytes are, if they are UTF-8. -/
def decodeText (bytes : List UInt8) : Option String := String.fromUTF8? ⟨bytes.toArray⟩

/-- The lines of an input that arrives all at once. -/
def arrivals (now : Moment) (input : List UInt8) : List Arrival :=
  (splitLines input).map fun line ↦ ⟨decodeText line, now⟩

/-! ## Turns -/

/-- What comes of one line. -/
inductive Turn (σ : Type) where
  /-- The dialog goes on, after some text. -/
  | next (output : String) (session : Session σ)
  /-- The dialog is over. -/
  | finish
  /-- The line was not text. -/
  | broken

/-- Lines of text as they are printed. -/
def printed (lines : List String) : String := String.join (lines.map (· ++ "\n"))

/-- What a dialog prints in all. -/
structure Transcript (σ : Type) where
  output : String
  session : Session σ
  /-- No line has broken the dialog off. -/
  complete : Bool

/-- A transcript with something printed in front of it. -/
def Transcript.after {σ : Type} (t : Transcript σ) (output : String) : Transcript σ :=
  { t with output := output ++ t.output }

namespace Session

variable {σ : Type} [StateStore σ]

/-- Answer a line. -/
def hear (s : Session σ) (color : Bool) (a : Arrival) : Turn σ :=
  match a.text?.map Request.ofLine with
  | none => .broken
  | some .quit => .finish
  | some request =>
    let (lines, s) := s.respond color a.moment request
    .next (printed lines) s

/-- The prompt in front of a line. -/
def prompt (s : Session σ) (color : Bool) : String := (s.palette color).promptText

/-- The dialog over these lines. -/
def converse (color : Bool) (s : Session σ) : List Arrival → Transcript σ
  | [] => ⟨s.prompt color, s, true⟩
  | a :: rest =>
    match s.hear color a with
    | .next output next => (converse color next rest).after (s.prompt color ++ output)
    | .finish => ⟨s.prompt color, s, true⟩
    | .broken => ⟨s.prompt color, s, false⟩

end Session

end Calculator

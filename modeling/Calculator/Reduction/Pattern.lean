/-!
# Replacing matches in a text

The calculator's language has constructs that the arithmetic language lacks.  They are found in the
text of an expression and replaced by text, and this module is the replacing.  A `Pattern` says
whether a match starts at the beginning of a text, what it holds and what follows it; a match takes
at least one character, which is part of the type.

`Pattern.replaceAll` goes through a text once, from left to right.  Where a match starts it is
replaced and the search goes on behind it, so matches do not overlap and a replacement is not
searched again; where none starts, one character is kept.  A replacement may fail, and then the
first failure is the answer.
-/

set_option autoImplicit false

namespace Calculator

/-- A way to recognise something at the beginning of a text. -/
structure Pattern (α : Type) where
  /-- What a match holds, and the text behind it. -/
  match? : List Char → Option (α × List Char)
  /-- A match takes at least one character. -/
  shorter : ∀ {cs : List Char} {a : α} {rest : List Char},
    match? cs = some (a, rest) → rest.length < cs.length

namespace Pattern

variable {α ε : Type}

/-- Replace every match, leaving the rest of the text in place. -/
def replaceAll (p : Pattern α) (replace : α → Except ε (List Char)) (cs : List Char) :
    Except ε (List Char) :=
  match _h : p.match? cs with
  | some (a, rest) =>
    (replace a).bind fun text ↦ (replaceAll p replace rest).map (text ++ ·)
  | none =>
    match cs with
    | [] => .ok []
    | c :: cs => (replaceAll p replace cs).map (c :: ·)
termination_by cs.length
decreasing_by
  · exact p.shorter _h
  · exact Nat.lt_succ_self _

/-- No match starts anywhere in the text. -/
def Absent (p : Pattern α) : List Char → Prop
  | [] => p.match? [] = none
  | c :: cs => p.match? (c :: cs) = none ∧ p.Absent cs

/-- A text without a match stays as it is. -/
theorem replaceAll_of_absent (p : Pattern α) (replace : α → Except ε (List Char))
    {cs : List Char} (h : p.Absent cs) : p.replaceAll replace cs = .ok cs := by
  induction cs with
  | nil =>
    rw [replaceAll]
    split
    · rename_i h2
      rw [show p.match? [] = none from h] at h2
      cases h2
    · rfl
  | cons c cs ih =>
    rw [replaceAll]
    split
    · rename_i h2
      rw [h.1] at h2
      cases h2
    · simp [ih h.2, Except.map]

end Pattern

end Calculator

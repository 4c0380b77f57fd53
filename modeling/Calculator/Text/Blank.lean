/-!
# Blank characters

The calculator reads text typed by people, so "blank" means Unicode's `White_Space` property and
not only the ASCII blanks: a no-break space pasted between two digits separates nothing more than
an ordinary space does.  The property holds twenty-five characters, and `isBlank` lists them.

Two ways of using blanks are built on it: `trim` drops them from both ends of a text, and
`splitWord` cuts off a text's first word.
-/

set_option autoImplicit false

namespace Calculator.Text

/-- A character with Unicode's `White_Space` property. -/
def isBlank (c : Char) : Bool :=
  let n := c.toNat
  (0x09 ≤ n && n ≤ 0x0D) || n == 0x20 || n == 0x85 || n == 0xA0 || n == 0x1680
    || (0x2000 ≤ n && n ≤ 0x200A) || n == 0x2028 || n == 0x2029 || n == 0x202F || n == 0x205F
    || n == 0x3000

/-- A text without a character that is not blank. -/
def allBlank (cs : List Char) : Bool := cs.all isBlank

theorem allBlank_iff {cs : List Char} : allBlank cs = true ↔ ∀ c ∈ cs, isBlank c = true := by
  simp [allBlank]

/-! ## Trimming -/

/-- Drop the blanks at the start. -/
def trimStart (cs : List Char) : List Char := cs.dropWhile isBlank

/-- Drop the blanks at both ends. -/
def trim (cs : List Char) : List Char := (trimStart (trimStart cs).reverse).reverse

theorem trimStart_eq_nil_iff {cs : List Char} : trimStart cs = [] ↔ allBlank cs = true := by
  induction cs with
  | nil => simp [trimStart, allBlank]
  | cons c cs ih =>
    simp only [trimStart, allBlank, List.dropWhile_cons, List.all_cons, Bool.and_eq_true] at ih ⊢
    by_cases hc : isBlank c = true <;> simp [hc, ih]

/-- Trimming leaves nothing exactly of a text that is blank throughout. -/
theorem trim_eq_nil_iff {cs : List Char} : trim cs = [] ↔ allBlank cs = true := by
  have hcs : trimStart cs = [] ↔ allBlank cs = true := trimStart_eq_nil_iff
  rw [trim, List.reverse_eq_nil_iff, trimStart_eq_nil_iff, ← hcs]
  constructor
  · intro h
    rcases hd : trimStart cs with _ | ⟨c, rest⟩
    · rfl
    · have hc : isBlank c = true := by
        rw [allBlank_iff] at h
        exact h c (by simp [hd])
      have hne : isBlank c ≠ true := by
        have := List.head_dropWhile_not isBlank (l := cs) (by
          rw [show cs.dropWhile isBlank = c :: rest from hd]; simp)
        simp only [show cs.dropWhile isBlank = c :: rest from hd, List.head_cons] at this
        simp [this]
      exact absurd hc hne
  · intro h
    simp [h, allBlank]

/-! ## Words -/

/-- The first run of characters that are not blank, and what follows it.  The word is empty exactly
when the text is blank throughout. -/
def splitWord (cs : List Char) : List Char × List Char :=
  let start := trimStart cs
  (start.takeWhile fun c ↦ !isBlank c, start.dropWhile fun c ↦ !isBlank c)

end Calculator.Text

import Calculator.Proofs.Language.Pieces

/-!
# Words

A `Word` is an operand without parentheses around it: a number, a factorial or a call.  When all
calls have been replaced, a word is the text of a number or the digits of a factorial
(`Word.valueText`), and as a piece of a text it goes through the passes by itself.

So words that are typed one behind the other run together, and what is read is what their texts make
together (`reduce_words`).  What can come of that depends on a few characters only: whether a text
begins with a minus, where it has a point, and whether it has one or an exponent at all.
-/

set_option autoImplicit false

namespace Calculator

/-- An operand without parentheses around it. -/
inductive Word where
  | number (a : PlainAtom)
  | factorial (ds : Digits)
  | call (c : FiniteCall)

/-- A number as a plain text. -/
def PlainText.ofNumber (a : PlainAtom) : PlainText where
  chars := a.normalText
  nonempty := by
    intro h
    have hspells := a.spells_normalText
    rw [h] at hspells
    exact Expr.tokens_ne_nil _ (Token.eq_nil_of_spells hspells)
  closeParen_notMem := by
    cases a with
    | literal n =>
      intro hmem
      exact absurd (Numeral.mem_text n.wellFormed _ hmem) (by decide)
    | pi => exact (paren_notMem_numberText PlainAtom.isFinite_pi).2
  opening_disjoint f c hc := by
    cases a with
    | literal n => exact f.notMem_opening (Numeral.mem_text n.wellFormed c hc)
    | pi => exact (numberText_disjoint PlainAtom.isFinite_pi).2 c hc f

/-- A factorial as a plain text. -/
def PlainText.ofFactorial (ds : Digits) : PlainText where
  chars := ds.chars ++ ['!']
  nonempty := by simp
  closeParen_notMem := by
    intro hmem
    rcases List.mem_append.mp hmem with hmem | hmem
    · exact absurd (ds.ascii _ hmem) (by decide)
    · exact absurd (List.mem_singleton.mp hmem) (by decide)
  opening_disjoint f c hc := by
    rcases List.mem_append.mp hc with hc | hc
    · exact f.notMem_opening (Or.inl (Numeral.starts_of_isDigit (ds.ascii c hc)))
    · rw [List.mem_singleton.mp hc]
      cases f <;> decide

namespace Word

/-- What is typed. -/
def text : Word → List Char
  | number a => a.text
  | factorial ds => ds.chars ++ ['!']
  | call c => c.text

/-- What the passes for calls have to do with. -/
def piece : Word → Piece
  | number a => .plain (.ofNumber a)
  | factorial ds => .plain (.ofFactorial ds)
  | call c => .call c

/-- What is left when all calls have been replaced. -/
def valueText (w : Word) : List Char := w.piece.valueText

theorem valueText_number (a : PlainAtom) : (number a).valueText = a.normalText := rfl

theorem valueText_factorial (ds : Digits) : (factorial ds).valueText = ds.chars ++ ['!'] := rfl

variable (w : Word)

theorem normalize_text : normalize w.text = w.piece.textAt MathFunction.all := by
  cases w with
  | number a => exact a.normalize_text
  | factorial ds =>
    have hbang : normalize ['!'] = ['!'] := by decide
    rw [text, normalize_append, ds.normalize_chars, hbang]
    rfl
  | call c =>
    rw [text, c.normalize_text, piece, Piece.textAt, if_pos c.function.mem_all]

/-- Normalising leaves words next to each other. -/
theorem normalize_around (before after : List Char) (ws : List Word) :
    normalize (before ++ (ws.flatMap text ++ after))
      = normalize before ++ (Piece.texts MathFunction.all (ws.map piece) ++ normalize after) := by
  have hwords : normalize (ws.flatMap text) = Piece.texts MathFunction.all (ws.map piece) := by
    induction ws with
    | nil => rfl
    | cons w ws ih =>
      rw [List.flatMap_cons, normalize_append, ih, w.normalize_text, List.map_cons,
        Piece.texts_cons]
  rw [normalize_append, normalize_append, hwords]

theorem flatMap_valueText (ws : List Word) :
    (ws.map piece).flatMap Piece.valueText = ws.flatMap valueText :=
  List.flatMap_map piece Piece.valueText ws

/-- A word is left as a factorial or as the text of a number. -/
theorem valueText_cases :
    (∃ ds : Digits, w.valueText = ds.chars ++ ['!']) ∨
      ∃ n : Numeral, n.WellFormed ∧ n.isComplete = true ∧
        (w.valueText = n.text ∨ w.valueText = '-' :: n.text) := by
  cases w with
  | number a =>
    cases a with
    | literal n => exact Or.inr ⟨n.numeral, n.wellFormed, n.complete, Or.inl rfl⟩
    | pi =>
      rw [valueText_number, PlainAtom.normalText]
      exact Or.inr (numberText_cases PlainAtom.isFinite_pi)
  | factorial ds => exact Or.inl ⟨ds, rfl⟩
  | call c => exact Or.inr (numberText_cases c.isFinite_value)

variable {w}

/-- A word without a minus starts like a numeral. -/
theorem starts_valueText (hsign : '-' ∉ w.valueText.head?) :
    ∃ c ∈ w.valueText.head?, Numeral.starts c = true := by
  rcases w.valueText_cases with ⟨ds, htext⟩ | ⟨n, hn, hc, htext | htext⟩
  · obtain ⟨d, es, hcons⟩ := List.exists_cons_of_ne_nil ds.nonempty
    refine ⟨d, by rw [htext, hcons]; rfl, Numeral.starts_of_isDigit (ds.ascii d ?_)⟩
    rw [hcons]
    exact List.mem_cons_self
  · obtain ⟨d, es, hcons, hstarts⟩ := Numeral.head_text hn hc
    exact ⟨d, by rw [htext, hcons]; rfl, hstarts⟩
  · exact absurd (by rw [htext]; rfl) hsign

theorem notMem_factorial {ds : Digits} {c : Char} (hdigit : c.isDigit = false) (hbang : c ≠ '!') :
    c ∉ ds.chars ++ ['!'] := by
  intro hmem
  rcases List.mem_append.mp hmem with hmem | hmem
  · rw [ds.ascii c hmem] at hdigit
    cases hdigit
  · exact hbang (List.mem_singleton.mp hmem)

/-- A word with a point or an exponent ends with the tail of a numeral. -/
theorem exists_tail (h : ∃ c ∈ w.valueText, c = '.' ∨ Numeral.isMark c = true) :
    ∃ a u, w.valueText = a ++ u ∧ NumeralTail u := by
  obtain ⟨c, hmem, hchar⟩ := h
  rcases w.valueText_cases with ⟨ds, htext⟩ | ⟨n, hn, hc, htext | htext⟩
  · rw [htext] at hmem
    rcases hchar with rfl | hmark
    · exact absurd hmem (notMem_factorial (by decide) (by decide))
    · refine absurd hmem (notMem_factorial (Numeral.isDigit_of_isMark hmark) ?_)
      rintro rfl
      exact absurd hmark (by decide)
  · rw [htext] at hmem ⊢
    exact NumeralTail.exists_of_mem_text hn hc ⟨c, hmem, hchar⟩
  · rw [htext] at hmem ⊢
    have hminus : c ≠ '-' := by
      rintro rfl
      exact absurd hchar (by decide)
    obtain ⟨a, u, hu, htail⟩ := NumeralTail.exists_of_mem_text hn hc
      ⟨c, (List.mem_cons.mp hmem).resolve_left hminus, hchar⟩
    exact ⟨'-' :: a, u, by rw [hu]; rfl, htail⟩

/-- A word with a point and without a minus has only digits in front of the point. -/
theorem exists_point (hsign : '-' ∉ w.valueText.head?) (h : '.' ∈ w.valueText) :
    ∃ ds rest, (∀ c ∈ ds, c.isDigit = true) ∧ w.valueText = ds ++ '.' :: rest := by
  rcases w.valueText_cases with ⟨ds, htext⟩ | ⟨n, hn, hc, htext | htext⟩
  · rw [htext] at h
    exact absurd h (notMem_factorial (by decide) (by decide))
  · rw [htext] at h
    obtain ⟨a, z, hsplit⟩ := List.append_of_mem h
    obtain ⟨ds, hfraction, -⟩ := Numeral.eq_of_text_eq_point hn hsplit
    refine ⟨n.integer, ds ++ Numeral.exponentText n.exponent, hn.integer, ?_⟩
    rw [htext, Numeral.text, hfraction, Numeral.fractionText, List.append_assoc, List.cons_append]
  · exact absurd (by rw [htext]; rfl) hsign

end Word

/-! ## Words that run together -/

/-- In a text without letters there are no calls. -/
theorem skips_normalize {cs : List Char} (h : ∀ c ∈ cs, c.isAlpha = false) (f : MathFunction) :
    f.calls.Skips (normalize cs) :=
  MathFunction.calls_skips fun c hc ↦ f.notMem_head_of_isAlpha (isAlpha_of_mem_normalize h c hc)

/-- **Between texts without letters**, words are read as what their texts make together.  The
factorials are still among them. -/
theorem reduce_words {before after : List Char} (hbefore : ∀ c ∈ before, c.isAlpha = false)
    (hafter : ∀ c ∈ after, c.isAlpha = false) (ws : List Word) :
    reduce (before ++ (ws.flatMap Word.text ++ after))
      = resolveFactorials
          (normalize before ++ (ws.flatMap Word.valueText ++ normalize after)) := by
  rw [reduce_eq_resolve, Word.normalize_around,
    Piece.resolve_texts_of_skips (by decide) _ (skips_normalize hbefore) (skips_normalize hafter),
    Word.flatMap_valueText]

end Calculator

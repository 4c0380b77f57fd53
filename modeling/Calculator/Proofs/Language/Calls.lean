import Calculator.Proofs.Expr.Seams
import Calculator.Proofs.Language.Meaning

/-!
# Calls with a value

A `FiniteCall` is the text of a call together with its value.  Unlike the calls of formulas it may
have anything for its argument that has a value as arithmetic text, parentheses that are opened and
never closed excepted, because such an argument has none.

The pass for the call's function replaces it by its value, and the passes for other functions keep
it, whatever follows (`FiniteCall.resolveCalls_text`, `FiniteCall.skips_text`).
-/

set_option autoImplicit false

namespace Calculator

/-! ## Characters of normalised texts -/

theorem numberText_pi : numberText pi
    = ['3', '.', '1', '4', '1', '5', '9', '2', '6', '5', '3', '5', '8', '9', '7', '9', '3'] := by
  decide +kernel

/-- Normalising keeps a character or leaves some of arithmetic. -/
theorem mem_normalizeChar {c d : Char} (h : d ∈ normalizeChar c) :
    d = c ∧ isIgnored c = false ∨ d ∈ '*' :: '/' :: numberText pi := by
  rw [normalizeChar] at h
  by_cases hignored : isIgnored c = true
  · simp [hignored] at h
  rw [if_neg hignored] at h
  split at h
  · exact Or.inr (by simp_all)
  split at h
  · exact Or.inr (by simp_all)
  split at h
  · exact Or.inr (by simp [h])
  split at h
  · exact Or.inr (by simp_all)
  · exact Or.inl ⟨List.mem_singleton.mp h, Bool.eq_false_iff.mpr hignored⟩

/-- What holds of the characters of a text and of those of arithmetic holds of the normalised
text. -/
theorem forall_mem_normalize {p : Char → Prop} {cs : List Char} (hcs : ∀ c ∈ cs, p c)
    (harithmetic : ∀ c ∈ '*' :: '/' :: numberText pi, p c) : ∀ c ∈ normalize cs, p c := by
  intro d hd
  obtain ⟨c, hc, hmem⟩ := List.mem_flatMap.mp hd
  rcases mem_normalizeChar hmem with ⟨rfl, -⟩ | hmem
  · exact hcs d hc
  · exact harithmetic d hmem

/-- Normalising adds no letters. -/
theorem isAlpha_of_mem_normalize {cs : List Char} (h : ∀ c ∈ cs, c.isAlpha = false) :
    ∀ c ∈ normalize cs, c.isAlpha = false := by
  refine forall_mem_normalize h ?_
  simp [numberText_pi, Char.isAlpha, Char.isUpper, Char.isLower]

/-- A call starts with a letter. -/
theorem MathFunction.notMem_head_of_isAlpha {c : Char} (h : c.isAlpha = false) (f : MathFunction) :
    c ∉ f.opening.head? := by
  intro hc
  have halpha : ∀ d ∈ f.opening.head?, d.isAlpha = true := by
    cases f <;> exact fun d hd ↦ by cases hd; decide
  rw [halpha c hc] at h
  cases h

/-- A normalised text has neither blanks nor separators. -/
theorem isIgnored_of_mem_normalize {cs : List Char} : ∀ c ∈ normalize cs, isIgnored c = false := by
  intro d hd
  obtain ⟨c, -, hmem⟩ := List.mem_flatMap.mp hd
  rcases mem_normalizeChar hmem with ⟨rfl, hignored⟩ | hmem
  · exact hignored
  · have hall : ∀ d ∈ '*' :: '/' :: numberText pi, isIgnored d = false := by
      simp [numberText_pi, isIgnored, Text.isBlank, Text.separator]
    exact hall d hmem

theorem isBlank_of_mem_normalize {cs : List Char} : ∀ c ∈ normalize cs, Text.isBlank c = false :=
  fun c hc ↦ (Bool.or_eq_false_iff.mp (isIgnored_of_mem_normalize c hc)).1

/-- Of an arithmetic text, normalising takes the blanks away. -/
theorem normalize_eq_filter {s : List Char} (h : ∀ c ∈ s, Token.isTokenChar c = true) :
    normalize s = s.filter fun c ↦ !Text.isBlank c := by
  have hfilter : (s.filter fun c ↦ !isIgnored c) = s.filter fun c ↦ !Text.isBlank c := by
    refine List.filter_congr fun c hc ↦ ?_
    have hne : (c == Text.separator) = false := by
      rw [beq_eq_false_iff_ne]
      rintro rfl
      exact absurd (h _ hc) (by decide)
    rw [isIgnored, hne, Bool.or_false]
  rw [← normalize_filter, hfilter]
  refine normalize_of_isTokenChar fun c hc ↦ ?_
  obtain ⟨hmem, hblank⟩ := List.mem_filter.mp hc
  exact ⟨h c hmem, by simpa using hblank⟩

/-- An arithmetic text keeps its value when it is normalised. -/
theorem evaluateArithmetic_normalize {s : List Char} {v : Float}
    (h : evaluateArithmetic s = .ok v) : evaluateArithmetic (normalize s) = .ok v := by
  obtain ⟨e, he, hs, rfl⟩ := evaluateArithmetic_eq_ok_iff.mp h
  rw [normalize_eq_filter (Token.isTokenChar_of_spells hs)]
  exact evaluateArithmetic_of_spells (Token.spells_filter_blank hs he) he

/-! ## Calls -/

/-- A call that has a finite value. -/
structure FiniteCall where
  function : MathFunction
  argument : List Char
  argumentValue : Float
  /-- The argument does not end before the call does. -/
  closed : ')' ∉ argument
  /-- The argument has a value. -/
  reads : evaluateArithmetic (normalize argument) = .ok argumentValue
  finite : (function.apply argumentValue).isFinite = true

namespace FiniteCall

variable (c : FiniteCall)

def value : Float := c.function.apply c.argumentValue

theorem isFinite_value : c.value.isFinite = true := c.finite

def text : List Char := c.function.opening ++ (c.argument ++ [')'])

/-- What is left of the call after normalising. -/
def normalText : List Char := c.function.opening ++ (normalize c.argument ++ [')'])

theorem normalize_text : normalize c.text = c.normalText := by
  rw [text, normalize_append, normalize_append, c.function.normalize_opening,
    (by decide : normalize [')'] = [')']), normalText]

theorem closeParen_notMem : ')' ∉ normalize c.argument := by
  have hne : ∀ d ∈ normalize c.argument, d ≠ ')' := by
    refine forall_mem_normalize (fun d hd heq ↦ c.closed (heq ▸ hd)) ?_
    simp [numberText_pi]
  exact fun hmem ↦ hne _ hmem rfl

theorem isTokenChar_of_mem : ∀ d ∈ normalize c.argument, Token.isTokenChar d = true := by
  obtain ⟨e, -, hs, -⟩ := evaluateArithmetic_eq_ok_iff.mp c.reads
  exact Token.isTokenChar_of_spells hs

/-- The pass for the call's function replaces it. -/
theorem resolveCalls_text (b : List Char) :
    resolveCalls (c.normalText ++ b) c.function
      = inOrder (.ok (numberText c.value)) (resolveCalls b c.function) := by
  have hcall := MathFunction.resolveCalls_call (f := c.function) c.reads c.closeParen_notMem b
  rwa [c.finite] at hcall

/-- The passes for other functions keep it. -/
theorem skips_text {f : MathFunction} (hf : f ≠ c.function) : f.calls.Skips c.normalText :=
  MathFunction.calls_skips_call hf c.isTokenChar_of_mem

end FiniteCall

end Calculator

import Calculator.Proofs.Reduction.Barriers
import Calculator.Proofs.Reduction.Products

/-!
# What the last pass leaves of operands

The last pass replaces the digits and the exclamation mark of a factorial by digits.  A text that
begins with a digit or a point still does so afterwards (`starts_resolveFactorials`), and one that
ends like an operand still ends like one.  The passes before the last one keep the end as well, and
an opening parenthesis behind it is a barrier for all of them: what stands in front of it is an
operand to the end (`resolve_append_openParen`).

The digits of a factorial are all digits in front of the exclamation mark, wherever they come from.
Digits whose number is too large are an error, and more digits in front of them only make the number
larger (`not_suffix_of_large`).
-/

set_option autoImplicit false

namespace Calculator

/-! ## Texts of factorials -/

/-- The text of a number without a minus starts like a numeral. -/
theorem starts_numberText {x : Float} (h : x.isFinite = true)
    (hsign : Double.isNegative x = false) :
    ∃ c ∈ (numberText x).head?, Numeral.starts c = true := by
  obtain ⟨n, hn, hc, -, htext⟩ := exists_numeral h
  obtain ⟨d, ds, hcons, hstarts⟩ := Numeral.head_text hn hc
  rw [htext, signed, hsign, hcons]
  exact ⟨d, rfl, hstarts⟩

/-- What replaces a factorial, unless its number is too large. -/
theorem factorialText_eq_ok {digits t : List Char} (h : factorialText digits = .ok t) :
    Nat.ofDigitChars 10 digits 0 ≤ maxFactorial ∧
      ∃ n, (factorial n).isFinite = true ∧ t = numberText (factorial n) := by
  simp only [factorialText] at h
  split at h
  · rename_i hle
    obtain ⟨hfinite, rfl⟩ := finiteText_eq_ok_iff.mp h
    exact ⟨of_decide_eq_true (Bool.and_eq_true_iff.mp hle).2, _, hfinite, rfl⟩
  · cases h

theorem endsAt_factorialText {digits t : List Char} (h : factorialText digits = .ok t) :
    ∃ c ∈ t.getLast?, Numeral.endsAt c = true := by
  obtain ⟨-, n, hfinite, rfl⟩ := factorialText_eq_ok h
  exact endsAt_numberText hfinite

/-! ## The beginning of a text -/

/-- A text that starts like a numeral still does so after the pass. -/
theorem starts_resolveFactorials {cs r : List Char} (h : resolveFactorials cs = .ok r)
    (hcs : ∃ c ∈ cs.head?, Numeral.starts c = true) :
    ∃ c ∈ r.head?, Numeral.starts c = true := by
  obtain ⟨c, hc, hstarts⟩ := hcs
  obtain ⟨cs, rfl⟩ : ∃ ds, cs = c :: ds := ⟨cs.tail, (List.cons_head?_tail hc).symm⟩
  rcases hm : factorials.match? (c :: cs) with _ | ⟨digits, rest⟩
  · rw [resolveFactorials, Pattern.replaceAll_cons _ _ hm] at h
    obtain ⟨r, -, rfl⟩ := ok_inOrder_eq_ok_iff.mp h
    exact ⟨c, rfl, hstarts⟩
  · rw [resolveFactorials, Pattern.replaceAll_of_some _ _ hm] at h
    obtain ⟨t, r, ht, -, rfl⟩ := inOrder_eq_ok_iff.mp h
    obtain ⟨-, n, hfinite, rfl⟩ := factorialText_eq_ok ht
    obtain ⟨d, hd, hdstarts⟩ := starts_numberText hfinite (isNegative_factorial n)
    exact ⟨d, List.mem_head?_append_of_mem_head? hd, hdstarts⟩

/-! ## The end of a text -/

/-- No name ends like an operand. -/
theorem MathFunction.not_name_suffix {f : MathFunction} {a : List Char}
    (ha : ∃ c ∈ a.getLast?, EndsOperand c) : ¬ f.name.toList <:+ a := by
  rintro ⟨b, rfl⟩
  obtain ⟨c, hc, hends⟩ := ha
  have hname : ∀ d ∈ f.name.toList.getLast?, ¬ EndsOperand d := by
    cases f <;> simp [name, EndsOperand, Numeral.endsAt, Char.isDigit]
  rcases Token.getLast?_append_cases hc with hlast | ⟨hnil, -⟩
  · exact hname c hlast hends
  · cases f <;> simp [name] at hnil

/-- **An operand in front of a parenthesis** is one to the end. -/
theorem resolve_append_openParen {fs : List MathFunction} {a b r : List Char}
    (ha : ∃ c ∈ a.getLast?, EndsOperand c) (h : resolve fs (a ++ '(' :: b) = .ok r) :
    ∃ a' b', r = a' ++ '(' :: b' ∧ ∃ c ∈ a'.getLast?, EndsOperand c := by
  induction fs generalizing a b with
  | nil =>
    rw [resolve, resolveFactorials_append_cons ⟨startsNothing_openParen.1, by decide⟩] at h
    obtain ⟨a', w, ha', hw, rfl⟩ := inOrder_eq_ok_iff.mp h
    obtain ⟨b', -, rfl⟩ := ok_inOrder_eq_ok_iff.mp hw
    refine ⟨a', b', rfl, Pattern.replaceAll_last factorials_leavesSuffix (fun _ _ ht ↦ ?_) ha' ha⟩
    obtain ⟨c, hc, hends⟩ := endsAt_factorialText ht
    exact ⟨c, hc, Or.inl hends⟩
  | cons f fs ih =>
    obtain ⟨next, hnext, hrest⟩ := resolve_cons_eq_ok h
    obtain ⟨a', b', ha', -, rfl⟩ :=
      MathFunction.resolveCalls_append_openParen (MathFunction.not_name_suffix ha) hnext
    refine ih (Pattern.replaceAll_last f.calls_leavesSuffix (fun _ _ ht ↦ ?_) ha' ha) hrest
    obtain ⟨c, hc, hends⟩ := MathFunction.endsAt_callText ht
    exact ⟨c, hc, Or.inl hends⟩

/-! ## Factorials of large numbers -/

theorem bang_notMem_digits {ds : List Char} (h : ∀ c ∈ ds, Text.isDecimalDigit c = true) :
    '!' ∉ ds := by
  intro hmem
  have hbang := h '!' hmem
  rw [isDecimalDigit_bang] at hbang
  cases hbang

/-- More digits in front do not make a number smaller. -/
theorem ofDigitChars_le_append (a ds : List Char) :
    Nat.ofDigitChars 10 ds 0 ≤ Nat.ofDigitChars 10 (a ++ ds) 0 := by
  calc Nat.ofDigitChars 10 ds 0
      ≤ 10 ^ ds.length * Nat.ofDigitChars 10 a 0 + Nat.ofDigitChars 10 ds 0 :=
        Nat.le_add_left _ _
    _ = Nat.ofDigitChars 10 ds (Nat.ofDigitChars 10 a 0) :=
        Nat.ofDigitChars_eq_ofDigitChars_zero.symm
    _ = Nat.ofDigitChars 10 (a ++ ds) 0 := (Nat.ofDigitChars_append 0).symm

/-- **A factorial of a large number** is an error, whatever digits stand in front of it. -/
theorem not_suffix_of_large {ds b cs r : List Char} (hne : ds ≠ [])
    (hds : ∀ c ∈ ds, c.isDigit = true) (hlarge : maxFactorial < Nat.ofDigitChars 10 ds 0)
    (h : resolveFactorials cs = .ok r) : ¬ (ds ++ '!' :: b) <:+ cs := by
  have hdecimal : ∀ c ∈ ds, Text.isDecimalDigit c = true :=
    fun c hc ↦ Text.isDecimalDigit_of_isDigit (hds c hc)
  have hsmall : ∀ a t, factorialText (a ++ ds) ≠ .ok t := by
    intro a t ht
    have hle := (factorialText_eq_ok ht).1
    have hmore := ofDigitChars_le_append a ds
    omega
  refine Pattern.replaceAll_induction (p := factorials)
    (motive := fun cs _ ↦ ¬ (ds ++ '!' :: b) <:+ cs) ?_ ?_ ?_ h
  · intro hsuffix
    simpa using List.suffix_nil.mp hsuffix
  · intro c cs r hm _ ih hsuffix
    rcases List.suffix_cons_iff.mp hsuffix with heq | hsuffix
    · rw [← heq, factorials_match? hne hdecimal] at hm
      cases hm
    · exact ih hsuffix
  · rintro cs rest digits t r hm ht - ih ⟨a, heq⟩
    obtain ⟨rfl, -, hall⟩ := factorial?_eq_some_iff.mp hm
    rw [← List.append_assoc] at heq
    rcases List.append_eq_append_iff.mp heq with ⟨z, rfl, hz⟩ | ⟨z, hz, hrest⟩
    · -- the exclamation mark is not among the digits of the match
      rcases z with _ | ⟨e, z⟩
      · rw [List.append_nil] at ht
        exact hsmall a t ht
      · obtain rfl := (List.cons.inj hz).1
        exact bang_notMem_digits hall (by simp)
    · rcases z with _ | ⟨e, z⟩
      · rw [List.append_nil] at hz
        exact hsmall a t (hz ▸ ht)
      · -- the match ends in front of the digits
        obtain ⟨rfl, rfl⟩ := List.cons.inj hrest
        have hbang := bang_notMem_digits hdecimal
        have hsuffix : ds <:+ z := by
          rcases List.suffix_or_suffix_of_suffix (List.suffix_append a ds)
            (hz ▸ List.suffix_append digits ('!' :: z)) with hsuffix | hsuffix
          · refine (List.suffix_cons_iff.mp hsuffix).resolve_left ?_
            rintro rfl
            exact hbang List.mem_cons_self
          · exact absurd (hsuffix.subset List.mem_cons_self) hbang
        obtain ⟨y, rfl⟩ := hsuffix
        exact ih ⟨y, by simp⟩

end Calculator

import Calculator.Proofs.Reduction.LastPass

/-!
# Factorials as runs of digits

The pass for the factorials looks at one place of a text after the other, and where some digits and
an exclamation mark begin it replaces them.  Seen from the text, a factorial is a run of decimal
digits that no other digit stands in front of, with an exclamation mark directly behind it
(`FactorialIn`).  These are the same: where a run begins, all of it is taken, so that the search
never goes on in the middle of one.

Every text is a list of `Stretch`es and a rest, where each stretch ends with a factorial and nothing
else in the text is one (`exists_stretches`, `factorialIn_stretches_iff`).  The pass keeps what the
stretches hold in front of their factorials, puts in the factorials' values, and keeps the rest
(`resolveFactorials_stretches`).  It fails if the number of a factorial is too large, or is not
written in ASCII digits, and for no other reason (`resolveFactorials_exact`).
-/

set_option autoImplicit false

namespace Calculator

/-! ## Where factorials are -/

/-- In the text, these digits are a factorial: a run of decimal digits that is as long as it can be,
directly followed by an exclamation mark. -/
structure FactorialIn (s before digits after : List Char) : Prop where
  text : s = before ++ (digits ++ '!' :: after)
  nonempty : digits ≠ []
  decimal : ∀ d ∈ digits, Text.isDecimalDigit d = true
  maximal : ∀ c ∈ before.getLast?, Text.isDecimalDigit c = false

section

variable {b d k e u v : List Char}

/-- Digits and an exclamation mark are no part of a text in which no match starts. -/
theorem not_absent_of_factorial (hne : d ≠ []) (hd : ∀ c ∈ d, Text.isDecimalDigit c = true) :
    ¬ factorials.Absent (b ++ (d ++ '!' :: v)) := by
  intro h
  have hnone := (Pattern.absent_iff _).mp h _ (List.suffix_append b _)
  rw [factorials_match? hne hd] at hnone
  cases hnone

theorem match?_of_append (h : factorials.match? (u ++ v) = none) : factorials.match? u = none := by
  rcases hm : factorials.match? u with _ | ⟨digits, rest⟩
  · rfl
  · obtain ⟨rfl, hne, hdigits⟩ := factorial?_eq_some_iff.mp hm
    rw [List.append_assoc, List.cons_append, factorials_match? hne hdigits] at h
    cases h

/-- A text ends with one run of digits only. -/
theorem run_unique (h : b ++ d = k ++ e) (hd : ∀ c ∈ d, Text.isDecimalDigit c = true)
    (he : ∀ c ∈ e, Text.isDecimalDigit c = true)
    (hb : ∀ c ∈ b.getLast?, Text.isDecimalDigit c = false)
    (hk : ∀ c ∈ k.getLast?, Text.isDecimalDigit c = false) : b = k ∧ d = e := by
  -- what is behind the shorter of the two beginnings would have to end with a digit
  have hnil : ∀ {u w : List Char}, (∀ c ∈ (u ++ w).getLast?, Text.isDecimalDigit c = false) →
      (∀ c ∈ w, Text.isDecimalDigit c = true) → w = [] := by
    intro u w hlast hw
    rcases List.eq_nil_or_concat w with rfl | ⟨w, c, rfl⟩
    · rfl
    · rw [List.concat_eq_append] at hlast hw
      have hc := hlast c (by simp)
      rw [hw c (by simp)] at hc
      cases hc
  rcases List.append_eq_append_iff.mp h with ⟨w, rfl, rfl⟩ | ⟨w, rfl, rfl⟩
  · obtain rfl := hnil hk fun c hc ↦ hd c (List.mem_append_left e hc)
    exact ⟨(List.append_nil b).symm, rfl⟩
  · obtain rfl := hnil hb fun c hc ↦ he c (List.mem_append_left d hc)
    exact ⟨List.append_nil k, rfl⟩

/-- An exclamation mark in a text that ends with digits stands in front of them. -/
theorem exists_append_of_bang (h : u ++ '!' :: v = b ++ d)
    (hd : ∀ c ∈ d, Text.isDecimalDigit c = true) : ∃ y, b = u ++ '!' :: y ∧ v = y ++ d := by
  have hbang := bang_notMem_digits hd
  rcases List.append_eq_append_iff.mp h with ⟨z, rfl, hz⟩ | ⟨z, -, rfl⟩
  · rcases z with _ | ⟨c, y⟩
    · exact absurd (by rw [show d = '!' :: v from hz.symm]; exact List.mem_cons_self) hbang
    · obtain ⟨rfl, rfl⟩ := List.cons.inj hz
      exact ⟨y, rfl, rfl⟩
  · exact absurd (by simp) hbang

end

/-! ## Stretches -/

/-- A part of a text that ends with a factorial and has no other one in it. -/
structure Stretch where
  /-- What stands in front of the factorial. -/
  kept : List Char
  digits : List Char
  nonempty : digits ≠ []
  decimal : ∀ d ∈ digits, Text.isDecimalDigit d = true
  maximal : ∀ c ∈ kept.getLast?, Text.isDecimalDigit c = false
  free : factorials.Absent kept

namespace Stretch

variable (x : Stretch)

def text : List Char := x.kept ++ (x.digits ++ ['!'])

/-- The number whose factorial it is, if the digits are ASCII ones. -/
def number : Nat := Nat.ofDigitChars 10 x.digits 0

/-- What the pass makes of it. -/
def valueText : List Char := x.kept ++ numberText (factorial x.number)

theorem text_append (s : List Char) : x.text ++ s = x.kept ++ (x.digits ++ '!' :: s) := by
  simp [text]

/-- The first factorial of a stretch and what follows it is that of the stretch. -/
theorem factorialIn_append_iff {s before digits after : List Char} :
    FactorialIn (x.text ++ s) before digits after ↔
      (before = x.kept ∧ digits = x.digits ∧ after = s) ∨
        ∃ between, before = x.text ++ between ∧ FactorialIn s between digits after := by
  constructor
  · rintro ⟨htext, hne, hdecimal, hmaximal⟩
    rw [text_append, ← List.append_assoc, ← List.append_assoc] at htext
    have hfirst : x.kept ++ x.digits = before ++ digits → '!' :: s = '!' :: after →
        before = x.kept ∧ digits = x.digits ∧ after = s := by
      intro hrun hrest
      obtain ⟨hkept, hdigits⟩ := run_unique hrun x.decimal hdecimal x.maximal hmaximal
      exact ⟨hkept.symm, hdigits.symm, (List.cons.inj hrest).2.symm⟩
    rcases List.append_eq_append_iff.mp htext with ⟨z, hz, hs⟩ | ⟨z, hz, hafter⟩
    · rcases z with _ | ⟨c, z⟩
      · rw [List.append_nil] at hz
        exact Or.inl (hfirst hz.symm hs)
      · -- the factorial is behind the stretch
        obtain ⟨rfl, rfl⟩ := List.cons.inj hs
        obtain ⟨between, rfl, rfl⟩ := exists_append_of_bang hz.symm hdecimal
        refine Or.inr ⟨between, by simp [text], by simp, hne, hdecimal, fun c hc ↦ hmaximal c ?_⟩
        have hlast : c ∈ (x.text ++ between).getLast? :=
          List.mem_getLast?_append_of_mem_getLast? hc
        simpa [text] using hlast
    · rcases z with _ | ⟨c, z⟩
      · rw [List.append_nil] at hz
        exact Or.inl (hfirst hz hafter.symm)
      · -- the factorial would be in front of the digits of the stretch
        obtain ⟨rfl, rfl⟩ := List.cons.inj hafter
        obtain ⟨y, hkept, -⟩ := exists_append_of_bang hz.symm x.decimal
        rw [List.append_assoc] at hkept
        exact absurd (hkept ▸ x.free) (not_absent_of_factorial hne hdecimal)
  · rintro (⟨rfl, rfl, rfl⟩ | ⟨between, rfl, htext, hne, hdecimal, hmaximal⟩)
    · exact ⟨x.text_append after, x.nonempty, x.decimal, x.maximal⟩
    · refine ⟨by rw [htext, List.append_assoc], hne, hdecimal, fun c hc ↦ ?_⟩
      rcases Token.getLast?_append_cases hc with hlast | ⟨-, hlast⟩
      · exact hmaximal c hlast
      · rw [text, ← List.append_assoc, List.getLast?_append] at hlast
        cases hlast
        decide

/-- Nothing is replaced in front of the factorial. -/
theorem skips_kept : factorials.Skips x.kept := by
  intro c cs rest hsuffix
  rcases hm : factorials.match? (c :: cs ++ rest) with _ | ⟨digits, after⟩
  · rfl
  · exfalso
    obtain ⟨heq, hne, hdecimal⟩ := factorial?_eq_some_iff.mp hm
    obtain ⟨before, hbefore⟩ := hsuffix
    -- the digits of a match would end in front of the last character, which is none
    have hlast := x.maximal ((c :: cs).getLast (List.cons_ne_nil c cs)) (by
      rw [← hbefore, List.getLast?_append, List.getLast?_eq_some_getLast (List.cons_ne_nil c cs)]
      rfl)
    have hnot : ∀ z, digits ≠ c :: cs ++ z := by
      rintro z rfl
      rw [hdecimal _ (List.mem_append_left z (List.getLast_mem _))] at hlast
      cases hlast
    rcases List.append_eq_append_iff.mp heq with ⟨z, hz, -⟩ | ⟨z, hz, hrest⟩
    · exact hnot z hz
    · rcases z with _ | ⟨d, z⟩
      · exact hnot [] (by rw [hz, List.append_nil, List.append_nil])
      · obtain ⟨rfl, -⟩ := List.cons.inj hrest
        rw [hz] at hbefore
        exact not_absent_of_factorial hne hdecimal (hbefore ▸ x.free)

/-- **What the pass does to a stretch**, whatever follows it. -/
theorem resolveFactorials_append (s : List Char) :
    resolveFactorials (x.text ++ s)
      = inOrder (.ok x.kept) (inOrder (factorialText x.digits) (resolveFactorials s)) := by
  rw [text_append, resolveFactorials, Pattern.replaceAll_skip _ _ x.skips_kept,
    Pattern.replaceAll_of_some _ _ (factorials_match? x.nonempty x.decimal s)]
  rfl

/-- With one more character in front it is a stretch, unless the character is one more digit. -/
theorem exists_cons_text {c : Char} {s : List Char}
    (h : factorials.match? (c :: (x.text ++ s)) = none) : ∃ y : Stretch, y.text = c :: x.text := by
  rw [text_append] at h
  refine ⟨⟨c :: x.kept, x.digits, x.nonempty, x.decimal, fun d hd ↦ ?_,
    match?_of_append (u := c :: x.kept) h, x.free⟩, rfl⟩
  rcases Token.getLast?_append_cases (a := [c]) hd with hlast | ⟨hnil, hlast⟩
  · exact x.maximal d hlast
  · obtain rfl : c = d := Option.some.inj hlast
    by_contra hdigit
    have hdecimal : ∀ e ∈ c :: x.digits, Text.isDecimalDigit e = true :=
      List.forall_mem_cons.mpr ⟨Bool.eq_true_of_not_eq_false hdigit, x.decimal⟩
    have hmatch := factorials_match? (List.cons_ne_nil c x.digits) hdecimal s
    rw [hnil] at h
    exact absurd (hmatch.symm.trans h) nofun

end Stretch

/-- **Every text is a list of stretches**, with a rest in which there is no factorial.  The
induction is on the length, along the pass. -/
theorem exists_stretches (s : List Char) :
    ∃ (xs : List Stretch) (rest : List Char), s = xs.flatMap Stretch.text ++ rest ∧
      factorials.Absent rest := by
  induction hn : s.length using Nat.strongRecOn generalizing s with
  | ind n ih =>
    subst hn
    rcases hm : factorials.match? s with _ | ⟨digits, after⟩
    · cases s with
      | nil => exact ⟨[], [], rfl, factorials.match?_nil⟩
      | cons c s =>
        obtain ⟨xs, rest, rfl, hrest⟩ := ih s.length (Nat.lt_succ_self _) s rfl
        rcases xs with _ | ⟨x, xs⟩
        · exact ⟨[], c :: rest, rfl, hm, hrest⟩
        · rw [List.flatMap_cons, List.append_assoc] at hm ⊢
          obtain ⟨y, hy⟩ := x.exists_cons_text hm
          exact ⟨y :: xs, rest, by simp [hy], hrest⟩
    · obtain ⟨rfl, hne, hdecimal⟩ := factorial?_eq_some_iff.mp hm
      obtain ⟨xs, rest, rfl, hrest⟩ := ih after.length (factorials.shorter hm) after rfl
      let x : Stretch := ⟨[], digits, hne, hdecimal, by simp, factorials.match?_nil⟩
      exact ⟨x :: xs, rest, by simp [x, Stretch.text], hrest⟩

/-- **The factorials of a text** are those of its stretches. -/
theorem factorialIn_stretches_iff {xs : List Stretch} {rest : List Char}
    (hrest : factorials.Absent rest) {before digits after : List Char} :
    FactorialIn (xs.flatMap Stretch.text ++ rest) before digits after ↔
      ∃ ys x zs, xs = ys ++ x :: zs ∧ before = ys.flatMap Stretch.text ++ x.kept ∧
        digits = x.digits ∧ after = zs.flatMap Stretch.text ++ rest := by
  induction xs generalizing before with
  | nil =>
    constructor
    · rintro ⟨htext, hne, hdecimal, -⟩
      rw [List.flatMap_nil, List.nil_append] at htext
      exact absurd (htext ▸ hrest) (not_absent_of_factorial hne hdecimal)
    · rintro ⟨ys, x, zs, hxs, -⟩
      simp at hxs
  | cons x xs ih =>
    rw [List.flatMap_cons, List.append_assoc, x.factorialIn_append_iff]
    constructor
    · rintro (⟨rfl, rfl, rfl⟩ | ⟨between, rfl, hin⟩)
      · exact ⟨[], x, xs, rfl, rfl, rfl, rfl⟩
      · obtain ⟨ys, y, zs, rfl, rfl, rfl, rfl⟩ := ih.mp hin
        exact ⟨x :: ys, y, zs, rfl, by simp, rfl, rfl⟩
    · rintro ⟨ys, y, zs, hxs, rfl, rfl, rfl⟩
      rcases List.cons_eq_append_iff.mp hxs with ⟨rfl, hcons⟩ | ⟨ys, rfl, rfl⟩
      · obtain ⟨rfl, rfl⟩ := List.cons.inj hcons
        exact Or.inl ⟨rfl, rfl, rfl⟩
      · refine Or.inr ⟨ys.flatMap Stretch.text ++ y.kept, by simp, ?_⟩
        exact ih.mpr ⟨ys, y, zs, rfl, rfl, rfl, rfl⟩

/-! ## What the pass does -/

/-- The digits are ASCII ones, and the factorial of their number is finite. -/
def HasFactorial (digits : List Char) : Prop :=
  (∀ d ∈ digits, d.isDigit = true) ∧ Nat.ofDigitChars 10 digits 0 ≤ maxFactorial

theorem not_hasFactorial_iff {digits : List Char} : ¬ HasFactorial digits ↔
    (∃ d ∈ digits, d.isDigit = false) ∨ maxFactorial < Nat.ofDigitChars 10 digits 0 := by
  simp [HasFactorial, imp_iff_not_or]

theorem factorialText_of_hasFactorial {digits : List Char} (h : HasFactorial digits) :
    factorialText digits = .ok (numberText (factorial (Nat.ofDigitChars 10 digits 0))) := by
  rw [factorialText_eq h.1]
  exact finiteText_eq_ok_iff.mpr ⟨isFinite_factorial_iff.mpr h.2, rfl⟩

theorem factorialText_of_not_hasFactorial {digits : List Char} (h : ¬ HasFactorial digits) :
    factorialText digits = .error .notFinite := by
  refine if_neg fun hsmall ↦ h ?_
  obtain ⟨hall, hle⟩ := Bool.and_eq_true_iff.mp hsmall
  exact ⟨List.all_eq_true.mp hall, of_decide_eq_true hle⟩

section

variable {xs : List Stretch} {rest : List Char}

/-- **The pass** replaces the factorials of all stretches and keeps everything else. -/
theorem resolveFactorials_stretches (hrest : factorials.Absent rest)
    (h : ∀ x ∈ xs, HasFactorial x.digits) :
    resolveFactorials (xs.flatMap Stretch.text ++ rest)
      = .ok (xs.flatMap Stretch.valueText ++ rest) := by
  induction xs with
  | nil => exact Pattern.replaceAll_of_absent _ _ hrest
  | cons x xs ih =>
    obtain ⟨hx, hxs⟩ := List.forall_mem_cons.mp h
    rw [List.flatMap_cons, List.append_assoc, x.resolveFactorials_append,
      factorialText_of_hasFactorial hx, ih hxs]
    simp [inOrder, Except.bind, Except.map, Stretch.valueText, Stretch.number]

/-- One factorial without a value is enough for the pass to fail. -/
theorem resolveFactorials_stretches_error (h : ∃ x ∈ xs, ¬ HasFactorial x.digits) :
    resolveFactorials (xs.flatMap Stretch.text ++ rest) = .error .notFinite := by
  induction xs with
  | nil =>
    obtain ⟨x, hx, -⟩ := h
    cases hx
  | cons x xs ih =>
    rw [List.flatMap_cons, List.append_assoc, x.resolveFactorials_append]
    by_cases hx : HasFactorial x.digits
    · obtain ⟨y, hy, hbad⟩ := h
      have hys : y ∈ xs := (List.mem_cons.mp hy).resolve_left fun heq ↦ hbad (heq ▸ hx)
      rw [factorialText_of_hasFactorial hx, ih ⟨y, hys, hbad⟩]
      rfl
    · rw [factorialText_of_not_hasFactorial hx]
      rfl

end

/-- **The pass for the factorials is exact.**  A text is cut at its factorials, all of them; each is
replaced by the exact text of its value, and nothing else is changed.  The pass fails exactly if the
digits of some factorial are not all ASCII digits or are those of a number above 170, and the cause
is always the same.  Up to that number the products are finite, and from there on they are not. -/
theorem resolveFactorials_exact (s : List Char) :
    (∃ (xs : List Stretch) (rest : List Char), s = xs.flatMap Stretch.text ++ rest ∧
      (∀ before digits after, FactorialIn s before digits after ↔
        ∃ ys x zs, xs = ys ++ x :: zs ∧ before = ys.flatMap Stretch.text ++ x.kept ∧
          digits = x.digits ∧ after = zs.flatMap Stretch.text ++ rest) ∧
      ((∀ x ∈ xs, (∀ d ∈ x.digits, d.isDigit = true) ∧ x.number ≤ 170) →
        resolveFactorials s = .ok (xs.flatMap Stretch.valueText ++ rest))) ∧
    (∀ cause, resolveFactorials s = .error cause ↔ cause = .notFinite ∧
      ∃ before digits after, FactorialIn s before digits after ∧
        ((∃ d ∈ digits, d.isDigit = false) ∨ 170 < Nat.ofDigitChars 10 digits 0)) ∧
    ∀ n, (factorial n).isFinite = true ↔ n ≤ 170 := by
  obtain ⟨xs, rest, rfl, hrest⟩ := exists_stretches s
  have hin := @factorialIn_stretches_iff xs rest hrest
  have hbad : (∃ x ∈ xs, ¬ HasFactorial x.digits) ↔ ∃ before digits after,
      FactorialIn (xs.flatMap Stretch.text ++ rest) before digits after ∧
        ((∃ d ∈ digits, d.isDigit = false) ∨ 170 < Nat.ofDigitChars 10 digits 0) := by
    constructor
    · rintro ⟨x, hx, hbad⟩
      obtain ⟨ys, zs, rfl⟩ := List.append_of_mem hx
      exact ⟨_, _, _, hin.mpr ⟨ys, x, zs, rfl, rfl, rfl, rfl⟩, not_hasFactorial_iff.mp hbad⟩
    · rintro ⟨before, digits, after, hfactorial, hbad⟩
      obtain ⟨ys, x, zs, rfl, -, rfl, -⟩ := hin.mp hfactorial
      exact ⟨x, by simp, not_hasFactorial_iff.mpr hbad⟩
  refine ⟨⟨xs, rest, rfl, fun _ _ _ ↦ hin, fun h ↦ resolveFactorials_stretches hrest h⟩,
    fun cause ↦ ?_, fun _ ↦ isFinite_factorial_iff⟩
  rw [← hbad]
  by_cases h : ∃ x ∈ xs, ¬ HasFactorial x.digits
  · rw [resolveFactorials_stretches_error h]
    exact ⟨fun heq ↦ ⟨(Except.error.inj heq).symm, h⟩, fun heq ↦ by rw [heq.1]⟩
  · rw [resolveFactorials_stretches hrest (by simpa using h)]
    exact ⟨fun heq ↦ (nomatch heq), fun heq ↦ absurd heq.2 h⟩

end Calculator

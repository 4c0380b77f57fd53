import Calculator.Decimal.Numeral

/-!
# Where a numeral ends

`Numeral.scan` takes a numeral off the front of a text.  Its result is described here without
scanning: `scan cs` is the numeral `n` with the text `rest` behind it exactly when `cs` is the text
of `n` followed by `rest`, the parts of `n` are what they should be, and `n` cannot go on with the
first character of `rest` (`scan_eq_iff`).

Whether a numeral can go on with a character depends on the parts it has: a point is only possible
before there is a point or an exponent, a sign only right after the mark of an exponent.  If it can,
the character makes a longer numeral of it (`exists_text_append`), and so nothing of the shape of a
numeral with which a text begins is longer than what is scanned (`length_text_le_scan`).
-/

set_option autoImplicit false

namespace Calculator

/-- The mark, the sign and the digits of an exponent are such. -/
structure Exponent.WellFormed (e : Exponent) : Prop where
  mark : Numeral.isMark e.mark = true
  sign : ∀ c ∈ e.sign, c = '+' ∨ c = '-'
  digits : ∀ c ∈ e.digits, c.isDigit = true

namespace Numeral

/-- The parts of a numeral are such. -/
structure WellFormed (n : Numeral) : Prop where
  integer : ∀ c ∈ n.integer, c.isDigit = true
  fraction : ∀ ds ∈ n.fraction, ∀ c ∈ ds, c.isDigit = true
  exponent : ∀ e ∈ n.exponent, e.WellFormed

/-- The numeral could be longer if this character followed. -/
def canGoOn (n : Numeral) (c : Char) : Bool :=
  match n.exponent with
  | some e => c.isDigit || (e.digits.isEmpty && e.sign.isNone && (c == '+' || c == '-'))
  | none => c.isDigit || isMark c || (n.fraction.isNone && c == '.')

/-! ## Runs of digits -/

section

variable {ds rest : List Char}

theorem takeWhile_digits (h : ∀ c ∈ ds, c.isDigit = true)
    (hrest : ∀ c ∈ rest.head?, c.isDigit = false) :
    (ds ++ rest).takeWhile Char.isDigit = ds := by
  rw [List.takeWhile_append_of_pos h]
  cases rest with
  | nil => exact List.append_nil ds
  | cons c cs =>
    rw [List.takeWhile_cons_of_neg (by rw [hrest c rfl]; decide), List.append_nil]

theorem dropWhile_digits (h : ∀ c ∈ ds, c.isDigit = true)
    (hrest : ∀ c ∈ rest.head?, c.isDigit = false) :
    (ds ++ rest).dropWhile Char.isDigit = rest := by
  rw [List.dropWhile_append_of_pos h]
  cases rest with
  | nil => rfl
  | cons c cs => rw [List.dropWhile_cons_of_neg (by rw [hrest c rfl]; decide)]

theorem isDigit_of_mem_takeWhile {cs : List Char} :
    ∀ c ∈ cs.takeWhile Char.isDigit, c.isDigit = true :=
  List.all_eq_true.mp List.all_takeWhile

theorem head_dropWhile_digits {cs : List Char} :
    ∀ c ∈ (cs.dropWhile Char.isDigit).head?, c.isDigit = false := by
  intro c hc
  rcases hdrop : cs.dropWhile Char.isDigit with _ | ⟨d, ds⟩
  · rw [hdrop] at hc
    cases hc
  · have hhead := List.head_dropWhile_not Char.isDigit (l := cs) (by rw [hdrop]; simp)
    rw [hdrop] at hc
    cases hc
    simpa only [hdrop, List.head_cons, Bool.not_eq_true] using hhead

end

/-! ## The parts in order -/

theorem isDigit_point : Char.isDigit '.' = false := by decide

theorem isMark_point : isMark '.' = false := by decide

theorem isDigit_of_isMark {c : Char} (h : isMark c = true) : c.isDigit = false := by
  simp only [isMark, Bool.or_eq_true, beq_iff_eq] at h
  rcases h with rfl | rfl <;> decide

/-- A numeral that cannot go on with a character cannot go on with a digit. -/
theorem isDigit_of_not_canGoOn {n : Numeral} {c : Char} (h : n.canGoOn c = false) :
    c.isDigit = false := by
  unfold canGoOn at h
  split at h <;> simp only [Bool.or_eq_false_iff] at h
  · exact h.1
  · exact h.1.1

theorem scanSign_of_noSign {cs : List Char} (h : ∀ c ∈ cs.head?, c ≠ '+' ∧ c ≠ '-') :
    scanSign cs = (none, cs) := by
  unfold scanSign
  split
  · exact absurd rfl (h '+' rfl).1
  · exact absurd rfl (h '-' rfl).2
  · rfl

/-- The sign and the digits of an exponent are taken apart again. -/
theorem scanSign_append_digits {n : Numeral} {e : Exponent} {rest : List Char}
    (hn : n.exponent = some e) (he : e.WellFormed)
    (hrest : ∀ c ∈ rest.head?, n.canGoOn c = false) :
    scanSign (e.sign.toList ++ (e.digits ++ rest)) = (e.sign, e.digits ++ rest) := by
  rcases hs : e.sign with _ | s
  · apply scanSign_of_noSign
    rcases hds : e.digits with _ | ⟨d, ds⟩
    · intro c hc
      have h := hrest c hc
      simp only [canGoOn, hn, hds, hs, List.isEmpty_nil, Option.isNone_none, Bool.true_and,
        Bool.or_eq_false_iff, beq_eq_false_iff_ne] at h
      exact h.2
    · intro c hc
      cases hc
      have hd : d.isDigit = true := he.digits d (by rw [hds]; exact List.mem_cons_self)
      constructor <;> rintro rfl <;> exact absurd hd (by decide)
  · rcases he.sign s hs with rfl | rfl <;> rfl

theorem scanExponent_text_append {n : Numeral} {rest : List Char} (hn : n.WellFormed)
    (hrest : ∀ c ∈ rest.head?, n.canGoOn c = false) :
    scanExponent (exponentText n.exponent ++ rest) = (n.exponent, rest) := by
  rcases he : n.exponent with _ | e
  · cases rest with
    | nil => rfl
    | cons c cs =>
      have h := hrest c rfl
      simp only [canGoOn, he, Bool.or_eq_false_iff] at h
      rw [exponentText, List.nil_append, scanExponent, if_neg (by rw [h.1.2]; decide)]
  · have hwell := hn.exponent e he
    have hstop : ∀ c ∈ rest.head?, c.isDigit = false :=
      fun c hc ↦ isDigit_of_not_canGoOn (hrest c hc)
    show scanExponent (e.mark :: (e.sign.toList ++ e.digits ++ rest)) = _
    rw [scanExponent, if_pos hwell.mark, List.append_assoc,
      scanSign_append_digits he hwell hrest]
    simp only [takeWhile_digits hwell.digits hstop, dropWhile_digits hwell.digits hstop]

/-- What follows the point or the digits before it is not a digit, and not a point if none came. -/
theorem head_exponentText_append {n : Numeral} {rest : List Char} (hn : n.WellFormed)
    (hrest : ∀ c ∈ rest.head?, n.canGoOn c = false) :
    ∀ c ∈ (exponentText n.exponent ++ rest).head?,
      c.isDigit = false ∧ (n.fraction = none → c ≠ '.') := by
  intro c hc
  rcases he : n.exponent with _ | e
  · rw [he, exponentText, List.nil_append] at hc
    have h := hrest c hc
    simp only [canGoOn, he, Bool.or_eq_false_iff, Bool.and_eq_false_iff,
      beq_eq_false_iff_ne] at h
    refine ⟨h.1.1, fun hf ↦ ?_⟩
    rcases h.2 with h2 | h2
    · rw [hf] at h2
      cases h2
    · exact h2
  · rw [he] at hc
    have hmark : isMark c = true := by
      have heq : e.mark = c := Option.some.inj hc
      exact heq ▸ (hn.exponent e he).mark
    refine ⟨isDigit_of_isMark hmark, ?_⟩
    rintro - rfl
    rw [isMark_point] at hmark
    cases hmark

theorem scanFraction_text_append {f : Option (List Char)} {rest : List Char}
    (hf : ∀ ds ∈ f, ∀ c ∈ ds, c.isDigit = true)
    (hrest : ∀ c ∈ rest.head?, c.isDigit = false ∧ (f = none → c ≠ '.')) :
    scanFraction (fractionText f ++ rest) = (f, rest) := by
  cases f with
  | none =>
    rw [fractionText, List.nil_append]
    unfold scanFraction
    split
    · exact absurd rfl ((hrest '.' rfl).2 rfl)
    · rfl
  | some ds =>
    have hds := hf ds rfl
    have hstop : ∀ c ∈ rest.head?, c.isDigit = false := fun c hc ↦ (hrest c hc).1
    show scanFraction ('.' :: (ds ++ rest)) = _
    rw [scanFraction, takeWhile_digits hds hstop, dropWhile_digits hds hstop]

/-- **A numeral is read back** from its text and anything that it cannot go on with. -/
theorem scan_text_append {n : Numeral} {rest : List Char} (hn : n.WellFormed)
    (hrest : ∀ c ∈ rest.head?, n.canGoOn c = false) : scan (n.text ++ rest) = (n, rest) := by
  have hhead := head_exponentText_append hn hrest
  have hstop : ∀ c ∈ (fractionText n.fraction ++ (exponentText n.exponent ++ rest)).head?,
      c.isDigit = false := by
    rcases hf : n.fraction with _ | ds
    · exact fun c hc ↦ (hhead c hc).1
    · intro c hc
      cases hc
      exact isDigit_point
  have htext : n.text ++ rest
      = n.integer ++ (fractionText n.fraction ++ (exponentText n.exponent ++ rest)) := by
    rw [text, List.append_assoc, List.append_assoc]
  rw [htext, scan]
  simp only [takeWhile_digits hn.integer hstop, dropWhile_digits hn.integer hstop,
    scanFraction_text_append hn.fraction hhead, scanExponent_text_append hn hrest]

/-! ## What scanning finds -/

theorem scanFraction_digits (cs : List Char) :
    ∀ ds ∈ (scanFraction cs).1, ∀ c ∈ ds, c.isDigit = true := by
  unfold scanFraction
  split
  · intro ds hds
    cases hds
    exact isDigit_of_mem_takeWhile
  · intro ds hds
    cases hds

theorem scanSign_sign (cs : List Char) : ∀ c ∈ (scanSign cs).1, c = '+' ∨ c = '-' := by
  unfold scanSign
  split <;> intro c hc <;> cases hc
  · exact Or.inl rfl
  · exact Or.inr rfl

theorem scanExponent_wellFormed (cs : List Char) :
    ∀ e ∈ (scanExponent cs).1, e.WellFormed := by
  cases cs with
  | nil => intro e he; cases he
  | cons c cs =>
    rw [scanExponent]
    split
    · rename_i hmark
      intro e he
      cases he
      exact ⟨hmark, scanSign_sign cs, isDigit_of_mem_takeWhile⟩
    · intro e he
      cases he

/-- The parts that scanning finds are what they should be. -/
theorem scan_wellFormed (cs : List Char) : (scan cs).1.WellFormed where
  integer := isDigit_of_mem_takeWhile
  fraction := scanFraction_digits _
  exponent := scanExponent_wellFormed _

/-- Behind the point and its digits there is no digit, and no point if there was none before. -/
theorem head_scanFraction {cs : List Char} (hcs : ∀ c ∈ cs.head?, c.isDigit = false) :
    ∀ c ∈ (scanFraction cs).2.head?,
      c.isDigit = false ∧ ((scanFraction cs).1 = none → c ≠ '.') := by
  unfold scanFraction
  split
  · exact fun c hc ↦ ⟨head_dropWhile_digits c hc, fun h ↦ by cases h⟩
  · rename_i hpoint
    refine fun c hc ↦ ⟨hcs c hc, ?_⟩
    rintro - rfl
    cases cs with
    | nil => cases hc
    | cons d ds =>
      cases hc
      exact hpoint ds rfl

/-- If no sign was found, there is none. -/
theorem head_scanSign {cs : List Char} (h : (scanSign cs).1 = none) :
    ∀ c ∈ (scanSign cs).2.head?, c ≠ '+' ∧ c ≠ '-' := by
  unfold scanSign at h ⊢
  split at h
  · cases h
  · cases h
  · rename_i hplus hminus
    intro c hc
    cases cs with
    | nil => cases hc
    | cons d ds =>
      cases hc
      exact ⟨fun heq ↦ hplus ds (heq ▸ rfl), fun heq ↦ hminus ds (heq ▸ rfl)⟩

/-- Without digits to drop, a text stays as it is. -/
theorem dropWhile_of_takeWhile_nil {cs : List Char} (h : cs.takeWhile Char.isDigit = []) :
    cs.dropWhile Char.isDigit = cs := by
  have happ := List.takeWhile_append_dropWhile (p := Char.isDigit) (l := cs)
  rwa [h, List.nil_append] at happ

/-- **Scanning takes all it can.** -/
theorem scan_maximal (cs : List Char) :
    ∀ c ∈ (scan cs).2.head?, (scan cs).1.canGoOn c = false := by
  have hinteger : ∀ c ∈ (cs.dropWhile Char.isDigit).head?, c.isDigit = false :=
    head_dropWhile_digits
  have hfraction := head_scanFraction hinteger
  simp only [scan]
  generalize scanFraction (cs.dropWhile Char.isDigit) = scanned at hfraction ⊢
  obtain ⟨fraction, after⟩ := scanned
  cases after with
  | nil => intro c hc; cases hc
  | cons m ms =>
    rw [scanExponent]
    split
    · intro c hc
      have hdigit : c.isDigit = false := head_dropWhile_digits c hc
      simp only [canGoOn, hdigit, Bool.false_or, Bool.and_eq_false_iff]
      rcases htake : (scanSign ms).2.takeWhile Char.isDigit with _ | ⟨d, ds⟩
      · rcases hs : (scanSign ms).1 with _ | s
        · have hms : c ∈ ((scanSign ms).2.dropWhile Char.isDigit).head? := hc
          rw [dropWhile_of_takeWhile_nil htake] at hms
          obtain ⟨h1, h2⟩ := head_scanSign hs c hms
          exact Or.inr (by simp [h1, h2])
        · exact Or.inl (Or.inr rfl)
      · exact Or.inl (Or.inl rfl)
    · rename_i hmark
      intro c hc
      cases hc
      obtain ⟨h1, h2⟩ := hfraction m rfl
      simp only [canGoOn, h1, Bool.false_or, Bool.or_eq_false_iff, Bool.and_eq_false_iff]
      refine ⟨by simpa using hmark, ?_⟩
      rcases fraction with _ | ds
      · exact Or.inr (by simpa using h2 rfl)
      · exact Or.inl rfl

/-- **Scanning, described without scanning.** -/
theorem scan_eq_iff {cs rest : List Char} {n : Numeral} :
    scan cs = (n, rest) ↔
      cs = n.text ++ rest ∧ n.WellFormed ∧ ∀ c ∈ rest.head?, n.canGoOn c = false := by
  constructor
  · intro h
    have happ := scan_append cs
    have hwell := scan_wellFormed cs
    have hmax := scan_maximal cs
    rw [h] at happ hwell hmax
    exact ⟨happ.symm, hwell, hmax⟩
  · rintro ⟨rfl, hwell, hrest⟩
    exact scan_text_append hwell hrest

/-! ## The longest numeral -/

section

variable {n : Numeral} {c : Char}

/-- An exponent that can go on with a character is continued by it. -/
theorem exists_append_exponent {e : Exponent} (hn : n.WellFormed) (he : n.exponent = some e)
    (hgo : n.canGoOn c = true) :
    ∃ n' : Numeral, n'.WellFormed ∧ n'.text = n.text ++ [c] ∧
      (n.isComplete = true → n'.isComplete = true) := by
  have hwell := hn.exponent e he
  simp only [canGoOn, he, Bool.or_eq_true, Bool.and_eq_true, List.isEmpty_iff,
    Option.isNone_iff_eq_none, beq_iff_eq] at hgo
  rcases hgo with hdigit | ⟨⟨hdigits, hnone⟩, hsign⟩
  · refine ⟨{ n with exponent := some { e with digits := e.digits ++ [c] } },
      ⟨hn.integer, hn.fraction, ?_⟩, ?_, fun hc ↦ ?_⟩
    · rintro _ ⟨rfl⟩
      exact ⟨hwell.mark, hwell.sign,
        List.forall_mem_append.mpr ⟨hwell.digits, List.forall_mem_singleton.mpr hdigit⟩⟩
    · simp [text, he, exponentText, Exponent.text]
    · simp_all [isComplete]
  · refine ⟨{ n with exponent := some { e with sign := some c } },
      ⟨hn.integer, hn.fraction, ?_⟩, ?_, fun hc ↦ ?_⟩
    · rintro _ ⟨rfl⟩
      exact ⟨hwell.mark, fun d hd ↦ (Option.some.inj hd) ▸ hsign, hwell.digits⟩
    · simp [text, he, exponentText, Exponent.text, hdigits, hnone]
    · simp_all [isComplete]

/-- The digits of a numeral without an exponent are continued by a digit. -/
theorem exists_append_digit (hn : n.WellFormed) (he : n.exponent = none)
    (hdigit : c.isDigit = true) :
    ∃ n' : Numeral, n'.WellFormed ∧ n'.text = n.text ++ [c] ∧
      (n.isComplete = true → n'.isComplete = true) := by
  have hnone : ∀ e ∈ n.exponent, e.WellFormed := fun e h ↦ by rw [he] at h; cases h
  have happend : ∀ {ds : List Char}, (∀ d ∈ ds, d.isDigit = true) →
      ∀ d ∈ ds ++ [c], d.isDigit = true := fun hds ↦
    List.forall_mem_append.mpr ⟨hds, List.forall_mem_singleton.mpr hdigit⟩
  rcases hf : n.fraction with _ | ds
  · refine ⟨{ n with integer := n.integer ++ [c] }, ⟨happend hn.integer, hn.fraction, hnone⟩, ?_,
      fun hc ↦ ?_⟩
    · simp [text, he, hf, exponentText, fractionText]
    · simp_all [isComplete]
  · refine ⟨{ n with fraction := some (ds ++ [c]) }, ⟨hn.integer, ?_, hnone⟩, ?_, fun hc ↦ ?_⟩
    · rintro _ ⟨rfl⟩
      exact happend (hn.fraction ds hf)
    · simp [text, he, hf, exponentText, fractionText]
    · simp_all [isComplete]

/-- **A numeral that can go on with a character** is continued by it, and stays complete unless the
character is the mark of an exponent. -/
theorem exists_text_append (hn : n.WellFormed) (hgo : n.canGoOn c = true) :
    ∃ n' : Numeral, n'.WellFormed ∧ n'.text = n.text ++ [c] ∧
      (n.isComplete = true → isMark c = false → n'.isComplete = true) := by
  rcases he : n.exponent with _ | e
  · simp only [canGoOn, he, Bool.or_eq_true, Bool.and_eq_true, Option.isNone_iff_eq_none,
      beq_iff_eq] at hgo
    rcases hgo with (hdigit | hmark) | ⟨hf, rfl⟩
    · obtain ⟨n', hn', htext, hcomplete⟩ := exists_append_digit hn he hdigit
      exact ⟨n', hn', htext, fun hc _ ↦ hcomplete hc⟩
    · refine ⟨{ n with exponent := some ⟨c, none, []⟩ }, ⟨hn.integer, hn.fraction, ?_⟩, ?_,
        fun _ hno ↦ absurd hmark (by rw [hno]; decide)⟩
      · rintro _ ⟨rfl⟩
        exact ⟨hmark, fun d hd ↦ (nomatch hd), fun d hd ↦ (nomatch hd)⟩
      · simp [text, he, exponentText, Exponent.text]
    · refine ⟨{ n with fraction := some [] }, ⟨hn.integer, ?_, hn.exponent⟩, ?_, fun hc _ ↦ ?_⟩
      · rintro _ ⟨rfl⟩ d hd
        cases hd
      · simp [text, he, hf, exponentText, fractionText]
      · simp_all [isComplete]
  · obtain ⟨n', hn', htext, hcomplete⟩ := exists_append_exponent hn he hgo
    exact ⟨n', hn', htext, fun hc _ ↦ hcomplete hc⟩

/-- **What is scanned is the longest text of its shape.**  The induction is on the text behind a
shorter one, which is continued character by character. -/
theorem length_text_le_scan (hn : n.WellFormed) (rest : List Char) :
    n.text.length ≤ (scan (n.text ++ rest)).1.text.length := by
  induction rest generalizing n with
  | nil =>
    have hscan : scan (n.text ++ []) = (n, []) := scan_text_append hn fun c hc ↦ by cases hc
    exact Nat.le_of_eq (by rw [hscan])
  | cons c rest ih =>
    cases hgo : n.canGoOn c with
    | false =>
      have hscan : scan (n.text ++ c :: rest) = (n, c :: rest) :=
        scan_text_append hn fun d hd ↦ by cases hd; exact hgo
      exact Nat.le_of_eq (by rw [hscan])
    | true =>
      obtain ⟨n', hn', htext, -⟩ := exists_text_append hn hgo
      have hle := ih hn'
      rw [htext, List.append_assoc, List.length_append] at hle
      exact Nat.le_trans (Nat.le_add_right _ _) hle

/-- Only one numeral has this text. -/
theorem eq_of_text_eq {m : Numeral} (hn : n.WellFormed) (hm : m.WellFormed) (h : n.text = m.text) :
    n = m := by
  have hscan : ∀ {k : Numeral}, k.WellFormed → scan k.text = (k, []) := fun {k} hk ↦ by
    rw [← List.append_nil k.text]
    exact scan_text_append hk fun c hc ↦ by cases hc
  exact congrArg Prod.fst ((hscan hn).symm.trans ((congrArg scan h).trans (hscan hm)))

end

end Numeral

end Calculator

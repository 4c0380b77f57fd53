import Calculator.Proofs.Evaluation.Accepted
import Calculator.Proofs.Expr.Seams

/-!
# What no arithmetic text can hold

Some texts cannot be part of an arithmetic text that has a value, whatever stands around them.  A
character that is in no token is the simplest of them.  Another one is a point behind a fraction or
an exponent, with digits in between: the numeral that the fraction or the exponent belongs to goes
on to the point and ends there, and the point begins a second numeral next to it
(`NumeralTail.evaluateArithmetic_ne`).  No operand stands directly in front of an opening
parenthesis or directly behind a closing one (`not_spells_openParen`, `not_spells_closeParen`).

The argument of a call ends at the first closing parenthesis and so has none itself.  In such a
text there cannot be an opening parenthesis either, for it would not be closed.  `Unreadable` texts
are those that no argument of a call can hold.
-/

set_option autoImplicit false

namespace Calculator

/-! ## The parts of a numeral -/

namespace Numeral

theorem point_notMem_digits {ds : List Char} (h : ∀ c ∈ ds, c.isDigit = true) : '.' ∉ ds :=
  fun hmem ↦ absurd (h '.' hmem) (by decide)

/-- Two runs of digits that are not continued are equal if the texts are. -/
theorem digits_append_inj {ds es u v : List Char} (hds : ∀ c ∈ ds, c.isDigit = true)
    (hes : ∀ c ∈ es, c.isDigit = true) (hu : ∀ c ∈ u.head?, c.isDigit = false)
    (hv : ∀ c ∈ v.head?, c.isDigit = false) (h : ds ++ u = es ++ v) : ds = es ∧ u = v := by
  have htake := congrArg (List.takeWhile Char.isDigit) h
  have hdrop := congrArg (List.dropWhile Char.isDigit) h
  rw [takeWhile_digits hds hu, takeWhile_digits hes hv] at htake
  rw [dropWhile_digits hds hu, dropWhile_digits hes hv] at hdrop
  exact ⟨htake, hdrop⟩

variable {n : Numeral} {a z : List Char}

/-- A point in a numeral is the one in front of its fraction. -/
theorem eq_of_text_eq_point (hn : n.WellFormed) (h : n.text = a ++ '.' :: z) :
    ∃ ds, n.fraction = some ds ∧ z = ds ++ exponentText n.exponent := by
  have hexponent : '.' ∉ exponentText n.exponent := by
    rcases he : n.exponent with _ | e
    · exact List.not_mem_nil
    · have hwell := hn.exponent e he
      rw [exponentText, Exponent.text, List.mem_cons, List.mem_append]
      rintro (hmark | hsign | hdigits)
      · exact absurd hwell.mark (by rw [← hmark]; decide)
      · exact absurd (hwell.sign '.' (Option.mem_toList.mp hsign)) (by decide)
      · exact point_notMem_digits hwell.digits hdigits
  have hinteger := point_notMem_digits hn.integer
  rw [text] at h
  rcases hf : n.fraction with _ | ds
  · rw [hf, fractionText, List.append_nil] at h
    have hmem : '.' ∈ n.integer ++ exponentText n.exponent := by simp [h]
    exact absurd hmem (by simp [hinteger, hexponent])
  · have hfraction := point_notMem_digits (hn.fraction ds hf)
    rw [hf, fractionText, List.append_assoc, List.cons_append] at h
    obtain ⟨-, -, hz⟩ :=
      (List.append_cons_inj_of_notMem hinteger (by simp [hfraction, hexponent])).mp h
    exact ⟨ds, rfl, hz.symm⟩

/-- A mark in a numeral is that of its exponent. -/
theorem eq_of_text_eq_mark {m : Char} (hn : n.WellFormed) (hm : isMark m = true)
    (h : n.text = a ++ m :: z) : ∃ e, n.exponent = some e ∧ z = e.sign.toList ++ e.digits := by
  have hdigits : ∀ {ds : List Char}, (∀ c ∈ ds, c.isDigit = true) → m ∉ ds := by
    intro ds hds hmem
    have hdigit := hds m hmem
    rw [isDigit_of_isMark hm] at hdigit
    cases hdigit
  have hfront : m ∉ n.integer ++ fractionText n.fraction := by
    rw [List.mem_append]
    rintro (hmem | hmem)
    · exact hdigits hn.integer hmem
    · rcases hf : n.fraction with _ | ds
      · rw [hf] at hmem
        cases hmem
      · rw [hf, fractionText, List.mem_cons] at hmem
        rcases hmem with rfl | hmem
        · cases hm
        · exact hdigits (hn.fraction ds hf) hmem
  rw [text] at h
  rcases he : n.exponent with _ | e
  · rw [he, exponentText, List.append_nil] at h
    exact absurd (by simp [h]) hfront
  · have hwell := hn.exponent e he
    have hback : m ∉ e.sign.toList ++ e.digits := by
      rw [List.mem_append]
      rintro (hmem | hmem)
      · rcases hwell.sign m (Option.mem_toList.mp hmem) with rfl | rfl <;> cases hm
      · exact hdigits hwell.digits hmem
    rw [he, exponentText, Exponent.text] at h
    obtain ⟨-, -, hz⟩ := (List.append_cons_inj_of_notMem hfront hback).mp h
    exact ⟨e, rfl, hz.symm⟩

end Numeral

/-! ## Numerals that take no further point -/

/-- The end of a numeral from its point or from the mark of its exponent on. -/
inductive NumeralTail : List Char → Prop where
  | fraction {ds : List Char} (hds : ∀ c ∈ ds, c.isDigit = true) : NumeralTail ('.' :: ds)
  | exponent {e : Exponent} (he : e.WellFormed) (hne : e.digits ≠ []) : NumeralTail e.text

namespace NumeralTail

variable {u : List Char}

/-- More digits can follow. -/
theorem append_digits (h : NumeralTail u) {ds : List Char} (hds : ∀ c ∈ ds, c.isDigit = true) :
    NumeralTail (u ++ ds) := by
  cases h with
  | fraction hfs => exact .fraction (List.forall_mem_append.mpr ⟨hfs, hds⟩)
  | @exponent e he hne =>
    have htext : e.text ++ ds = (⟨e.mark, e.sign, e.digits ++ ds⟩ : Exponent).text := by
      simp [Exponent.text]
    rw [htext]
    exact .exponent ⟨he.mark, he.sign, List.forall_mem_append.mpr ⟨he.digits, hds⟩⟩ (by simp [hne])

/-- The numeral that a tail belongs to ends in front of the next point. -/
theorem rest_eq {n : Numeral} {a z q rest : List Char} (h : NumeralTail u) (hn : n.WellFormed)
    (hrest : ∀ c ∈ rest.head?, n.canGoOn c = false) (htext : n.text = a ++ z) (hz : z ≠ [])
    (heq : z ++ rest = u ++ '.' :: q) : rest = '.' :: q := by
  have hpoint : ∀ c ∈ ('.' :: q).head?, c.isDigit = false := fun c hc ↦ by cases hc; rfl
  obtain ⟨d, z, rfl⟩ := List.exists_cons_of_ne_nil hz
  cases h with
  | @fraction ds hds =>
    obtain ⟨rfl, hafter⟩ := List.cons.inj heq
    obtain ⟨fs, hfraction, rfl⟩ := Numeral.eq_of_text_eq_point hn htext
    have hdigits : fs ++ (Numeral.exponentText n.exponent ++ rest) = ds ++ '.' :: q := by
      rw [← List.append_assoc]
      exact hafter
    obtain ⟨-, hbehind⟩ := Numeral.digits_append_inj (hn.fraction fs hfraction) hds
      (fun c hc ↦ (Numeral.head_exponentText_append hn hrest c hc).1) hpoint hdigits
    rcases he : n.exponent with _ | e
    · rwa [he] at hbehind
    · rw [he] at hbehind
      obtain ⟨hmark, -⟩ := List.cons.inj hbehind
      exact absurd (hn.exponent e he).mark (by rw [hmark]; decide)
  | @exponent e he hne =>
    obtain ⟨rfl, hafter⟩ := List.cons.inj heq
    obtain ⟨f, hexponent, rfl⟩ := Numeral.eq_of_text_eq_mark hn he.mark htext
    have hsigned : f.sign.toList ++ (f.digits ++ rest)
        = e.sign.toList ++ (e.digits ++ '.' :: q) := by
      rw [← List.append_assoc, ← List.append_assoc]
      exact hafter
    have hscan := congrArg Numeral.scanSign hsigned
    have hstop : ∀ c ∈ ('.' :: q).head?, (⟨[], none, some e⟩ : Numeral).canGoOn c = false := by
      rintro c hc
      cases hc
      simp [Numeral.canGoOn, Numeral.isDigit_point]
    rw [Numeral.scanSign_append_digits hexponent (hn.exponent f hexponent) hrest,
      Numeral.scanSign_append_digits (n := ⟨[], none, some e⟩) rfl he hstop] at hscan
    exact (Numeral.digits_append_inj (hn.exponent f hexponent).digits he.digits
      (fun c hc ↦ Numeral.isDigit_of_not_canGoOn (hrest c hc)) hpoint (Prod.mk.inj hscan).2).2

/-- A tail begins with the point or the mark, and what follows is of numerals, too. -/
theorem eq_cons (h : NumeralTail u) : ∃ c cs, u = c :: cs ∧ (c = '.' ∨ c = 'e' ∨ c = 'E') ∧
    ∀ d ∈ cs, Token.isTokenChar d = true := by
  have hdigits : ∀ {ds : List Char}, (∀ c ∈ ds, c.isDigit = true) →
      ∀ c ∈ ds, Token.isTokenChar c = true := by
    intro ds hds c hc
    rw [Token.isTokenChar, Numeral.starts_of_isDigit (hds c hc), Bool.or_true, Bool.true_or,
      Bool.true_or]
  cases h with
  | @fraction ds hds => exact ⟨'.', ds, rfl, Or.inl rfl, hdigits hds⟩
  | @exponent e he _ =>
    refine ⟨e.mark, e.sign.toList ++ e.digits, rfl, Or.inr ?_,
      List.forall_mem_append.mpr ⟨fun c hc ↦ ?_, hdigits he.digits⟩⟩
    · simpa [Numeral.isMark] using he.mark
    · rcases he.sign c (Option.mem_toList.mp hc) with rfl | rfl <;> decide

/-- A numeral with a point or an exponent ends with a tail. -/
theorem exists_of_mem_text {n : Numeral} (hn : n.WellFormed) (hc : n.isComplete = true)
    (h : ∃ c ∈ n.text, c = '.' ∨ Numeral.isMark c = true) :
    ∃ a u, n.text = a ++ u ∧ NumeralTail u := by
  rcases he : n.exponent with _ | e
  · rcases hf : n.fraction with _ | ds
    · obtain ⟨c, hmem, hchar⟩ := h
      have htext : n.text = n.integer := by simp [Numeral.text, he, hf, Numeral.fractionText,
        Numeral.exponentText]
      have hdigit := hn.integer c (htext ▸ hmem)
      rcases hchar with rfl | hmark
      · exact absurd hdigit (by decide)
      · rw [Numeral.isDigit_of_isMark hmark] at hdigit
        cases hdigit
    · refine ⟨n.integer, '.' :: ds, ?_, .fraction (hn.fraction ds hf)⟩
      simp [Numeral.text, he, hf, Numeral.fractionText, Numeral.exponentText]
  · have hne : e.digits ≠ [] := by
      rw [Numeral.isComplete, he, Bool.and_eq_true] at hc
      simpa using hc.2
    refine ⟨n.integer ++ Numeral.fractionText n.fraction, e.text, ?_,
      .exponent (hn.exponent e he) hne⟩
    rw [Numeral.text, he, Numeral.exponentText]

/-- What begins with another character begins behind it. -/
theorem exists_append_of_cons_eq {c : Char} {cs a w : List Char} (h : a ++ w = c :: cs)
    (hc : c ∉ w.head?) : ∃ a', a' ++ w = cs := by
  rcases List.append_eq_cons_iff.mp h with ⟨rfl, rfl⟩ | ⟨a', rfl, rfl⟩
  · exact absurd rfl hc
  · exact ⟨a', rfl⟩

/-- A point behind a tail begins a second number next to the first one.  The induction goes through
the tokens in front of the tail, up to the numeral that it belongs to. -/
theorem not_isChain {a q : List Char} {ts : List Token} (hu : NumeralTail u)
    (h : Token.Spells (a ++ (u ++ '.' :: q)) ts) : ¬ ts.IsChain Token.CanPrecede := by
  obtain ⟨d, ds, htail, hd, -⟩ := hu.eq_cons
  obtain ⟨hblank, hstar, hchar⟩ :
      Text.isBlank d = false ∧ d ≠ '*' ∧ Token.ofChar? d = none := by
    rcases hd with rfl | rfl | rfl <;> decide
  have hhead : ∀ c ∈ (u ++ '.' :: q).head?, c = d := by
    rw [htail]
    exact fun c hc ↦ (Option.some.inj hc).symm
  generalize hs : a ++ (u ++ '.' :: q) = s at h
  intro hchain
  induction h generalizing a with
  | nil => simp at hs
  | @blank c cs ts hc _ ih =>
    obtain ⟨a', hs⟩ := exists_append_of_cons_eq hs fun hmem ↦ by
      rw [hhead c hmem, hblank] at hc
      cases hc
    exact ih hs hchain
  | @numeral n rest ts hn hc hrest hspells ih =>
    have htail := hchain.suffix (List.suffix_cons _ _)
    rcases List.append_eq_append_iff.mp hs with ⟨z, htext, hz⟩ | ⟨a', rfl, rfl⟩
    · by_cases hne : z = []
      · rw [hne, List.nil_append] at hz
        exact ih (a := []) hz htail
      · obtain rfl := hu.rest_eq hn hrest htext hne hz.symm
        obtain ⟨t, ht, hnumber⟩ := (Token.head_of_spells hspells '.' rfl).2.1 (by decide)
        obtain ⟨us, rfl⟩ : ∃ us, ts = t :: us := ⟨ts.tail, (List.cons_head?_tail ht).symm⟩
        exact (List.isChain_cons_cons.mp hchain).1.1 ⟨rfl, hnumber⟩
    · exact ih rfl htail
  | @power rest ts _ ih =>
    obtain ⟨a', hs⟩ := exists_append_of_cons_eq hs fun hmem ↦ hstar (hhead _ hmem).symm
    obtain ⟨a', hs⟩ := exists_append_of_cons_eq hs fun hmem ↦ hstar (hhead _ hmem).symm
    exact ih hs (hchain.suffix (List.suffix_cons _ _))
  | @times rest ts _ _ ih =>
    obtain ⟨a', hs⟩ := exists_append_of_cons_eq hs fun hmem ↦ hstar (hhead _ hmem).symm
    exact ih hs (hchain.suffix (List.suffix_cons _ _))
  | @ofChar c t rest ts ht _ ih =>
    obtain ⟨a', hs⟩ := exists_append_of_cons_eq hs fun hmem ↦ by
      rw [hhead c hmem, hchar] at ht
      cases ht
    exact ih hs (hchain.suffix (List.suffix_cons _ _))

/-- **A point behind a tail** is in no arithmetic text that has a value. -/
theorem evaluateArithmetic_ne (hu : NumeralTail u) (a q : List Char) (x : Float) :
    evaluateArithmetic (a ++ (u ++ '.' :: q)) ≠ .ok x := by
  intro h
  obtain ⟨e, he, hs, -⟩ := evaluateArithmetic_eq_ok_iff.mp h
  exact hu.not_isChain hs (Expr.isChain_tokens he)

end NumeralTail

/-! ## Operands next to parentheses -/

/-- A character with which an operand can end, or the text of a factorial. -/
def EndsOperand (c : Char) : Prop := Numeral.endsAt c = true ∨ c = ')' ∨ c = '!'

theorem isBlank_of_endsOperand {c : Char} (h : EndsOperand c) : Text.isBlank c = false := by
  rcases h with hends | rfl | rfl
  · exact Token.isBlank_of_starts hends
  · decide
  · decide

section

variable {a b : List Char} {e : Expr}

/-- No operand stands in front of an opening parenthesis. -/
theorem not_spells_openParen (he : e.WellFormed) (ha : ∃ c ∈ a.getLast?, EndsOperand c) :
    ¬ Token.Spells (a ++ '(' :: b) e.tokens := by
  intro h
  obtain ⟨c, hc, hends⟩ := ha
  obtain ⟨us, vs, hus, -, htokens⟩ := h.split_paren (Or.inl rfl) rfl
  obtain ⟨t, ht, hchar⟩ := Token.endsIn_of_spells hus c hc (isBlank_of_endsOperand hends)
  have hoperand : t.endsOperand = true := by
    rcases hends with hends | rfl | rfl
    · obtain ⟨u, hu, hnumber⟩ := (Token.endsWith_of_spells hus c hc).1 hends
      obtain rfl : u = t := Option.some.inj (hu.symm.trans ht)
      cases u with
      | number x => rfl
      | _ => cases hnumber
    · rcases hchar with ⟨-, hends⟩ | ⟨-, hstar⟩ | hchar
      · exact absurd hends (by decide)
      · exact absurd hstar (by decide)
      · cases hchar
        rfl
    · have hbang := Token.isTokenChar_of_spells hus '!' (List.mem_of_getLast? hc)
      exact absurd hbang (by decide)
  have hchain := Expr.isChain_separate he
  rw [htokens] at hchain
  exact (List.isChain_append.mp hchain).2.2 t ht .openParen rfl ⟨hoperand, rfl⟩

/-- No number stands behind a closing parenthesis. -/
theorem not_spells_closeParen (he : e.WellFormed)
    (hb : ∃ c ∈ b.head?, Numeral.starts c = true) :
    ¬ Token.Spells (a ++ ')' :: b) e.tokens := by
  intro h
  obtain ⟨c, hc, hstarts⟩ := hb
  obtain ⟨us, vs, -, hvs, htokens⟩ := h.split_paren (Or.inr rfl) rfl
  obtain ⟨t, ht, hnumber⟩ := (Token.head_of_spells hvs c hc).2.1 hstarts
  have hoperand : t.startsOperand = true := by
    cases t with
    | number x => rfl
    | _ => cases hnumber
  obtain ⟨vs, rfl⟩ : ∃ ws, vs = t :: ws := ⟨vs.tail, (List.cons_head?_tail ht).symm⟩
  have hchain := (Expr.isChain_separate he).suffix (htokens ▸ List.suffix_append us _)
  exact (List.isChain_cons_cons.mp hchain).1 ⟨rfl, hoperand⟩

end

/-! ## What no argument holds -/

/-- No argument of a call has a value if it holds this text. -/
def Unreadable (k : List Char) : Prop :=
  ∀ u v x, ')' ∉ u ++ (k ++ v) → evaluateArithmetic (u ++ (k ++ v)) ≠ .ok x

theorem NumeralTail.unreadable {u : List Char} (hu : NumeralTail u) (a q : List Char) :
    Unreadable (a ++ (u ++ '.' :: q)) := by
  intro b c x _ h
  refine hu.evaluateArithmetic_ne (b ++ a) (q ++ c) x ?_
  rw [← h]
  simp

/-- A character that is in no token. -/
theorem unreadable_of_mem {k : List Char} {c : Char} (hc : c ∈ k)
    (hchar : Token.isTokenChar c = false) : Unreadable k := by
  intro u v x _ h
  obtain ⟨e, -, hs, -⟩ := evaluateArithmetic_eq_ok_iff.mp h
  have htoken := Token.isTokenChar_of_spells hs c (by simp [hc])
  rw [hchar] at htoken
  cases htoken

/-- A closing parenthesis is spelled by itself. -/
theorem Token.Spells.closeParen_mem {s : List Char} {ts : List Token} (h : Spells s ts)
    (hmem : .closeParen ∈ ts) : ')' ∈ s := by
  induction h with
  | nil => cases hmem
  | blank _ _ ih => exact List.mem_cons_of_mem _ (ih hmem)
  | numeral _ _ _ _ ih =>
    exact List.mem_append_right _ (ih ((List.mem_cons.mp hmem).resolve_left Token.noConfusion))
  | power _ ih =>
    have htail := ih ((List.mem_cons.mp hmem).resolve_left Token.noConfusion)
    exact List.mem_cons_of_mem _ (List.mem_cons_of_mem _ htail)
  | times _ _ ih =>
    exact List.mem_cons_of_mem _ (ih ((List.mem_cons.mp hmem).resolve_left Token.noConfusion))
  | @ofChar c t rest ts ht _ ih =>
    rcases List.mem_cons.mp hmem with rfl | hmem
    · unfold ofChar? at ht
      split at ht <;> cases ht
      exact List.mem_cons_self
    · exact List.mem_cons_of_mem _ (ih hmem)

/-- What an expression opens it closes. -/
theorem Expr.closeParen_mem {e : Expr} (h : .openParen ∈ e.tokens) : .closeParen ∈ e.tokens := by
  induction e with
  | number x => simp [tokens] at h
  | paren e _ => simp [tokens]
  | signed s e ih =>
    cases s <;> simp_all [tokens, Sign.token]
  | binary op l r ihl ihr =>
    cases op <;> simp only [tokens, Operator.token, List.mem_append, List.mem_cons] at h ⊢ <;>
      tauto

/-- An opening parenthesis. -/
theorem unreadable_openParen {k : List Char} (hk : '(' ∈ k) : Unreadable k := by
  intro u v x hclose h
  obtain ⟨e, -, hs, -⟩ := evaluateArithmetic_eq_ok_iff.mp h
  obtain ⟨k₁, k₂, rfl⟩ := List.append_of_mem hk
  have hsplit : u ++ ((k₁ ++ '(' :: k₂) ++ v) = (u ++ k₁) ++ '(' :: (k₂ ++ v) := by simp
  rw [hsplit] at hs
  obtain ⟨us, vs, -, -, htokens⟩ := hs.split_paren (Or.inl rfl) rfl
  have hopen : .openParen ∈ e.tokens := by rw [htokens]; simp
  exact hclose (hsplit ▸ hs.closeParen_mem (Expr.closeParen_mem hopen))

end Calculator

import Calculator.Expr.Lexer
import Calculator.Proofs.Decimal.Scanning

/-!
# Cutting a text into tokens, piece by piece

The lexer goes through a text from left to right and takes every token as long as it can.  `Spells`
is the relation that this comes to, without the going: a text spells a list of tokens if it is
their spellings in order, with blanks anywhere between them, and none of the spellings could be
longer.  `lex_eq_ok_iff` says that the lexer decides it.

`lex_append` is about a text `a ++ b` in which `a` spells tokens: lexing goes on with `b`, provided
that the end of `a` and the start of `b` do not touch.  They touch (`Touch`) in two ways only: a
numeral could be continued, or two stars would become one token.  `isTokenChar_of_spells` is the one
thing needed about the characters of a text of tokens: all of them can occur in one, and in
particular no letter but the mark of an exponent.
-/

set_option autoImplicit false

namespace Calculator

/-! ## Numerals that are tokens -/

namespace Numeral

theorem starts_of_isDigit {c : Char} (h : c.isDigit = true) : starts c = true := by
  rw [starts, h, Bool.true_or]

/-- A complete numeral begins with a digit or a point. -/
theorem head_text {n : Numeral} (hn : n.WellFormed) (hc : n.isComplete = true) :
    ∃ c cs, n.text = c :: cs ∧ starts c = true := by
  rcases hi : n.integer with _ | ⟨d, ds⟩
  · rcases hf : n.fraction with _ | fs
    · rw [isComplete, hi, hf] at hc
      cases hc
    · exact ⟨'.', fs ++ exponentText n.exponent, by rw [text, hi, hf]; rfl, by decide⟩
  · refine ⟨d, ds ++ fractionText n.fraction ++ exponentText n.exponent, by rw [text, hi]; rfl, ?_⟩
    exact starts_of_isDigit (hn.integer d (by rw [hi]; exact List.mem_cons_self))

/-- A character at which a numeral can end. -/
def endsAt (c : Char) : Bool := c.isDigit || c == '.'

theorem endsAt_of_digits {ds : List Char} (h : ∀ c ∈ ds, c.isDigit = true) :
    ∀ c ∈ ds.getLast?, endsAt c = true := by
  intro c hc
  rw [endsAt, h c (List.mem_of_getLast? hc), Bool.true_or]

theorem endsAt_append {a b : List Char} (ha : ∀ c ∈ a.getLast?, endsAt c = true)
    (hb : ∀ c ∈ b.getLast?, endsAt c = true) : ∀ c ∈ (a ++ b).getLast?, endsAt c = true := by
  intro c hc
  rw [List.getLast?_append] at hc
  cases hl : b.getLast? with
  | none =>
    rw [hl] at hc
    exact ha c hc
  | some d =>
    rw [hl] at hc
    exact hb c (hl.trans hc)

/-- A complete numeral ends with a digit or a point. -/
theorem endsAt_text {n : Numeral} (hn : n.WellFormed) (hc : n.isComplete = true) :
    ∀ c ∈ n.text.getLast?, endsAt c = true := by
  have hfraction : ∀ c ∈ (fractionText n.fraction).getLast?, endsAt c = true := by
    rcases hf : n.fraction with _ | fs
    · intro c h; cases h
    · have hpoint : ∀ c ∈ ['.'].getLast?, endsAt c = true := fun c hc ↦ by cases hc; decide
      exact endsAt_append hpoint (endsAt_of_digits (hn.fraction fs hf))
  rcases he : n.exponent with _ | e
  · rw [text, he, exponentText, List.append_nil]
    exact endsAt_append (endsAt_of_digits hn.integer) hfraction
  · have hne : e.digits ≠ [] := by
      intro hnil
      rw [isComplete, he, Bool.and_eq_true] at hc
      simp [hnil] at hc
    have htext : n.text = (n.integer ++ fractionText n.fraction ++ e.mark :: e.sign.toList)
        ++ e.digits := by
      rw [text, he, exponentText, Exponent.text]
      simp
    rw [htext, List.getLast?_append, List.getLast?_eq_some_getLast hne]
    intro c h
    cases h
    exact endsAt_of_digits (hn.exponent e he).digits _ (List.getLast?_eq_some_getLast hne)

/-- The characters of a numeral. -/
theorem mem_text {n : Numeral} (hn : n.WellFormed) :
    ∀ c ∈ n.text, starts c = true ∨ isMark c = true ∨ c = '+' ∨ c = '-' := by
  intro c hc
  rw [text, List.mem_append, List.mem_append] at hc
  rcases hc with (hc | hc) | hc
  · exact Or.inl (starts_of_isDigit (hn.integer c hc))
  · rcases hf : n.fraction with _ | ds
    · rw [hf] at hc
      cases hc
    · rw [hf, fractionText, List.mem_cons] at hc
      rcases hc with rfl | hc
      · exact Or.inl (by decide)
      · exact Or.inl (starts_of_isDigit (hn.fraction ds hf c hc))
  · rcases he : n.exponent with _ | e
    · rw [he] at hc
      cases hc
    · have hwell := hn.exponent e he
      rw [he, exponentText, Exponent.text, List.mem_cons, List.mem_append] at hc
      rcases hc with rfl | hc | hc
      · exact Or.inr (Or.inl hwell.mark)
      · exact Or.inr (Or.inr (hwell.sign c (Option.mem_toList.mp hc)))
      · exact Or.inl (starts_of_isDigit (hwell.digits c hc))

/-- What a complete numeral can go on with. -/
theorem goesOn_of_canGoOn {n : Numeral} {c : Char} (hc : n.isComplete = true)
    (h : n.canGoOn c = true) : c.isDigit = true ∨ c = '.' ∨ isMark c = true := by
  unfold canGoOn at h
  split at h
  · rename_i e he
    rw [isComplete, he, Bool.and_eq_true] at hc
    have hne : e.digits.isEmpty = false := by simpa using hc.2
    rw [hne] at h
    simp only [Bool.false_and, Bool.or_false] at h
    exact Or.inl h
  · simp only [Bool.or_eq_true, Bool.and_eq_true, beq_iff_eq] at h
    rcases h with (h | h) | h
    · exact Or.inl h
    · exact Or.inr (Or.inr h)
    · exact Or.inr (Or.inl h.2)

end Numeral

/-! ## One token at the front -/

namespace Token

theorem isBlank_of_starts {c : Char} (h : Numeral.starts c = true) : Text.isBlank c = false := by
  rw [Numeral.starts, Bool.or_eq_true, Char.isDigit_iff_toNat, beq_iff_eq] at h
  rcases h with h | rfl
  · simp only [Char.reduceToNat] at h
    simp only [Text.isBlank, Bool.or_eq_false_iff, Bool.and_eq_false_iff, decide_eq_false_iff_not,
      beq_eq_false_iff_ne]
    omega
  · decide

theorem isBlank_of_isMark {c : Char} (h : Numeral.isMark c = true) : Text.isBlank c = false := by
  rw [Numeral.isMark, Bool.or_eq_true, beq_iff_eq, beq_iff_eq] at h
  rcases h with rfl | rfl <;> decide

theorem isMark_of_starts {c : Char} (h : Numeral.starts c = true) : Numeral.isMark c = false := by
  rw [Bool.eq_false_iff]
  intro hmark
  rw [Numeral.starts, Numeral.isDigit_of_isMark hmark, Bool.false_or, beq_iff_eq] at h
  rw [h] at hmark
  cases hmark

theorem lex_nil (offset : Nat) : lex offset [] = .ok [] := by
  unfold lex
  rfl

theorem lex_blank {offset : Nat} {c : Char} (h : Text.isBlank c = true) (cs : List Char) :
    lex offset (c :: cs) = lex (offset + c.utf8Size) cs := by
  conv => lhs; unfold lex
  simp only [h, if_true]

/-- A complete numeral is a token, if it cannot go on with what follows. -/
theorem lex_numeral {offset : Nat} {n : Numeral} {rest : List Char} (hn : n.WellFormed)
    (hc : n.isComplete = true) (hrest : ∀ c ∈ rest.head?, n.canGoOn c = false) :
    lex offset (n.text ++ rest)
      = (lex (offset + byteLength n.text) rest).map (.number n.value :: ·) := by
  have hscan := Numeral.scan_text_append hn hrest
  obtain ⟨c, cs, htext, hstarts⟩ := Numeral.head_text hn hc
  have hblank : ¬ Text.isBlank c = true := by rw [isBlank_of_starts hstarts]; decide
  rw [htext, List.cons_append] at hscan ⊢
  conv => lhs; unfold lex
  simp only [if_neg hblank, if_pos hstarts, hscan, hc, if_true, htext]

theorem lex_power (offset : Nat) (rest : List Char) :
    lex offset ('*' :: '*' :: rest) = (lex (offset + 2) rest).map (.power :: ·) := by
  conv => lhs; unfold lex
  rfl

theorem lex_times {offset : Nat} {rest : List Char} (h : '*' ∉ rest.head?) :
    lex offset ('*' :: rest) = (lex (offset + 1) rest).map (.times :: ·) := by
  conv => lhs; unfold lex
  rw [if_neg (by decide), if_neg (by decide), if_pos rfl]
  split
  · exact absurd rfl h
  · rfl

theorem lex_ofChar {offset : Nat} {c : Char} {t : Token} (h : ofChar? c = some t)
    (rest : List Char) : lex offset (c :: rest) = (lex (offset + 1) rest).map (t :: ·) := by
  conv => lhs; unfold lex
  unfold ofChar? at h
  split at h <;> cases h <;>
    · rw [if_neg (by decide), if_neg (by decide), if_neg (by decide)]
      rfl

theorem utf8Size_star : Char.utf8Size '*' = 1 := by decide

theorem utf8Size_of_ofChar {c : Char} {t : Token} (h : ofChar? c = some t) : c.utf8Size = 1 := by
  unfold ofChar? at h
  split at h <;> cases h <;> decide

/-! ## Texts of tokens -/

/-- The text consists of these tokens, each as long as it can be, and of blanks. -/
inductive Spells : List Char → List Token → Prop where
  | nil : Spells [] []
  | blank {c : Char} {cs : List Char} {ts : List Token} (hc : Text.isBlank c = true)
      (h : Spells cs ts) : Spells (c :: cs) ts
  | numeral {n : Numeral} {rest : List Char} {ts : List Token} (hn : n.WellFormed)
      (hc : n.isComplete = true) (hrest : ∀ c ∈ rest.head?, n.canGoOn c = false)
      (h : Spells rest ts) : Spells (n.text ++ rest) (.number n.value :: ts)
  | power {rest : List Char} {ts : List Token} (h : Spells rest ts) :
      Spells ('*' :: '*' :: rest) (.power :: ts)
  | times {rest : List Char} {ts : List Token} (hrest : '*' ∉ rest.head?) (h : Spells rest ts) :
      Spells ('*' :: rest) (.times :: ts)
  | ofChar {c : Char} {t : Token} {rest : List Char} {ts : List Token} (ht : ofChar? c = some t)
      (h : Spells rest ts) : Spells (c :: rest) (t :: ts)

/-- A text without tokens is blank. -/
theorem spells_nil_iff {s : List Char} :
    Spells s [] ↔ ∀ c ∈ s, Text.isBlank c = true := by
  constructor
  · intro h
    generalize hts : ([] : List Token) = ts at h
    induction h with
    | nil => exact List.forall_mem_nil _
    | blank hc _ ih => exact List.forall_mem_cons.mpr ⟨hc, ih hts⟩
    | numeral => cases hts
    | power => cases hts
    | times => cases hts
    | ofChar => cases hts
  · intro h
    induction s with
    | nil => exact .nil
    | cons c s ih =>
      obtain ⟨hc, hs⟩ := List.forall_mem_cons.mp h
      exact .blank hc (ih hs)

/-- A complete numeral by itself is one token. -/
theorem spells_numeral {n : Numeral} (hn : n.WellFormed) (hc : n.isComplete = true) :
    Spells n.text [.number n.value] := by
  have hnone : ∀ c ∈ ([] : List Char).head?, n.canGoOn c = false := fun c h ↦ by cases h
  rw [← List.append_nil n.text]
  exact .numeral hn hc hnone .nil

theorem map_cons_eq_ok {x : Except ArithmeticError (List Token)} {t : Token} {ts : List Token}
    (h : x.map (t :: ·) = .ok ts) : ∃ us, x = .ok us ∧ ts = t :: us := by
  cases x with
  | error e => cases h
  | ok us => exact ⟨us, rfl, (Except.ok.inj h).symm⟩

/-- What the lexer accepts consists of the tokens it finds. -/
theorem spells_of_lex {offset : Nat} {s : List Char} {ts : List Token}
    (h : lex offset s = .ok ts) : Spells s ts := by
  fun_induction lex offset s generalizing ts with
  | case1 => cases h; exact .nil
  | case2 offset c cs hblank ih => exact .blank hblank (ih h)
  | case3 offset c cs hblank hstarts scanned hc =>
    rename_i ih
    have hscan : Numeral.scan (c :: cs) = scanned := rfl
    clear_value scanned
    obtain ⟨n, rest⟩ := scanned
    obtain ⟨us, hus, rfl⟩ := map_cons_eq_ok h
    obtain ⟨heq, hn, hrest⟩ := Numeral.scan_eq_iff.mp hscan
    rw [heq]
    exact .numeral hn hc hrest (ih hus)
  | case4 => cases h
  | case5 offset rest _ _ ih =>
    obtain ⟨us, hus, rfl⟩ := map_cons_eq_ok h
    exact .power (ih hus)
  | case6 offset rest hstar _ _ ih =>
    obtain ⟨us, hus, rfl⟩ := map_cons_eq_ok h
    refine .times (fun hhead ↦ ?_) (ih hus)
    cases rest with
    | nil => cases hhead
    | cons d ds => cases hhead; exact hstar ds rfl
  | case7 offset c cs _ _ _ t ht ih =>
    obtain ⟨us, hus, rfl⟩ := map_cons_eq_ok h
    exact .ofChar ht (ih hus)
  | case8 => cases h

/-! ## A text in two parts -/

/-- These two characters, one after the other, may belong to one token. -/
def Touch (l r : Char) : Prop :=
  (Numeral.endsAt l = true ∧ (r.isDigit = true ∨ r = '.' ∨ Numeral.isMark r = true)) ∨
    (l = '*' ∧ r = '*')

/-- The end of the first text and the start of the second belong to different tokens. -/
def Apart (a b : List Char) : Prop := ∀ l ∈ a.getLast?, ∀ r ∈ b.head?, ¬ Touch l r

theorem apart_of_suffix {a b rest : List Char} (h : Apart a b) (hrest : rest <:+ a) :
    Apart rest b := by
  obtain ⟨before, rfl⟩ := hrest
  intro l hl
  apply h l
  rw [List.getLast?_append, hl]
  rfl

/-- A text does not touch one that starts with none of the characters that continue a token. -/
theorem apart_of_head {a b : List Char} (h : ∀ c ∈ b.head?,
    c.isDigit = false ∧ c ≠ '.' ∧ Numeral.isMark c = false ∧ c ≠ '*') : Apart a b := by
  rintro l - r hr (⟨-, hgo⟩ | ⟨-, hstar⟩)
  · obtain ⟨h1, h2, h3, -⟩ := h r hr
    rcases hgo with hgo | hgo | hgo
    · rw [h1] at hgo; cases hgo
    · exact h2 hgo
    · rw [h3] at hgo; cases hgo
  · exact (h r hr).2.2.2 hstar

/-- What cannot be continued within a text cannot be continued over its end either. -/
theorem canGoOn_append {n : Numeral} {rest b : List Char} (hn : n.WellFormed)
    (hc : n.isComplete = true) (hrest : ∀ c ∈ rest.head?, n.canGoOn c = false)
    (hb : Apart (n.text ++ rest) b) : ∀ c ∈ (rest ++ b).head?, n.canGoOn c = false := by
  cases rest with
  | cons d ds => exact hrest
  | nil =>
    intro c hcb
    rw [Bool.eq_false_iff]
    intro hgo
    obtain ⟨d, ds, htext, -⟩ := Numeral.head_text hn hc
    have hlast : n.text.getLast? = some (n.text.getLast (by rw [htext]; simp)) :=
      List.getLast?_eq_some_getLast _
    rw [List.append_nil] at hb
    exact hb _ hlast c hcb
      (Or.inl ⟨Numeral.endsAt_text hn hc _ hlast, Numeral.goesOn_of_canGoOn hc hgo⟩)

theorem map_map_cons (x : Except ArithmeticError (List Token)) (t : Token) (us : List Token) :
    (x.map (us ++ ·)).map (t :: ·) = x.map (t :: us ++ ·) := by
  cases x <;> rfl

/-- **A text of tokens, and what follows it.** -/
theorem lex_append {a b : List Char} {ts : List Token} (ha : Spells a ts) (hb : Apart a b)
    (offset : Nat) :
    lex offset (a ++ b) = (lex (offset + byteLength a) b).map (ts ++ ·) := by
  induction ha generalizing offset with
  | nil =>
    rw [List.nil_append, byteLength, Nat.add_zero]
    cases lex offset b <;> rfl
  | blank hblank _ ih =>
    rw [List.cons_append, lex_blank hblank, ih (apart_of_suffix hb (List.suffix_cons _ _)),
      byteLength, Nat.add_assoc]
  | numeral hn hc hrest _ ih =>
    rw [List.append_assoc, lex_numeral hn hc (canGoOn_append hn hc hrest hb),
      ih (apart_of_suffix hb (List.suffix_append _ _)), map_map_cons, byteLength_append,
      Nat.add_assoc]
  | @power rest us _ ih =>
    have hsuffix : rest <:+ '*' :: '*' :: rest := ⟨['*', '*'], rfl⟩
    rw [List.cons_append, List.cons_append, lex_power, ih (apart_of_suffix hb hsuffix),
      map_map_cons, byteLength, byteLength, utf8Size_star, ← Nat.add_assoc, ← Nat.add_assoc]
  | @times rest us hstar _ ih =>
    have hhead : '*' ∉ (rest ++ b).head? := by
      cases rest with
      | nil => exact fun h ↦ hb '*' rfl '*' h (Or.inr ⟨rfl, rfl⟩)
      | cons d ds => exact hstar
    rw [List.cons_append, lex_times hhead, ih (apart_of_suffix hb (List.suffix_cons _ _)),
      map_map_cons, byteLength, utf8Size_star, Nat.add_assoc]
  | ofChar ht _ ih =>
    rw [List.cons_append, lex_ofChar ht, ih (apart_of_suffix hb (List.suffix_cons _ _)),
      map_map_cons, byteLength, utf8Size_of_ofChar ht, Nat.add_assoc]

/-- **The lexer finds the tokens of a text** exactly if it consists of tokens. -/
theorem lex_eq_ok_iff {offset : Nat} {s : List Char} {ts : List Token} :
    lex offset s = .ok ts ↔ Spells s ts := by
  refine ⟨spells_of_lex, fun h ↦ ?_⟩
  have happ := lex_append h (b := []) (fun l _ r hr ↦ by cases hr) offset
  rw [List.append_nil, lex_nil] at happ
  rw [happ]
  exact congrArg Except.ok (List.append_nil ts)

/-- Texts of tokens are put together where they do not touch. -/
theorem Spells.append {a b : List Char} {ts us : List Token} (ha : Spells a ts) (hb : Spells b us)
    (h : Apart a b) : Spells (a ++ b) (ts ++ us) := by
  have hlex : lex 0 (a ++ b) = .ok (ts ++ us) := by
    rw [lex_append ha h, lex_eq_ok_iff.mpr hb]
    rfl
  exact lex_eq_ok_iff.mp hlex

/-! ## Characters of tokens -/

/-- A character that can occur in a text of tokens. -/
def isTokenChar (c : Char) : Bool :=
  Text.isBlank c || Numeral.starts c || Numeral.isMark c ||
    ['+', '-', '*', '/', '(', ')'].contains c

theorem isTokenChar_of_ofChar {c : Char} {t : Token} (h : ofChar? c = some t) :
    isTokenChar c = true := by
  unfold ofChar? at h
  split at h <;> cases h <;> decide

theorem isTokenChar_of_mem_text {n : Numeral} (hn : n.WellFormed) :
    ∀ c ∈ n.text, isTokenChar c = true := by
  intro c hc
  rw [isTokenChar]
  rcases Numeral.mem_text hn c hc with h | h | rfl | rfl
  · rw [h, Bool.or_true, Bool.true_or, Bool.true_or]
  · rw [h, Bool.or_true, Bool.true_or]
  · decide
  · decide

/-- A numeral has no blanks. -/
theorem isBlank_of_mem_text {n : Numeral} (hn : n.WellFormed) :
    ∀ c ∈ n.text, Text.isBlank c = false := by
  intro c hc
  rcases Numeral.mem_text hn c hc with h | h | rfl | rfl
  · exact isBlank_of_starts h
  · exact isBlank_of_isMark h
  · decide
  · decide

/-- A text of tokens has no other characters. -/
theorem isTokenChar_of_spells {s : List Char} {ts : List Token} (h : Spells s ts) :
    ∀ c ∈ s, isTokenChar c = true := by
  induction h with
  | nil => intro c hc; cases hc
  | blank hblank _ ih =>
    refine List.forall_mem_cons.mpr ⟨?_, ih⟩
    rw [isTokenChar, hblank, Bool.true_or, Bool.true_or, Bool.true_or]
  | numeral hn _ _ _ ih =>
    exact List.forall_mem_append.mpr ⟨isTokenChar_of_mem_text hn, ih⟩
  | power _ ih =>
    exact List.forall_mem_cons.mpr ⟨by decide, List.forall_mem_cons.mpr ⟨by decide, ih⟩⟩
  | times _ _ ih => exact List.forall_mem_cons.mpr ⟨by decide, ih⟩
  | ofChar ht _ ih => exact List.forall_mem_cons.mpr ⟨isTokenChar_of_ofChar ht, ih⟩

/-- The lexer stops at a character that is in no token. -/
theorem lex_unexpectedChar {c : Char} (hc : isTokenChar c = false) (offset : Nat)
    (cs : List Char) : lex offset (c :: cs) = .error (.unexpectedChar c offset) := by
  have hchar : ofChar? c = none := by
    rcases h : ofChar? c with _ | t
    · rfl
    · rw [isTokenChar_of_ofChar h] at hc
      cases hc
  have hstar : c ≠ '*' := by
    rintro rfl
    exact absurd hc (by decide)
  rw [isTokenChar, Bool.or_eq_false_iff, Bool.or_eq_false_iff, Bool.or_eq_false_iff] at hc
  obtain ⟨⟨⟨hblank, hstarts⟩, -⟩, -⟩ := hc
  unfold lex
  rw [if_neg (by rw [hblank]; decide), if_neg (by rw [hstarts]; decide), if_neg hstar, hchar]

/-- A character that is in no token touches nothing. -/
theorem apart_of_not_isTokenChar {c : Char} (hc : isTokenChar c = false) (a b : List Char) :
    Apart a (c :: b) := by
  refine apart_of_head fun d hd ↦ ?_
  cases hd
  rw [isTokenChar, Bool.or_eq_false_iff, Bool.or_eq_false_iff, Bool.or_eq_false_iff,
    Numeral.starts, Bool.or_eq_false_iff] at hc
  obtain ⟨⟨⟨-, hdigit, hpoint⟩, hmark⟩, hothers⟩ := hc
  refine ⟨hdigit, beq_eq_false_iff_ne.mp hpoint, hmark, ?_⟩
  rintro rfl
  exact absurd hothers (by decide)

/-- A closing parenthesis in a text is a token of it. -/
theorem closeParen_mem_of_spells {s : List Char} {ts : List Token} (h : Spells s ts)
    (hs : ')' ∈ s) : .closeParen ∈ ts := by
  induction h with
  | nil => cases hs
  | blank hblank _ ih =>
    rcases List.mem_cons.mp hs with rfl | hs
    · exact absurd hblank (by decide)
    · exact ih hs
  | numeral hn _ _ _ ih =>
    rcases List.mem_append.mp hs with hs | hs
    · have hc := Numeral.mem_text hn ')' hs
      exact absurd hc (by decide)
    · exact List.mem_cons_of_mem _ (ih hs)
  | power _ ih =>
    rw [List.mem_cons, List.mem_cons] at hs
    rcases hs with hs | hs | hs
    · cases hs
    · cases hs
    · exact List.mem_cons_of_mem _ (ih hs)
  | times _ _ ih =>
    rcases List.mem_cons.mp hs with hs | hs
    · cases hs
    · exact List.mem_cons_of_mem _ (ih hs)
  | ofChar ht _ ih =>
    rcases List.mem_cons.mp hs with rfl | hs
    · cases ht
      exact List.mem_cons_self
    · exact List.mem_cons_of_mem _ (ih hs)

end Token

end Calculator

import Calculator.Proofs.Expr.Neighbours

/-!
# Longest lexemes

A lexeme is the spelling of one token: a symbol or a complete numeral.  `Cuts rest before ts` says,
without any lexer, that the text `before`, in front of `rest`, consists of blanks and of the lexemes
of the tokens `ts`, and that each of them is the longest lexeme there is at its place.

The lexer does not look at all lexemes.  It takes a numeral for as long as the next character can be
part of one, complete or not, and never goes back (`Takes`).  What it takes is the longest lexeme
all the same (`Takes.blank_or_longest`), so every way of cutting a text goes through what it takes
(`Takes.cuts_tail`), and the texts that it accepts are those that can be cut (`cuts_iff_spells`).
For the other direction of this, a complete numeral stops being complete only with the mark of an
exponent, and with that nothing else begins.
-/

set_option autoImplicit false

namespace Calculator.Token

/-! ## Lexemes -/

/-- The text spells this one token: it is the symbol's spelling, or that of a complete numeral. -/
inductive IsLexeme : List Char → Token → Prop where
  | symbol {t : Token} (ht : t.isNumber = false) : IsLexeme t.spelling t
  | numeral {n : Numeral} (hn : n.WellFormed) (hc : n.isComplete = true) :
      IsLexeme n.text (.number n.value)

/-- No lexeme with which the text begins is longer than this one. -/
def IsLongest (s l : List Char) : Prop := ∀ l' t', IsLexeme l' t' → l' <+: s → l'.length ≤ l.length

/-- The text, in front of `rest`, consists of blanks and of the lexemes of these tokens, and each of
them is as long as it can be. -/
inductive Cuts (rest : List Char) : List Char → List Token → Prop where
  | nil : Cuts rest [] []
  | blank {c : Char} {before : List Char} {ts : List Token} (hc : Text.isBlank c = true)
      (h : Cuts rest before ts) : Cuts rest (c :: before) ts
  | lexeme {l before : List Char} {t : Token} {ts : List Token} (hl : IsLexeme l t)
      (hlong : IsLongest (l ++ (before ++ rest)) l) (h : Cuts rest before ts) :
      Cuts rest (l ++ before) (t :: ts)

section

variable {s l rest before : List Char} {t : Token} {ts : List Token} {c : Char}

theorem starts_symbol (ht : t.isNumber = false) :
    ∃ c cs, t.spelling = c :: cs ∧ Text.isBlank c = false ∧ Numeral.isMark c = false ∧
      Numeral.starts c = false := by
  cases t with
  | number x => cases ht
  | _ => exact ⟨_, _, rfl, by decide, by decide, by decide⟩

/-- The first character of a lexeme says whether it is a numeral. -/
theorem IsLexeme.eq_cons (h : IsLexeme l t) :
    ∃ c cs, l = c :: cs ∧ Text.isBlank c = false ∧ Numeral.isMark c = false ∧
      Numeral.starts c = t.isNumber := by
  cases h with
  | symbol ht =>
    obtain ⟨c, cs, hl, hblank, hmark, hstarts⟩ := starts_symbol ht
    exact ⟨c, cs, hl, hblank, hmark, hstarts.trans ht.symm⟩
  | numeral hn hc =>
    obtain ⟨c, cs, hl, hstarts⟩ := Numeral.head_text hn hc
    exact ⟨c, cs, hl, isBlank_of_starts hstarts, isMark_of_starts hstarts, hstarts⟩

/-- Of two lexemes at one place either both are numerals or none is. -/
theorem IsLexeme.isNumber_eq {l' : List Char} {t' : Token} (h : IsLexeme l t) (h' : IsLexeme l' t')
    (hbegins : l' <+: l ++ rest) : t'.isNumber = t.isNumber := by
  obtain ⟨c, cs, rfl, -, -, hc⟩ := h.eq_cons
  obtain ⟨d, ds, rfl, -, -, hd⟩ := h'.eq_cons
  obtain ⟨rfl, -⟩ := List.cons_prefix_cons.mp hbegins
  exact hd.symm.trans hc

/-- What a lexeme can begin with. -/
theorem IsLexeme.head (h : IsLexeme l t) : ∀ c ∈ l.head?,
    Numeral.starts c = true ∨ c = '*' ∨ (ofChar? c).isSome = true := by
  intro c hc
  cases h with
  | symbol ht =>
    cases t with
    | number x => cases ht
    | times => exact Or.inr (Or.inl (Option.some.inj hc).symm)
    | power => exact Or.inr (Or.inl (Option.some.inj hc).symm)
    | _ => cases hc; exact Or.inr (Or.inr rfl)
  | numeral hn hcomplete =>
    obtain ⟨d, ds, htext, hstarts⟩ := Numeral.head_text hn hcomplete
    rw [htext] at hc
    cases hc
    exact Or.inl hstarts

/-- The first character of what is cut is a blank or that of a lexeme. -/
theorem Cuts.isMark_head (h : Cuts rest before ts) :
    ∀ c ∈ before.head?, Numeral.isMark c = false := by
  intro c hc
  cases h with
  | nil => cases hc
  | blank hblank h =>
    cases hc
    rw [Bool.eq_false_iff]
    intro hmark
    rw [isBlank_of_isMark hmark] at hblank
    cases hblank
  | lexeme hl hlong h =>
    obtain ⟨d, ds, rfl, -, hmark, -⟩ := hl.eq_cons
    cases hc
    exact hmark

/-- In front of less, lexemes that are as long as they can be still are. -/
theorem Cuts.alone (h : Cuts rest before ts) : Cuts [] before ts := by
  induction h with
  | nil => exact .nil
  | blank hc _ ih => exact .blank hc ih
  | @lexeme l before t ts hl hlong _ ih =>
    refine .lexeme hl (fun l' t' hl' hbegins ↦ hlong l' t' hl' (hbegins.trans ⟨rest, ?_⟩)) ih
    rw [List.append_nil, List.append_assoc]

/-! ## Lexemes that are as long as they can be -/

/-- A symbol competes with symbols only. -/
theorem isLongest_symbol (ht : t.isNumber = false)
    (h : ∀ t' : Token, t'.isNumber = false → t'.spelling <+: t.spelling ++ rest →
      t'.spelling.length ≤ t.spelling.length) :
    IsLongest (t.spelling ++ rest) t.spelling := by
  intro l' t' hl' hbegins
  have hnumber := (IsLexeme.symbol ht).isNumber_eq hl' hbegins
  cases hl' with
  | symbol ht' => exact h t' ht' hbegins
  | numeral hn hc =>
    rw [ht] at hnumber
    cases hnumber

theorem length_spelling_le (ht : t.isNumber = false) : t.spelling.length ≤ 2 := by
  cases t with
  | number x => cases ht
  | _ => decide

/-- A symbol of one character is only continued to a power. -/
theorem isLongest_single (ht : t.isNumber = false) (hspelling : t.spelling = [c])
    (hpower : ¬ ['*', '*'] <+: c :: rest) : IsLongest (c :: rest) [c] := by
  have hlong : IsLongest (t.spelling ++ rest) t.spelling := by
    refine isLongest_symbol ht fun t' ht' hbegins ↦ ?_
    rw [hspelling] at hbegins ⊢
    cases t' with
    | number x => cases ht'
    | power => exact absurd hbegins hpower
    | _ => exact Nat.le_refl 1
  rw [hspelling] at hlong
  exact hlong

/-- A numeral that cannot go on is the longest. -/
theorem isLongest_numeral {n : Numeral} (hn : n.WellFormed) (hc : n.isComplete = true)
    (hrest : ∀ c ∈ rest.head?, n.canGoOn c = false) : IsLongest (n.text ++ rest) n.text := by
  intro l' t' hl' hbegins
  have hnumber := (IsLexeme.numeral hn hc).isNumber_eq hl' hbegins
  cases hl' with
  | symbol ht' =>
    rw [ht'] at hnumber
    cases hnumber
  | numeral hm _ =>
    obtain ⟨after, heq⟩ := hbegins
    have hle := Numeral.length_text_le_scan hm after
    rwa [heq, Numeral.scan_text_append hn hrest] at hle

/-! ## What the lexer takes -/

/-- The lexer takes this text off the front of `rest` at once: a blank, or a lexeme for as long as
the next character can be part of it. -/
inductive Takes (rest : List Char) : List Char → List Token → Prop where
  | blank {c : Char} (hc : Text.isBlank c = true) : Takes rest [c] []
  | numeral {n : Numeral} (hn : n.WellFormed) (hc : n.isComplete = true)
      (hrest : ∀ c ∈ rest.head?, n.canGoOn c = false) : Takes rest n.text [.number n.value]
  | power : Takes rest ['*', '*'] [.power]
  | times (hrest : '*' ∉ rest.head?) : Takes rest ['*'] [.times]
  | ofChar {c : Char} {t : Token} (ht : ofChar? c = some t) : Takes rest [c] [t]

theorem spelling_of_ofChar (h : ofChar? c = some t) :
    t.spelling = [c] ∧ t.isNumber = false ∧ c ≠ '*' := by
  unfold ofChar? at h
  split at h <;> cases h <;> exact ⟨rfl, rfl, by decide⟩

/-- **What the lexer takes** is a blank or the longest lexeme. -/
theorem Takes.blank_or_longest {us : List Token} (h : Takes rest l us) :
    (∃ c, l = [c] ∧ Text.isBlank c = true ∧ us = []) ∨
      ∃ t, us = [t] ∧ IsLexeme l t ∧ IsLongest (l ++ rest) l := by
  cases h with
  | blank hc => exact Or.inl ⟨_, rfl, hc, rfl⟩
  | numeral hn hc hrest =>
    exact Or.inr ⟨_, rfl, .numeral hn hc, isLongest_numeral hn hc hrest⟩
  | power =>
    have hl : IsLexeme (spelling .power) .power := .symbol rfl
    have hlong : IsLongest (spelling .power ++ rest) (spelling .power) :=
      isLongest_symbol rfl fun t' ht' _ ↦ length_spelling_le ht'
    exact Or.inr ⟨.power, rfl, hl, hlong⟩
  | times hrest =>
    have hl : IsLexeme (spelling .times) .times := .symbol rfl
    refine Or.inr ⟨.times, rfl, hl, isLongest_single (t := .times) rfl rfl ?_⟩
    rintro ⟨after, heq⟩
    cases heq
    exact hrest rfl
  | @ofChar c t ht =>
    obtain ⟨hspelling, hsymbol, hstar⟩ := spelling_of_ofChar ht
    refine Or.inr ⟨t, rfl, hspelling ▸ .symbol hsymbol, isLongest_single hsymbol hspelling ?_⟩
    rintro ⟨after, heq⟩
    cases heq
    exact hstar rfl

section

variable {us : List Token}

/-- What begins like a numeral is taken as a numeral. -/
theorem Takes.numeral_of_starts (h : Takes rest l us) (hc : c ∈ l.head?)
    (hstarts : Numeral.starts c = true) :
    ∃ n : Numeral, l = n.text ∧ n.WellFormed ∧ n.isComplete = true ∧
      ∀ d ∈ rest.head?, n.canGoOn d = false := by
  cases h with
  | blank hblank =>
    cases hc
    rw [isBlank_of_starts hstarts] at hblank
    cases hblank
  | numeral hn hcomplete hrest => exact ⟨_, rfl, hn, hcomplete, hrest⟩
  | power => cases hc; cases hstarts
  | times _ => cases hc; cases hstarts
  | ofChar ht =>
    cases hc
    obtain ⟨hspelling, hsymbol, -⟩ := spelling_of_ofChar ht
    obtain ⟨d, ds, heq, -, -, hno⟩ := starts_symbol hsymbol
    obtain ⟨rfl, -⟩ := List.cons.inj (hspelling.symm.trans heq)
    rw [hno] at hstarts
    cases hstarts

theorem Takes.ne_nil (h : Takes rest l us) : l ≠ [] := by
  rcases h.blank_or_longest with ⟨c, rfl, -⟩ | ⟨t, -, hl, -⟩
  · exact List.cons_ne_nil _ _
  · obtain ⟨c, cs, rfl, -⟩ := hl.eq_cons
    exact List.cons_ne_nil _ _

/-- What is taken is cut off. -/
theorem Takes.cuts (h : Takes (before ++ rest) l us) (hcut : Cuts rest before ts) :
    Cuts rest (l ++ before) (us ++ ts) := by
  rcases h.blank_or_longest with ⟨c, rfl, hc, rfl⟩ | ⟨t, rfl, hl, hlong⟩
  · exact .blank hc hcut
  · exact .lexeme hl hlong hcut

/-- Whatever is cut of the same text goes through what is taken. -/
theorem Takes.cuts_tail {after : List Char} (h : Takes rest l us) (hcut : Cuts after before ts)
    (heq : l ++ rest = before ++ after) (hne : before ≠ []) :
    ∃ before' ts', before = l ++ before' ∧ rest = before' ++ after ∧ Cuts after before' ts' := by
  cases hcut with
  | nil => exact absurd rfl hne
  | @blank c before ts hc hcut =>
    rcases h.blank_or_longest with ⟨d, rfl, -, -⟩ | ⟨t, -, hl, -⟩
    · cases heq
      exact ⟨before, ts, rfl, rfl, hcut⟩
    · obtain ⟨d, ds, rfl, hd, -⟩ := hl.eq_cons
      obtain ⟨rfl, -⟩ := List.cons.inj heq
      rw [hd] at hc
      cases hc
  | @lexeme k before t ts hk hklong hcut =>
    rw [List.append_assoc] at heq
    rcases h.blank_or_longest with ⟨d, rfl, hblank, -⟩ | ⟨u, -, hl, hllong⟩
    · obtain ⟨c, cs, rfl, hc, -⟩ := hk.eq_cons
      obtain ⟨rfl, -⟩ := List.cons.inj heq
      rw [hc] at hblank
      cases hblank
    · have hle := hllong k t hk (heq ▸ List.prefix_append _ _)
      have hge := hklong l u hl (heq ▸ List.prefix_append _ _)
      obtain ⟨rfl, hrest⟩ := List.append_inj heq (Nat.le_antisymm hge hle)
      exact ⟨before, ts, rfl, hrest, hcut⟩

end

end

/-! ## Texts with tokens -/

/-- What holds of a text of tokens is proved along what the lexer takes. -/
theorem Spells.induction_takes {p : List Char → List Token → Prop} {s : List Char}
    {ts : List Token} (h : Spells s ts) (nil : p [] [])
    (takes : ∀ {l rest us ts}, Takes rest l us → p rest ts → p (l ++ rest) (us ++ ts)) :
    p s ts := by
  induction h with
  | nil => exact nil
  | blank hc _ ih => exact takes (.blank hc) ih
  | numeral hn hc hrest _ ih => exact takes (.numeral hn hc hrest) ih
  | power _ ih => exact takes .power ih
  | times hrest _ ih => exact takes (.times hrest) ih
  | ofChar ht _ ih => exact takes (.ofChar ht) ih

/-- **A text has the tokens into which it can be cut.** -/
theorem cuts_iff_spells {s : List Char} {ts : List Token} : Cuts [] s ts ↔ Spells s ts := by
  constructor
  · intro h
    induction h with
    | nil => exact .nil
    | blank hc _ ih => exact .blank hc ih
    | @lexeme l before t ts hl hlong hcut ih =>
      rw [List.append_nil] at hlong
      cases hl with
      | symbol ht =>
        cases t with
        | number x => cases ht
        | times =>
          refine .times (fun hstar ↦ ?_) ih
          obtain ⟨rest, rfl⟩ := List.head?_eq_some_iff.mp hstar
          have hpower : IsLexeme (spelling .power) .power := .symbol rfl
          exact absurd (hlong _ _ hpower ⟨rest, rfl⟩) (by decide)
        | power => exact .power ih
        | _ => exact .ofChar rfl ih
      | @numeral n hn hc =>
        refine .numeral hn hc (fun c hhead ↦ ?_) ih
        rw [Bool.eq_false_iff]
        intro hgo
        obtain ⟨n', hn', htext, hcomplete⟩ := Numeral.exists_text_append hn hgo
        have hc' := hcomplete hc (hcut.isMark_head c hhead)
        obtain ⟨rest, rfl⟩ := List.head?_eq_some_iff.mp hhead
        have hle := hlong _ _ (.numeral hn' hc') ⟨rest, by rw [htext]; simp⟩
        rw [htext, List.length_append] at hle
        exact absurd hle (Nat.not_succ_le_self _)
  · intro h
    refine h.induction_takes .nil fun {l rest us ts} htakes hcut ↦ ?_
    rw [← List.append_nil rest] at htakes
    exact htakes.cuts hcut

end Calculator.Token

import Calculator.Proofs.Expr.Lexing
import Calculator.Proofs.Expr.Reading
import Mathlib.Data.List.Chain

/-!
# Tokens next to each other

A text of tokens needs blanks where two tokens could be taken for one, which is so for two numbers
and for two operators that are spelled with stars.  In an expression neither of the two pairs stands
next to each other (`Expr.isChain_tokens`), because the parser expects an operator after a number
and an operand after an operator.  So the texts of the tokens of an expression can simply be put one
behind the other (`Token.spells_flatMap`).

For the same reason no operand stands directly behind another one, be they numbers or in parentheses
(`Expr.isChain_separate`).
-/

set_option autoImplicit false

namespace Calculator

/-! ## What can stand next to each other -/

/-- A number. -/
def Token.isNumber : Token → Bool
  | number _ => true
  | _ => false

/-- An operator that is spelled with stars. -/
def Token.isStarred : Token → Bool
  | times => true
  | power => true
  | _ => false

/-- The two tokens cannot be taken for one. -/
def Token.CanPrecede (t u : Token) : Prop :=
  ¬ (t.isNumber = true ∧ u.isNumber = true) ∧ ¬ (t.isStarred = true ∧ u.isStarred = true)

/-- A token with which an operand starts. -/
def Token.startsOperand : Token → Bool
  | number _ => true
  | openParen => true
  | _ => false

/-- A token with which an operand ends. -/
def Token.endsOperand : Token → Bool
  | number _ => true
  | closeParen => true
  | _ => false

/-- The two tokens do not belong to two operands, one behind the other. -/
def Token.Separate (t u : Token) : Prop := ¬ (t.endsOperand = true ∧ u.startsOperand = true)

namespace Parser

/-- What the parser expects next after a number or an operator. -/
theorem canPrecede_of_step {state mid final : State} {t u : Token} (ht : step state t = .ok mid)
    (hu : step mid u = .ok final) : t.CanPrecede u := by
  cases state with
  | operand stack =>
    cases t with
    | number x =>
      cases ht
      cases u with
      | number y => cases hu
      | _ => exact ⟨fun h ↦ (nomatch h.2), fun h ↦ (nomatch h.1)⟩
    | times => cases ht
    | power => cases ht
    | _ => exact ⟨fun h ↦ (nomatch h.1), fun h ↦ (nomatch h.1)⟩
  | operator stack e =>
    cases t with
    | number x => cases ht
    | times =>
      cases ht
      cases u with
      | times => cases hu
      | power => cases hu
      | _ => exact ⟨fun h ↦ (nomatch h.1), fun h ↦ (nomatch h.2)⟩
    | power =>
      cases ht
      cases u with
      | times => cases hu
      | power => cases hu
      | _ => exact ⟨fun h ↦ (nomatch h.1), fun h ↦ (nomatch h.2)⟩
    | _ => exact ⟨fun h ↦ (nomatch h.1), fun h ↦ (nomatch h.1)⟩

theorem run_cons_eq_ok {state final : State} {t : Token} {ts : List Token}
    (h : run state (t :: ts) = .ok final) :
    ∃ next, step state t = .ok next ∧ run next ts = .ok final := by
  rw [run_cons] at h
  cases hstep : step state t with
  | error cause =>
    rw [hstep] at h
    cases h
  | ok next =>
    rw [hstep] at h
    exact ⟨next, rfl, h⟩

/-- **What the parser has read**, by induction on the tokens: what holds of the tokens of any two
steps holds of all neighbours. -/
theorem isChain_of_run {R : Token → Token → Prop}
    (hR : ∀ {state mid next : State} {t u : Token}, step state t = .ok mid →
      step mid u = .ok next → R t u)
    {state final : State} {ts : List Token} (h : run state ts = .ok final) : ts.IsChain R := by
  induction ts generalizing state with
  | nil => exact .nil
  | cons t ts ih =>
    obtain ⟨mid, ht, hmid⟩ := run_cons_eq_ok h
    cases ts with
    | nil => exact .singleton t
    | cons u us =>
      obtain ⟨next, hu, -⟩ := run_cons_eq_ok hmid
      exact .cons_cons (hR ht hu) (ih hmid)

/-- An operand is finished by a number or a closing parenthesis. -/
theorem endsOperand_of_step {state : State} {stack : List Frame} {e : Expr} {t : Token}
    (h : step state t = .ok (.operator stack e)) : t.endsOperand = true := by
  cases state <;> cases t <;> first | rfl | cases h

/-- Behind a number or a closing parenthesis no operand starts. -/
theorem separate_of_step {state mid final : State} {t u : Token} (ht : step state t = .ok mid)
    (hu : step mid u = .ok final) : t.Separate u := by
  rintro ⟨hends, hstarts⟩
  cases mid with
  | operator stack e =>
    cases u with
    | number y => cases hu
    | openParen => cases hu
    | _ => cases hstarts
  | operand stack =>
    cases t with
    | number x => cases state <;> cases ht
    | closeParen =>
      cases state with
      | operand stack => cases ht
      | operator stack e =>
        simp only [step] at ht
        split at ht <;> cases ht
    | _ => cases hends

end Parser

/-- No two tokens of an expression can be taken for one. -/
theorem Expr.isChain_tokens {e : Expr} (he : e.WellFormed) : e.tokens.IsChain Token.CanPrecede := by
  obtain ⟨top, last, hrun, -⟩ := Parser.run_tokens he [] True.intro
  exact Parser.isChain_of_run Parser.canPrecede_of_step hrun

/-- No two operands of an expression stand next to each other. -/
theorem Expr.isChain_separate {e : Expr} (he : e.WellFormed) : e.tokens.IsChain Token.Separate := by
  obtain ⟨top, last, hrun, -⟩ := Parser.run_tokens he [] True.intro
  exact Parser.isChain_of_run Parser.separate_of_step hrun

/-! ## Texts next to each other -/

namespace Token

/-- A token that is no number is spelled by itself. -/
theorem spells_spelling {t : Token} (h : t.isNumber = false) : Spells t.spelling [t] := by
  cases t with
  | number x => cases h
  | times => exact .times (fun hstar ↦ by cases hstar) .nil
  | power => exact .power .nil
  | _ => exact .ofChar rfl .nil

/-- The first character of a text of tokens says what the first token is. -/
theorem head_of_spells {s : List Char} {ts : List Token} (h : Spells s ts) :
    ∀ c ∈ s.head?, Numeral.isMark c = false ∧
      (Numeral.starts c = true → ∃ t ∈ ts.head?, t.isNumber = true) ∧
      (c = '*' → ∃ t ∈ ts.head?, t.isStarred = true) := by
  cases h with
  | nil => intro c hc; cases hc
  | @blank d cs _ hd _ =>
    intro c hc
    cases hc
    refine ⟨?_, fun hstarts ↦ ?_, ?_⟩
    · rw [Bool.eq_false_iff]
      intro hmark
      rw [isBlank_of_isMark hmark] at hd
      cases hd
    · rw [isBlank_of_starts hstarts] at hd
      cases hd
    · rintro rfl
      exact absurd hd (by decide)
  | @numeral n rest ts hn hcomplete hrest htail =>
    obtain ⟨d, ds, htext, hstarts⟩ := Numeral.head_text hn hcomplete
    intro c hc
    rw [htext] at hc
    cases hc
    refine ⟨isMark_of_starts hstarts, fun _ ↦ ⟨_, rfl, rfl⟩, ?_⟩
    rintro rfl
    exact absurd hstarts (by decide)
  | power =>
    intro c hc
    cases hc
    exact ⟨by decide, fun h ↦ absurd h (by decide), fun _ ↦ ⟨_, rfl, rfl⟩⟩
  | times =>
    intro c hc
    cases hc
    exact ⟨by decide, fun h ↦ absurd h (by decide), fun _ ↦ ⟨_, rfl, rfl⟩⟩
  | ofChar ht _ =>
    intro c hc
    cases hc
    unfold ofChar? at ht
    split at ht <;> cases ht <;>
      exact ⟨by decide, fun h ↦ absurd h (by decide), fun h ↦ absurd h (by decide)⟩

theorem eq_nil_of_spells {ts : List Token} (h : Spells [] ts) : ts = [] := by
  generalize hs : [] = s at h
  cases h with
  | nil => rfl
  | numeral hn hc hrest _ =>
    obtain ⟨d, ds, htext, -⟩ := Numeral.head_text hn hc
    rw [htext] at hs
    cases hs
  | _ => cases hs

/-- A character at the front is the last one, or there are others behind it. -/
theorem getLast?_append_cases {a b : List Char} {c : Char} (h : c ∈ (a ++ b).getLast?) :
    c ∈ b.getLast? ∨ b = [] ∧ c ∈ a.getLast? := by
  rw [List.getLast?_append] at h
  cases b with
  | nil => exact Or.inr ⟨rfl, h⟩
  | cons d ds =>
    left
    rw [List.getLast?_cons] at h ⊢
    exact h

/-- The spelling of the token can end with the character. -/
def EndsIn (t : Token) (c : Char) : Prop :=
  t.isNumber = true ∧ Numeral.endsAt c = true ∨ t.isStarred = true ∧ c = '*' ∨ ofChar? c = some t

/-- **The last character of a text of tokens** belongs to the last token, unless it is blank. -/
theorem endsIn_of_spells {s : List Char} {ts : List Token} (h : Spells s ts) :
    ∀ c ∈ s.getLast?, Text.isBlank c = false → ∃ t ∈ ts.getLast?, t.EndsIn c := by
  have hcons : ∀ {t : Token} {ts : List Token} {c : Char}, (∃ u ∈ ts.getLast?, u.EndsIn c) →
      ∃ u ∈ (t :: ts).getLast?, u.EndsIn c := by
    rintro t ts c ⟨u, hu, hends⟩
    exact ⟨u, by simp [List.getLast?_cons, Option.mem_def.mp hu], hends⟩
  induction h with
  | nil => intro c hc; cases hc
  | @blank d cs ts hd htail ih =>
    intro c hc hblank
    rcases getLast?_append_cases (a := [d]) hc with hlast | ⟨rfl, hlast⟩
    · exact ih c hlast hblank
    · obtain rfl : d = c := Option.some.inj hlast
      rw [hd] at hblank
      cases hblank
  | @numeral n rest ts hn hcomplete hrest htail ih =>
    intro c hc hblank
    rcases getLast?_append_cases hc with hlast | ⟨rfl, hlast⟩
    · exact hcons (ih c hlast hblank)
    · rw [eq_nil_of_spells htail]
      exact ⟨_, rfl, Or.inl ⟨rfl, Numeral.endsAt_text hn hcomplete c hlast⟩⟩
  | @power rest ts htail ih =>
    intro c hc hblank
    rcases getLast?_append_cases (a := ['*', '*']) hc with hlast | ⟨rfl, hlast⟩
    · exact hcons (ih c hlast hblank)
    · rw [eq_nil_of_spells htail]
      exact ⟨_, rfl, Or.inr (Or.inl ⟨rfl, (Option.some.inj hlast).symm⟩)⟩
  | @times rest ts hstar htail ih =>
    intro c hc hblank
    rcases getLast?_append_cases (a := ['*']) hc with hlast | ⟨rfl, hlast⟩
    · exact hcons (ih c hlast hblank)
    · rw [eq_nil_of_spells htail]
      exact ⟨_, rfl, Or.inr (Or.inl ⟨rfl, (Option.some.inj hlast).symm⟩)⟩
  | @ofChar d t rest ts ht htail ih =>
    intro c hc hblank
    rcases getLast?_append_cases (a := [d]) hc with hlast | ⟨rfl, hlast⟩
    · exact hcons (ih c hlast hblank)
    · obtain rfl : d = c := Option.some.inj hlast
      rw [eq_nil_of_spells htail]
      exact ⟨_, rfl, Or.inr (Or.inr ht)⟩

theorem ofChar?_of_endsAt {c : Char} (h : Numeral.endsAt c = true) : ofChar? c = none := by
  unfold ofChar?
  split <;> first | rfl | exact absurd h (by decide)

/-- The last token of a text with a given last character. -/
def EndsWith (ts : List Token) (c : Char) : Prop :=
  (Numeral.endsAt c = true → ∃ t ∈ ts.getLast?, t.isNumber = true) ∧
    (c = '*' → ∃ t ∈ ts.getLast?, t.isStarred = true)

/-- The last character of a text of tokens says what the last token is. -/
theorem endsWith_of_spells {s : List Char} {ts : List Token} (h : Spells s ts) :
    ∀ c ∈ s.getLast?, EndsWith ts c := by
  intro c hc
  constructor
  · intro hends
    obtain ⟨t, ht, ⟨hnumber, -⟩ | ⟨-, rfl⟩ | hchar⟩ :=
      endsIn_of_spells h c hc (isBlank_of_starts hends)
    · exact ⟨t, ht, hnumber⟩
    · exact absurd hends (by decide)
    · rw [ofChar?_of_endsAt hends] at hchar
      cases hchar
  · rintro rfl
    obtain ⟨t, ht, ⟨-, hends⟩ | ⟨hstarred, -⟩ | hchar⟩ := endsIn_of_spells h '*' hc (by decide)
    · exact absurd hends (by decide)
    · exact ⟨t, ht, hstarred⟩
    · cases hchar

/-- Only a number and a closing parenthesis end an operand. -/
theorem EndsIn.of_endsOperand {t : Token} {c : Char} (h : t.EndsIn c)
    (ht : t.endsOperand = true) : Numeral.endsAt c = true ∨ c = ')' := by
  rcases h with ⟨-, hends⟩ | ⟨hstarred, -⟩ | hchar
  · exact Or.inl hends
  · cases t with
    | times => cases ht
    | power => cases ht
    | _ => cases hstarred
  · unfold ofChar? at hchar
    split at hchar <;> cases hchar <;> first | exact Or.inr rfl | cases ht

/-- Texts do not touch where their tokens cannot be taken for one. -/
theorem apart_of_canPrecede {a b : List Char} {ts us : List Token} (ha : Spells a ts)
    (hb : Spells b us) (h : ∀ t ∈ ts.getLast?, ∀ u ∈ us.head?, t.CanPrecede u) : Apart a b := by
  intro l hl r hr htouch
  obtain ⟨hnumber, hstar⟩ := endsWith_of_spells ha l hl
  obtain ⟨hmark, hstarts, hstar'⟩ := head_of_spells hb r hr
  rcases htouch with ⟨hends, hgo⟩ | ⟨rfl, rfl⟩
  · have hstart : Numeral.starts r = true := by
      rcases hgo with hdigit | rfl | hmark'
      · exact Numeral.starts_of_isDigit hdigit
      · decide
      · rw [hmark] at hmark'
        cases hmark'
    obtain ⟨t, ht, htn⟩ := hnumber hends
    obtain ⟨u, hu, hun⟩ := hstarts hstart
    exact (h t ht u hu).1 ⟨htn, hun⟩
  · obtain ⟨t, ht, hts⟩ := hstar rfl
    obtain ⟨u, hu, hus⟩ := hstar' rfl
    exact (h t ht u hu).2 ⟨hts, hus⟩

/-- **Texts of tokens, one behind the other**, if no two tokens next to each other can be taken for
one. -/
theorem spells_flatMap {α : Type} {text : α → List Char} {tokens : α → List Token} {xs : List α}
    (h : ∀ x ∈ xs, Spells (text x) (tokens x)) (hchain : (xs.flatMap tokens).IsChain CanPrecede) :
    Spells (xs.flatMap text) (xs.flatMap tokens) := by
  induction xs with
  | nil => exact .nil
  | cons x xs ih =>
    obtain ⟨hx, hxs⟩ := List.forall_mem_cons.mp h
    rw [List.flatMap_cons] at hchain
    obtain ⟨-, htail, hseam⟩ := List.isChain_append.mp hchain
    have hrest := ih hxs htail
    exact hx.append hrest (apart_of_canPrecede hx hrest hseam)

end Token

end Calculator

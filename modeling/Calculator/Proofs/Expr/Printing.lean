import Calculator.Proofs.Expr.Neighbours
import Calculator.Proofs.Expr.Spliced

/-!
# Printed tokens

Tokens are printed by writing their spellings one behind the other, with blanks between them.  Only
two kinds of neighbours need a blank: two numbers, and a product sign in front of anything spelled
with stars (`Token.needsBlank`).  A power sign needs none behind it, because the lexer takes it as
soon as it has seen two stars, and the third star of a run begins a token of its own.

This is less than `Token.CanPrecede` asks for, so the seams are not looked at from both sides: the
tokens are put in front of what is printed already, one after the other (`Token.Spells.cons`).
`tokenize_printed` says that the lexer undoes printing.
-/

set_option autoImplicit false

namespace Calculator

namespace Token

/-! ## One token in front of a text -/

/-- A token whose spelling is read as this token.  Numbers that are negative are not, because their
minus is a token, and what is not finite is spelled by a name. -/
def IsWritable : Token → Prop
  | number x => x.isFinite = true ∧ Double.isNegative x = false
  | _ => True

instance (t : Token) : Decidable t.IsWritable := by
  cases t <;> unfold IsWritable <;> infer_instance

/-- There has to be a blank between the two tokens. -/
def needsBlank : Token → Token → Bool
  | number _, number _ => true
  | times, times => true
  | times, power => true
  | _, _ => false

theorem spells_of_isWritable {t : Token} (h : t.IsWritable) : Spells t.spelling [t] := by
  cases t with
  | number x =>
    have hspells := spells_numberText h.1
    rw [Expr.ofFloat_of_not_isNegative h.2] at hspells
    exact hspells
  | _ => exact spells_spelling rfl

theorem canPrecede_of_not_needsBlank {t u : Token} (h : t.needsBlank u = false)
    (ht : t ≠ .power) : t.CanPrecede u := by
  cases t <;> cases u <;> simp_all [needsBlank, CanPrecede, isNumber, isStarred]

/-- Nothing touches a blank. -/
theorem apart_of_isBlank {c : Char} (h : Text.isBlank c = true) (a b : List Char) :
    Apart a (c :: b) := by
  refine apart_of_head fun d hd ↦ ?_
  obtain rfl : c = d := Option.some.inj hd
  have hnot : ∀ e, Text.isBlank e = false → c ≠ e := by
    rintro e he rfl
    rw [h] at he
    cases he
  refine ⟨?_, hnot '.' (by decide), ?_, hnot '*' (by decide)⟩
  · rw [Bool.eq_false_iff]
    exact fun hdigit ↦ hnot c (isBlank_of_starts (Numeral.starts_of_isDigit hdigit)) rfl
  · rw [Bool.eq_false_iff]
    exact fun hmark ↦ hnot c (isBlank_of_isMark hmark) rfl

variable {s : List Char} {t : Token} {ts : List Token}

theorem Spells.blanks {b : List Char} (hb : Text.allBlank b = true) (h : Spells s ts) :
    Spells (b ++ s) ts := by
  rw [Text.allBlank_iff] at hb
  induction b with
  | nil => exact h
  | cons c b ih =>
    obtain ⟨hc, hb⟩ := List.forall_mem_cons.mp hb
    exact .blank hc (ih hb)

/-- **A token in front of a text of tokens**, which begins with a blank if one is needed. -/
theorem Spells.cons (h : Spells s ts) (ht : t.IsWritable)
    (hneeded : ∀ u ∈ ts.head?, t.needsBlank u = true → ∃ c ∈ s.head?, Text.isBlank c = true) :
    Spells (t.spelling ++ s) (t :: ts) := by
  by_cases hpower : t = .power
  · rw [hpower]
    exact .power h
  · have hspelling := spells_of_isWritable ht
    refine hspelling.append h ?_
    by_cases hblank : ∃ c ∈ s.head?, Text.isBlank c = true
    · obtain ⟨c, hc, hcblank⟩ := hblank
      obtain ⟨rest, rfl⟩ := List.head?_eq_some_iff.mp hc
      exact apart_of_isBlank hcblank _ _
    · refine apart_of_canPrecede hspelling h fun t' ht' u hu ↦ ?_
      obtain rfl : t = t' := Option.some.inj ht'
      refine canPrecede_of_not_needsBlank ?_ hpower
      rw [Bool.eq_false_iff]
      exact fun hneeds ↦ hblank (hneeded u hu hneeds)

/-! ## Printing -/

/-- A token and the blanks behind it. -/
structure Spaced where
  token : Token
  blanks : List Char
  allBlank : Text.allBlank blanks = true

/-- The token and the blanks as they are written. -/
def Spaced.text (x : Spaced) : List Char := x.token.spelling ++ x.blanks

/-- There are blanks between two tokens that need one. -/
def Spaced.Separates (x y : Spaced) : Prop := x.token.needsBlank y.token = true → x.blanks ≠ []

instance (x y : Spaced) : Decidable (x.Separates y) := inferInstanceAs (Decidable (_ → _))

/-- What is printed consists of the tokens, by induction on them from the last one on. -/
theorem spells_printed {xs : List Spaced} (hwritable : ∀ x ∈ xs, x.token.IsWritable)
    (hchain : xs.IsChain Spaced.Separates) :
    Spells (xs.flatMap Spaced.text) (xs.map Spaced.token) := by
  induction xs with
  | nil => exact .nil
  | cons x xs ih =>
    obtain ⟨hx, hxs⟩ := List.forall_mem_cons.mp hwritable
    have hrest := (ih hxs hchain.tail).blanks x.allBlank
    rw [List.flatMap_cons, Spaced.text, List.append_assoc]
    refine hrest.cons hx fun u hu hneeds ↦ ?_
    cases xs with
    | nil => cases hu
    | cons y ys =>
      obtain rfl : y.token = u := Option.some.inj hu
      obtain ⟨c, cs, hblanks⟩ := List.exists_cons_of_ne_nil (hchain.rel hneeds)
      have hall := Text.allBlank_iff.mp x.allBlank
      rw [hblanks] at hall ⊢
      exact ⟨c, rfl, hall c List.mem_cons_self⟩

/-! ### With no more blanks than are needed -/

/-- The tokens, with a blank behind each that needs one. -/
def spaced : List Token → List Spaced
  | [] => []
  | [t] => [⟨t, [], by decide⟩]
  | t :: u :: ts =>
    ⟨t, if t.needsBlank u then [' '] else [], by split <;> decide⟩ :: spaced (u :: ts)

/-- The text of the tokens, with no more blanks than are needed. -/
def print (ts : List Token) : List Char := (spaced ts).flatMap Spaced.text

theorem map_token_spaced (ts : List Token) : (spaced ts).map Spaced.token = ts := by
  fun_induction spaced ts with
  | case1 => rfl
  | case2 t => rfl
  | case3 t u ts ih => rw [List.map_cons, ih]

theorem isChain_spaced (ts : List Token) : (spaced ts).IsChain Spaced.Separates := by
  fun_induction spaced ts with
  | case1 => exact .nil
  | case2 t => exact .singleton _
  | case3 t u ts ih =>
    refine List.isChain_cons.mpr ⟨fun y hy hneeds ↦ ?_, ih⟩
    have htoken : y.token = u := by
      cases ts <;> exact congrArg Spaced.token (Option.some.inj hy).symm
    rw [htoken] at hneeds
    simp [hneeds]

end Token

/-- **The lexer undoes printing.**  Tokens are read back from their spellings with any blanks between
them, as long as there is one between two numbers and between a product sign and stars; in
particular with no other blanks than these. -/
theorem tokenize_printed :
    (∀ (before : List Char) (xs : List Token.Spaced), Text.allBlank before = true →
      (∀ x ∈ xs, x.token.IsWritable) → xs.IsChain Token.Spaced.Separates →
      tokenize (before ++ xs.flatMap Token.Spaced.text) = .ok (xs.map Token.Spaced.token)) ∧
    ∀ ts : List Token, (∀ t ∈ ts, t.IsWritable) → tokenize (Token.print ts) = .ok ts := by
  refine ⟨fun before xs hbefore hwritable hchain ↦ ?_, fun ts hwritable ↦ ?_⟩
  · exact Token.lex_eq_ok_iff.mpr ((Token.spells_printed hwritable hchain).blanks hbefore)
  · have hspaced : ∀ x ∈ Token.spaced ts, x.token.IsWritable := fun x hx ↦ by
      refine hwritable x.token ?_
      rw [← Token.map_token_spaced ts]
      exact List.mem_map_of_mem hx
    have hspells := Token.spells_printed hspaced (Token.isChain_spaced ts)
    rw [Token.map_token_spaced] at hspells
    exact Token.lex_eq_ok_iff.mpr hspells

/-- Runs of stars, with and without blanks, and numbers of all sizes. -/
theorem tokenize_printed_stars :
    let ts : List Token :=
      [.power, .times, .times, .power, .power, .number 0.1, .number 1e22, .openParen, .minus,
        .number 0, .closeParen]
    let xs : List Token.Spaced :=
      [⟨.power, [], by decide⟩, ⟨.times, ['\u3000'], by decide⟩, ⟨.times, ['\n'], by decide⟩,
        ⟨.power, [], by decide⟩, ⟨.power, [], by decide⟩, ⟨.number 0.1, [' ', '\t'], by decide⟩,
        ⟨.number 1e22, [], by decide⟩, ⟨.openParen, [], by decide⟩, ⟨.minus, [' '], by decide⟩,
        ⟨.number 0, [], by decide⟩, ⟨.closeParen, [' '], by decide⟩]
    (∀ t ∈ ts, t.IsWritable) ∧ xs.map Token.Spaced.token = ts ∧
      xs.IsChain Token.Spaced.Separates ∧
      tokenize (' ' :: xs.flatMap Token.Spaced.text) = .ok ts ∧
      Token.print ts = "*** * ****0.1 10000000000000000000000(-0)".toList ∧
      tokenize (Token.print ts) = .ok ts := by
  intro ts xs
  have hwritable : ∀ t ∈ ts, t.IsWritable := by decide +kernel
  have hchain : xs.IsChain Token.Spaced.Separates := by decide +kernel
  exact ⟨hwritable, rfl, hchain,
    tokenize_printed.1 [' '] xs (by decide) (fun x hx ↦ hwritable _ (List.mem_map_of_mem hx)) hchain,
    by decide +kernel, tokenize_printed.2 ts hwritable⟩

end Calculator

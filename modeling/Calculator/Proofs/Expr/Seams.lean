import Calculator.Proofs.Expr.Neighbours
import Mathlib.Data.List.Basic

/-!
# Where a text of tokens can be cut

`Spells.append` puts texts of tokens together.  Here a text that is known to consist of tokens is
cut in two, which is possible where no token reaches over the cut (`Seam`).  Two kinds of places are
such in every text: before and behind a parenthesis (`Spells.split_paren`), and behind an operator,
if no exponent can have that operator for its sign (`seam_of_operator`).

At the end of the file a text is cut at all its blanks.  The blanks between the tokens of an
expression can be left out, because no two of these tokens can be taken for one
(`spells_filter_blank`).
-/

set_option autoImplicit false

namespace Calculator

/-- In front of its exponent, a numeral is digits and a point. -/
theorem Numeral.starts_of_prefix {n : Numeral} (hn : n.WellFormed) {x y : List Char}
    (h : n.text = x ++ y) (hx : ∀ c ∈ x, isMark c = false) : ∀ c ∈ x, starts c = true := by
  have hfront : ∀ c ∈ n.integer ++ fractionText n.fraction, starts c = true := by
    refine List.forall_mem_append.mpr ⟨fun c hc ↦ starts_of_isDigit (hn.integer c hc), ?_⟩
    rcases hf : n.fraction with _ | ds
    · simp [fractionText]
    · refine List.forall_mem_cons.mpr ⟨by decide, fun c hc ↦ ?_⟩
      exact starts_of_isDigit (hn.fraction ds hf c hc)
  rw [text] at h
  rcases List.append_eq_append_iff.mp h with ⟨z, rfl, hz⟩ | ⟨z, hz, -⟩
  · rcases z with _ | ⟨c, cs⟩
    · simpa using hfront
    · -- the exponent begins with its mark
      rcases he : n.exponent with _ | e
      · simp [he, exponentText] at hz
      · rw [he, exponentText, Exponent.text, List.cons_append, List.cons.injEq] at hz
        have hmark := (hn.exponent e he).mark
        rw [hz.1, hx c (by simp)] at hmark
        cases hmark
  · exact fun c hc ↦ hfront c (by rw [hz]; exact List.mem_append_left z hc)

namespace Token

variable {a b : List Char} {ts : List Token}

/-! ## Seams -/

/-- No token reaches from the first text into the second. -/
structure Seam (a b : List Char) : Prop where
  numeral : ∀ (n : Numeral) (x y : List Char), n.WellFormed → n.text = x ++ y → x <:+ a →
    y <+: b → x = [] ∨ y = []
  star : '*' ∈ a.getLast? → '*' ∉ b.head?

theorem Seam.of_suffix {rest : List Char} (h : Seam a b) (hrest : rest <:+ a) : Seam rest b where
  numeral n x y hn htext hx hy := h.numeral n x y hn htext (hx.trans hrest) hy
  star hstar := by
    obtain ⟨before, rfl⟩ := hrest
    exact h.star (List.mem_getLast?_append_of_mem_getLast? hstar)

theorem seam_paren {c : Char} (hc : c = '(' ∨ c = ')') (a b : List Char) : Seam a (c :: b) where
  numeral n x y hn htext _ hy := by
    rcases y with _ | ⟨d, ds⟩
    · exact Or.inr rfl
    · obtain rfl : d = c := (List.cons_prefix_cons.mp hy).1
      have hmem := Numeral.mem_text hn d (by rw [htext]; simp)
      rcases hc with rfl | rfl <;> exact absurd hmem (by decide)
  star _ h := by
    obtain rfl : c = '*' := Option.some.inj h
    exact absurd hc (by decide)

/-- Behind an operator, if there is no mark of an exponent in front of it. -/
theorem seam_of_operator (hmark : ∀ c ∈ a, Numeral.isMark c = false)
    (hlast : ∀ c ∈ a.getLast?, Numeral.endsAt c = false) (hhead : '*' ∉ b.head?) : Seam a b where
  numeral n x y hn htext hx _ := by
    by_cases hne : x = []
    · exact Or.inl hne
    · have hlast' := List.getLast?_eq_some_getLast hne
      obtain ⟨before, rfl⟩ := hx
      have hstarts := Numeral.starts_of_prefix hn htext
        (fun c hc ↦ hmark c (List.mem_append_right before hc)) _ (List.getLast_mem hne)
      have hends := hlast _ (List.mem_getLast?_append_of_mem_getLast? hlast')
      rw [Numeral.endsAt, ← Numeral.starts, hstarts] at hends
      cases hends
  star _ := hhead

/-! ## Cutting -/

/-- **A text of tokens can be cut** where no token reaches over the cut. -/
theorem Spells.split (h : Spells (a ++ b) ts) (hseam : Seam a b) :
    ∃ us vs, Spells a us ∧ Spells b vs ∧ ts = us ++ vs := by
  generalize hs : a ++ b = s at h
  induction h generalizing a with
  | nil =>
    obtain ⟨rfl, rfl⟩ := List.append_eq_nil_iff.mp hs
    exact ⟨[], [], .nil, .nil, rfl⟩
  | @blank c cs ts hblank htail ih =>
    rcases List.append_eq_cons_iff.mp hs with ⟨rfl, rfl⟩ | ⟨a', rfl, rfl⟩
    · exact ⟨[], ts, .nil, .blank hblank htail, rfl⟩
    · obtain ⟨us, vs, hus, hvs, rfl⟩ := ih (hseam.of_suffix (List.suffix_cons c a')) rfl
      exact ⟨us, vs, .blank hblank hus, hvs, rfl⟩
  | @numeral n rest ts hn hc hrest htail ih =>
    rcases List.append_eq_append_iff.mp hs with ⟨y, htext, rfl⟩ | ⟨a', rfl, rfl⟩
    · -- the cut is within the numeral or at its end
      rcases hseam.numeral n a y hn htext List.suffix_rfl (List.prefix_append y rest) with
        rfl | rfl
      · rw [List.nil_append] at htext
        exact ⟨[], _, .nil, htext ▸ .numeral hn hc hrest htail, rfl⟩
      · rw [List.append_nil] at htext
        exact ⟨[_], ts, htext ▸ spells_numeral hn hc, htail, rfl⟩
    · obtain ⟨us, vs, hus, hvs, rfl⟩ := ih (hseam.of_suffix (List.suffix_append n.text a')) rfl
      have hrest' : ∀ c ∈ a'.head?, n.canGoOn c = false := fun c hmem ↦ hrest c (by
        rw [List.head?_append, Option.mem_def.mp hmem]
        rfl)
      exact ⟨_ :: us, vs, .numeral hn hc hrest' hus, hvs, rfl⟩
  | @power rest ts htail ih =>
    rcases List.append_eq_cons_iff.mp hs with ⟨rfl, rfl⟩ | ⟨a', rfl, hrest⟩
    · exact ⟨[], _, .nil, .power htail, rfl⟩
    · rcases List.append_eq_cons_iff.mp hrest.symm with ⟨rfl, rfl⟩ | ⟨a'', rfl, rfl⟩
      · exact absurd rfl (hseam.star rfl)
      · have hsuffix : a'' <:+ '*' :: '*' :: a'' := ⟨['*', '*'], rfl⟩
        obtain ⟨us, vs, hus, hvs, rfl⟩ := ih (hseam.of_suffix hsuffix) rfl
        exact ⟨_ :: us, vs, .power hus, hvs, rfl⟩
  | @times rest ts hstar htail ih =>
    rcases List.append_eq_cons_iff.mp hs with ⟨rfl, rfl⟩ | ⟨a', rfl, rfl⟩
    · exact ⟨[], _, .nil, .times hstar htail, rfl⟩
    · obtain ⟨us, vs, hus, hvs, rfl⟩ := ih (hseam.of_suffix (List.suffix_cons _ a')) rfl
      refine ⟨_ :: us, vs, .times (fun hmem ↦ hstar ?_) hus, hvs, rfl⟩
      rw [List.head?_append, Option.mem_def.mp hmem]
      rfl
  | @ofChar c t rest ts ht htail ih =>
    rcases List.append_eq_cons_iff.mp hs with ⟨rfl, rfl⟩ | ⟨a', rfl, rfl⟩
    · exact ⟨[], _, .nil, .ofChar ht htail, rfl⟩
    · obtain ⟨us, vs, hus, hvs, rfl⟩ := ih (hseam.of_suffix (List.suffix_cons c a')) rfl
      exact ⟨_ :: us, vs, .ofChar ht hus, hvs, rfl⟩

/-- The token at the front of a text. -/
theorem Spells.cons_inv {c : Char} {t : Token} (h : Spells (c :: b) ts)
    (ht : ofChar? c = some t) : ∃ us, Spells b us ∧ ts = t :: us := by
  have hlex : lex 0 (c :: b) = .ok ts := lex_eq_ok_iff.mpr h
  rw [lex_ofChar ht] at hlex
  obtain ⟨us, hus, rfl⟩ := map_cons_eq_ok hlex
  exact ⟨us, lex_eq_ok_iff.mp hus, rfl⟩

/-- **A parenthesis** is a token by itself in every text. -/
theorem Spells.split_paren {c : Char} {t : Token} (h : Spells (a ++ c :: b) ts)
    (hc : c = '(' ∨ c = ')') (ht : ofChar? c = some t) :
    ∃ us vs, Spells a us ∧ Spells b vs ∧ ts = us ++ t :: vs := by
  obtain ⟨us, _, hus, hrest, rfl⟩ := h.split (seam_paren hc a b)
  obtain ⟨vs, hvs, rfl⟩ := hrest.cons_inv ht
  exact ⟨us, vs, hus, hvs, rfl⟩

/-! ## Blanks -/

/-- Without its blanks, a text of tokens is the spellings of its tokens. -/
theorem Spells.exists_spellings {s : List Char} (h : Spells s ts) :
    ∃ xs : List (List Char × Token), s.filter (fun c ↦ !Text.isBlank c) = xs.flatMap Prod.fst ∧
      ts = xs.map Prod.snd ∧ ∀ x ∈ xs, Spells x.1 [x.2] := by
  induction h with
  | nil => exact ⟨[], rfl, rfl, by simp⟩
  | blank hblank _ ih =>
    obtain ⟨xs, hxs, rfl, hspells⟩ := ih
    exact ⟨xs, by simp [hblank, hxs], rfl, hspells⟩
  | @numeral n rest _ hn hc _ _ ih =>
    obtain ⟨xs, hxs, rfl, hspells⟩ := ih
    have hself : n.text.filter (fun c ↦ !Text.isBlank c) = n.text :=
      List.filter_eq_self.mpr fun c hmem ↦ by simp [isBlank_of_mem_text hn c hmem]
    refine ⟨(n.text, .number n.value) :: xs, by simp [List.filter_append, hself, hxs], rfl, ?_⟩
    exact List.forall_mem_cons.mpr ⟨spells_numeral hn hc, hspells⟩
  | power _ ih =>
    obtain ⟨xs, hxs, rfl, hspells⟩ := ih
    refine ⟨(['*', '*'], .power) :: xs, by simp [← hxs, show Text.isBlank '*' = false by decide],
      rfl, ?_⟩
    exact List.forall_mem_cons.mpr ⟨.power .nil, hspells⟩
  | times _ _ ih =>
    obtain ⟨xs, hxs, rfl, hspells⟩ := ih
    refine ⟨(['*'], .times) :: xs, by simp [← hxs, show Text.isBlank '*' = false by decide],
      rfl, ?_⟩
    exact List.forall_mem_cons.mpr ⟨.times (by simp) .nil, hspells⟩
  | @ofChar c t rest _ ht _ ih =>
    obtain ⟨xs, hxs, rfl, hspells⟩ := ih
    have hblank : Text.isBlank c = false := by
      unfold ofChar? at ht
      split at ht <;> cases ht <;> decide
    refine ⟨([c], t) :: xs, by simp [← hxs, hblank], rfl, ?_⟩
    exact List.forall_mem_cons.mpr ⟨.ofChar ht .nil, hspells⟩

/-- **The blanks in an expression** can be left out. -/
theorem spells_filter_blank {s : List Char} {e : Expr} (h : Spells s e.tokens)
    (he : e.WellFormed) : Spells (s.filter fun c ↦ !Text.isBlank c) e.tokens := by
  obtain ⟨xs, hxs, htokens, hspells⟩ := h.exists_spellings
  have hchain := Expr.isChain_tokens he
  have hflat : xs.map Prod.snd = xs.flatMap fun x ↦ [x.2] := List.map_eq_flatMap
  rw [htokens, hflat] at hchain
  rw [hxs, htokens, hflat]
  exact spells_flatMap hspells hchain

end Token

end Calculator

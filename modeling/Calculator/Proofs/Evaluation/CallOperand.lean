import Calculator.Proofs.Evaluation.Composition
import Calculator.Proofs.Expr.Replacing
import Calculator.Proofs.Language.Words

/-!
# A call as an operand

A call is replaced by the text of its value without parentheses around it, and so the sign of the
value takes part in what stands around the call.  The places where this makes a difference are few:
the call is one operand, as if its value stood in parentheses, unless the value has a minus and the
call is the base of a power (`evaluate_call`).  In that case the minus applies after the power, as
it does when it is typed, and what the call is as good as is a minus in front of the rest of the
value in parentheses.

The argument compares two texts that differ in one gap only (`OperandGap`).  What is around the gap
is kept by all passes, it is cut into tokens by itself on both sides (`spells_around_iff`), and the
parser waits for an operand where the gap begins.  So the texts have the same value if what fills
the gap is read to the same value in front of the tokens behind it (`evaluate_eq_of_reads`).
-/

set_option autoImplicit false

namespace Calculator

open Calculator.Parser

/-! ## Texts with a gap -/

/-- A text with a gap in which an operand belongs: there are no calls and no factorials around it,
what is before it is empty or ends in an operator or an opening parenthesis, and what is after it is
empty or begins with an operator or a closing parenthesis. -/
structure OperandGap (before after : List Char) : Prop where
  plain_before : ∀ c ∈ before, c.isAlpha = false ∧ c ≠ '!'
  plain_after : ∀ c ∈ after, c.isAlpha = false ∧ c ≠ '!'
  expects : ∀ c ∈ (normalize before).getLast?, c ∈ ['+', '-', '*', '/', '(']
  follows : ∀ c ∈ (normalize after).head?, c ∈ ['+', '-', '*', '/', ')']

/-- Normalising adds neither names nor factorials. -/
theorem plain_normalize {cs : List Char} (h : ∀ c ∈ cs, c.isAlpha = false ∧ c ≠ '!') :
    ∀ c ∈ normalize cs, c.isAlpha = false ∧ c ≠ '!' := fun c hc ↦
  ⟨isAlpha_of_mem_normalize (fun d hd ↦ (h d hd).1) c hc,
    forall_mem_normalize (fun d hd ↦ (h d hd).2) (by simp [numberText_pi]) c hc⟩

theorem inert_of_plain {cs : List Char} (h : ∀ c ∈ cs, c.isAlpha = false ∧ c ≠ '!') :
    Inert cs := fun c hc ↦ ⟨(h c hc).2, MathFunction.notMem_head_of_isAlpha (h c hc).1⟩

namespace OperandGap

variable {before after : List Char}

theorem inert_before (h : OperandGap before after) : Inert (normalize before) :=
  inert_of_plain (plain_normalize h.plain_before)

theorem inert_after (h : OperandGap before after) : Inert (normalize after) :=
  inert_of_plain (plain_normalize h.plain_after)

/-- A number before the gap has no exponent that goes on in the gap. -/
theorem isMark_before (h : OperandGap before after) :
    ∀ c ∈ normalize before, Numeral.isMark c = false := by
  intro c hc
  rw [Bool.eq_false_iff]
  intro hmark
  have halpha := (plain_normalize h.plain_before c hc).1
  rw [Numeral.isMark, Bool.or_eq_true, beq_iff_eq, beq_iff_eq] at hmark
  rcases hmark with rfl | rfl <;> exact absurd halpha (by decide)

theorem endsAt_before (h : OperandGap before after) :
    ∀ c ∈ (normalize before).getLast?, Numeral.endsAt c = false := by
  have hall : ∀ c ∈ ['+', '-', '*', '/', '('], Numeral.endsAt c = false := by
    simp [Numeral.endsAt, Char.isDigit]
  exact fun c hc ↦ hall c (h.expects c hc)

end OperandGap

/-! ## Tokens around a gap -/

namespace Token

variable {p t q : List Char} {ts ws : List Token}

theorem star_notMem_head_append (ht : Spells t ts) (hne : ts ≠ [])
    (hstar : ∀ u ∈ ts, u.isStarred = false) : '*' ∉ (t ++ q).head? := by
  intro hmem
  rcases t with _ | ⟨c, cs⟩
  · exact hne (eq_nil_of_spells ht)
  · obtain ⟨u, hu, hstarred⟩ := (head_of_spells ht '*' hmem).2.2 rfl
    rw [hstar u (List.mem_of_mem_head? hu)] at hstarred
    cases hstarred

theorem apart_operator (ht : Spells t ts) (hstar : ∀ u ∈ ts, u.isStarred = false)
    (hhead : ∀ c ∈ q.head?, c ∈ ['+', '-', '*', '/', ')']) : Apart t q := by
  have hall : ∀ c ∈ ['+', '-', '*', '/', ')'],
      ¬ (c.isDigit = true ∨ c = '.' ∨ Numeral.isMark c = true) := by
    simp [Char.isDigit, Numeral.isMark]
  rintro l hl r hr (⟨-, hgo⟩ | ⟨rfl, -⟩)
  · exact hall r (hhead r hr) hgo
  · obtain ⟨u, hu, hstarred⟩ := (endsWith_of_spells ht '*' hl).2 rfl
    rw [hstar u (List.mem_of_getLast? hu)] at hstarred
    cases hstarred

/-- Only the power sign is cut off as a power. -/
theorem Spells.prefix_of_power (h : Spells q ws) (hblank : ∀ c ∈ q.head?, Text.isBlank c = false)
    (hpower : .power ∈ ws.head?) : ['*', '*'] <+: q := by
  cases h with
  | blank hc _ =>
    rw [hblank _ rfl] at hc
    cases hc
  | power => exact List.prefix_append ['*', '*'] _
  | ofChar ht _ =>
    cases hpower
    unfold ofChar? at ht
    split at ht <;> cases ht
  | _ => cases hpower

/-- **The text that fills a gap** is cut into tokens by itself. -/
theorem spells_around_iff (hmark : ∀ c ∈ p, Numeral.isMark c = false)
    (hlast : ∀ c ∈ p.getLast?, Numeral.endsAt c = false)
    (hhead : ∀ c ∈ q.head?, c ∈ ['+', '-', '*', '/', ')'])
    (ht : Spells t ts) (hne : ts ≠ []) (hstar : ∀ u ∈ ts, u.isStarred = false) :
    Spells (p ++ (t ++ q)) ws ↔ ∃ us vs, Spells p us ∧ Spells q vs ∧ ws = us ++ (ts ++ vs) := by
  have hfront : '*' ∉ (t ++ q).head? := star_notMem_head_append ht hne hstar
  have hback : Apart t q := apart_operator ht hstar hhead
  constructor
  · intro h
    obtain ⟨us, rest, hus, hrest, rfl⟩ := h.split (seam_of_operator hmark hlast hfront)
    have hlex : lex 0 (t ++ q) = .ok rest := lex_eq_ok_iff.mpr hrest
    rw [lex_append ht hback] at hlex
    rcases hq : lex (0 + byteLength t) q with cause | vs
    · rw [hq] at hlex
      cases hlex
    · rw [hq] at hlex
      exact ⟨us, vs, hus, lex_eq_ok_iff.mp hq, by rw [← Except.ok.inj hlex]⟩
  · rintro ⟨us, vs, hus, hvs, rfl⟩
    refine hus.append (ht.append hvs hback) ?_
    rintro l hl r hr (⟨hends, -⟩ | ⟨-, rfl⟩)
    · rw [hlast l hl] at hends
      cases hends
    · exact hfront hr

end Token

/-! ## Values around a gap -/

theorem toOption_eq_of_ok_iff {x y : Except EvalError Float}
    (h : ∀ v, x = .ok v ↔ y = .ok v) : x.toOption = y.toOption := by
  refine Option.ext fun v ↦ ?_
  have hsome : ∀ z : Except EvalError Float, z.toOption = some v ↔ z = .ok v := by
    rintro (e | w) <;> simp [Except.toOption]
  rw [hsome, hsome, h]

/-- A text has the value that its reduced text is read to. -/
theorem evaluate_eq_ok_iff_reads {cs r : List Char} (hr : reduce cs = .ok r) {v : Float} :
    evaluate cs = .ok v ↔ (∃ ts, Token.Spells r ts ∧ Reads start ts v) ∧ v.isFinite = true := by
  rw [← evaluateArithmetic_eq_ok_iff_reads, evaluate, hr, Except.bind]
  cases evaluateArithmetic r with
  | error cause => simp
  | ok x =>
    rw [finiteValue_eq_ok_iff, Except.ok.injEq]
    exact and_congr_right fun h ↦ by rw [h]

namespace OperandGap

variable {before after : List Char}

/-- Where the gap begins an operand has to start. -/
theorem operand_of_run (h : OperandGap before after) {us : List Token} {S : State}
    (hus : Token.Spells (normalize before) us) (hrun : run start us = .ok S) :
    ∃ stack, S = .operand stack := by
  have hall : ∀ c ∈ ['+', '-', '*', '/', '('], Text.isBlank c = false ∧ c ≠ ')' := by
    simp [Text.isBlank]
  refine Parser.operand_of_run hrun fun t ht ↦ ?_
  rcases hlast : (normalize before).getLast? with _ | c
  · rw [List.getLast?_eq_none_iff.mp hlast] at hus
    rw [Token.eq_nil_of_spells hus] at ht
    cases ht
  · obtain ⟨hblank, hparen⟩ := hall c (h.expects c hlast)
    obtain ⟨u, hu, hends⟩ := Token.endsIn_of_spells hus c hlast hblank
    obtain rfl : u = t := Option.some.inj (hu.symm.trans ht)
    rw [Bool.eq_false_iff]
    intro hoperand
    rcases hends.of_endsOperand hoperand with hchar | hchar
    · rw [h.endsAt_before c hlast] at hchar
      cases hchar
    · exact hparen hchar

/-- A filled gap is read in three parts: what is before it leaves a stack that waits for an
operand, and from there the filling is read with what follows. -/
theorem reads_around_iff (h : OperandGap before after) {t : List Char} {ts : List Token}
    {v : Float} (ht : Token.Spells t ts) (hne : ts ≠ [])
    (hstar : ∀ w ∈ ts, w.isStarred = false) :
    (∃ ws, Token.Spells (normalize before ++ (t ++ normalize after)) ws ∧ Reads start ws v) ↔
      ∃ bs vs stack, Token.Spells (normalize before) bs ∧ Token.Spells (normalize after) vs ∧
        run start bs = .ok (.operand stack) ∧ Reads (.operand stack) (ts ++ vs) v := by
  have haround : ∀ ws, Token.Spells (normalize before ++ (t ++ normalize after)) ws ↔ _ :=
    fun _ ↦ Token.spells_around_iff h.isMark_before h.endsAt_before h.follows ht hne hstar
  constructor
  · rintro ⟨ws, hws, hread⟩
    obtain ⟨bs, vs, hbs, hvs, rfl⟩ := (haround ws).mp hws
    obtain ⟨mid, hrun, hmid⟩ := reads_append_iff.mp hread
    obtain ⟨stack, rfl⟩ := h.operand_of_run hbs hrun
    exact ⟨bs, vs, stack, hbs, hvs, hrun, hmid⟩
  · rintro ⟨bs, vs, stack, hbs, hvs, hrun, hmid⟩
    refine ⟨bs ++ (ts ++ vs), (haround _).mpr ⟨bs, vs, hbs, hvs, rfl⟩, ?_⟩
    exact reads_append_iff.mpr ⟨_, hrun, hmid⟩

/-- **Two fillings of a gap** give the same value if they are read to the same value in front of the
tokens that follow. -/
theorem evaluate_eq_of_reads (h : OperandGap before after) {x y t u : List Char}
    {ts us : List Token}
    (hx : reduce x = .ok (normalize before ++ (t ++ normalize after)))
    (hy : reduce y = .ok (normalize before ++ (u ++ normalize after)))
    (ht : Token.Spells t ts) (htne : ts ≠ []) (htstar : ∀ w ∈ ts, w.isStarred = false)
    (hu : Token.Spells u us) (hune : us ≠ []) (hustar : ∀ w ∈ us, w.isStarred = false)
    (hreads : ∀ stack vs v, Token.Spells (normalize after) vs →
      (Reads (.operand stack) (ts ++ vs) v ↔ Reads (.operand stack) (us ++ vs) v)) :
    (evaluate x).toOption = (evaluate y).toOption := by
  refine toOption_eq_of_ok_iff fun v ↦ ?_
  rw [evaluate_eq_ok_iff_reads hx, evaluate_eq_ok_iff_reads hy,
    h.reads_around_iff ht htne htstar, h.reads_around_iff hu hune hustar]
  refine and_congr_left fun _ ↦ exists_congr fun bs ↦ exists_congr fun vs ↦
    exists_congr fun stack ↦ and_congr_right fun _ ↦ and_congr_right fun hvs ↦
      and_congr_right fun _ ↦ hreads stack vs v hvs

/-! ## Fillings -/

/-- A call in a gap is reduced to its value. -/
theorem reduce_call (h : OperandGap before after) (c : FiniteCall) :
    reduce (before ++ (c.text ++ after))
      = .ok (normalize before ++ (numberText c.value ++ normalize after)) := by
  have hinert : Inert (normalize before ++ (numberText c.value ++ normalize after)) :=
    h.inert_before.append ((inert_numberText _).append h.inert_after)
  have hword := reduce_words (fun d hd ↦ (h.plain_before d hd).1)
    (fun d hd ↦ (h.plain_after d hd).1) [.call c]
  rw [List.flatMap_singleton, List.flatMap_singleton] at hword
  exact hword.trans hinert.resolveFactorials_eq

/-- A text of tokens in a gap stays as it is. -/
theorem reduce_spells (h : OperandGap before after) {t : List Char} {ts : List Token}
    (ht : Token.Spells t ts) (hblank : ∀ c ∈ t, Text.isBlank c = false) :
    reduce (before ++ (t ++ after)) = .ok (normalize before ++ (t ++ normalize after)) := by
  have hchars := Token.isTokenChar_of_spells ht
  have hnormal : normalize t = t := normalize_of_isTokenChar fun c hc ↦ ⟨hchars c hc, hblank c hc⟩
  have hinert := h.inert_before.append ((inert_of_isTokenChar hchars).append h.inert_after)
  rw [reduce_eq_resolve, normalize_append, normalize_append, hnormal, hinert.resolve_eq]

/-- What is after the gap begins with a power only if its text does. -/
theorem power_notMem_head {vs : List Token} (hvs : Token.Spells (normalize after) vs)
    (hpower : ¬ ['*', '*'] <+: normalize after) : Token.power ∉ vs.head? := fun hmem ↦
  hpower (hvs.prefix_of_power
    (fun c hc ↦ isBlank_of_mem_normalize c (List.mem_of_mem_head? hc)) hmem)

end OperandGap

theorem isBlank_of_mem_parenthesized {s : List Char} (h : ∀ c ∈ s, Text.isBlank c = false) :
    ∀ c ∈ parenthesized s, Text.isBlank c = false := by
  refine List.forall_mem_cons.mpr ⟨by decide, List.forall_mem_append.mpr ⟨h, ?_⟩⟩
  exact List.forall_mem_singleton.mpr (by decide)

theorem isStarred_ofFloat (x : Float) : ∀ w ∈ (Expr.ofFloat x).tokens, w.isStarred = false := by
  rw [Expr.ofFloat]
  split <;> simp [Expr.tokens, Sign.token, Token.isStarred]

theorem isStarred_paren {e : Expr} (h : ∀ w ∈ e.tokens, w.isStarred = false) :
    ∀ w ∈ (Expr.paren e).tokens, w.isStarred = false := by
  simpa [Expr.tokens, Token.isStarred, or_imp, forall_and] using h

/-- The text of a number begins with a minus if the number has one. -/
theorem spells_behind_minus {x : Float} {u : List Char} (hx : x.isFinite = true)
    (h : numberText x = '-' :: u) :
    Expr.ofFloat x = .signed .minus (.number (-x)) ∧ Token.Spells u (Expr.number (-x)).tokens := by
  have hspells := Token.spells_numberText hx
  rw [h] at hspells
  obtain ⟨us, hus, htokens⟩ := hspells.cons_inv (t := .minus) rfl
  rw [Expr.ofFloat] at htokens ⊢
  split at htokens
  · rename_i hneg
    rw [if_pos hneg]
    obtain rfl : us = [.number (-x)] := (List.cons.inj htokens).2.symm
    exact ⟨rfl, hus⟩
  · cases htokens

variable {before after : List Char}

/-- A call is as good as its value in parentheses, if the value has no minus or no power follows. -/
theorem FiniteCall.evaluate_eq_paren (c : FiniteCall) (h : OperandGap before after)
    (hsign : Double.isNegative c.value = false ∨ ¬ ['*', '*'] <+: normalize after) :
    (evaluate (before ++ (c.text ++ after))).toOption
      = (evaluate (before ++ (parenthesized (numberText c.value) ++ after))).toOption := by
  have hvalue := Token.spells_numberText c.isFinite_value
  have hparen := spells_parenthesized hvalue
  have hstar := isStarred_ofFloat c.value
  have hblank := isBlank_of_mem_parenthesized (isBlank_of_mem_numberText c.isFinite_value)
  refine h.evaluate_eq_of_reads (h.reduce_call c) (h.reduce_spells hparen hblank) hvalue
    (Expr.tokens_ne_nil _) hstar hparen (Expr.tokens_ne_nil _) (isStarred_paren hstar) ?_
  exact fun stack vs v hvs ↦ reads_ofFloat_iff (hsign.imp_right (OperandGap.power_notMem_head hvs))

/-- A call whose value has a minus is as good as a minus in front of the rest in parentheses. -/
theorem FiniteCall.evaluate_eq_minus (c : FiniteCall) (h : OperandGap before after)
    {u : List Char} (hu : numberText c.value = '-' :: u) :
    (evaluate (before ++ (c.text ++ after))).toOption
      = (evaluate (before ++ ('-' :: parenthesized u ++ after))).toOption := by
  have hvalue := Token.spells_numberText c.isFinite_value
  obtain ⟨htree, hspells⟩ := spells_behind_minus c.isFinite_value hu
  rw [htree] at hvalue
  have hminus : Token.Spells ('-' :: parenthesized u)
      (Expr.signed .minus (.paren (.number (-c.value)))).tokens :=
    .ofChar rfl (spells_parenthesized hspells)
  have hblank : ∀ d ∈ '-' :: parenthesized u, Text.isBlank d = false := by
    have hall := isBlank_of_mem_numberText c.isFinite_value
    rw [hu] at hall
    obtain ⟨hd, hds⟩ := List.forall_mem_cons.mp hall
    exact List.forall_mem_cons.mpr ⟨hd, isBlank_of_mem_parenthesized hds⟩
  refine h.evaluate_eq_of_reads (h.reduce_call c) (h.reduce_spells hminus hblank) hvalue
    (Expr.tokens_ne_nil _) (by simp [Expr.tokens, Sign.token, Token.isStarred]) hminus
    (Expr.tokens_ne_nil _) (by simp [Expr.tokens, Sign.token, Token.isStarred]) ?_
  exact fun stack vs v _ ↦ reads_signed_iff

/-- **A call is one operand**, unless its value has a minus and it is the base of a power.  Then the
minus applies after the power. -/
theorem evaluate_call {f : MathFunction} {argument : List Char} {x : Float}
    (hclosed : ')' ∉ argument) (hread : evaluateArithmetic argument = .ok x)
    (hfinite : (f.apply x).isFinite = true) (hgap : OperandGap before after) :
    (Double.isNegative (f.apply x) = false ∨ ¬ ['*', '*'] <+: normalize after →
      (evaluate (before ++ (f.opening ++ (argument ++ [')']) ++ after))).toOption
        = (evaluate (before ++ (parenthesized (numberText (f.apply x)) ++ after))).toOption) ∧
      ∀ u, numberText (f.apply x) = '-' :: u →
        (evaluate (before ++ (f.opening ++ (argument ++ [')']) ++ after))).toOption
          = (evaluate (before ++ ('-' :: parenthesized u ++ after))).toOption := by
  let c : FiniteCall := ⟨f, argument, x, hclosed, evaluateArithmetic_normalize hread, hfinite⟩
  exact ⟨fun hsign ↦ c.evaluate_eq_paren hgap hsign, fun u hu ↦ c.evaluate_eq_minus hgap hu⟩

/-- A value with a minus, behind a minus and in front of a product. -/
theorem evaluate_call_minus_zero :
    evaluateArithmetic ['-', '0'] = .ok (-0) ∧ OperandGap ['2', '-'] ['×', '3'] ∧
      ¬ ['*', '*'] <+: normalize ['×', '3'] ∧
      numberText (MathFunction.sqrt.apply (-0)) = ['-', '0'] ∧
      (evaluate ['2', '-', 's', 'q', 'r', 't', '(', '-', '0', ')', '×', '3']).toOption
        = (evaluate ['2', '-', '(', '-', '0', ')', '×', '3']).toOption ∧
      (evaluate ['2', '-', 's', 'q', 'r', 't', '(', '-', '0', ')', '×', '3']).toOption
        = (evaluate ['2', '-', '-', '(', '0', ')', '×', '3']).toOption := by
  have hread : evaluateArithmetic ['-', '0'] = .ok (-0) := by decide +kernel
  have hbefore : normalize ['2', '-'] = ['2', '-'] := by decide
  have hafter : normalize ['×', '3'] = ['*', '3'] := by decide
  have hgap : OperandGap ['2', '-'] ['×', '3'] :=
    ⟨by simp [Char.isAlpha, Char.isUpper, Char.isLower],
      by simp [Char.isAlpha, Char.isUpper, Char.isLower], by simp [hbefore], by simp [hafter]⟩
  have hproduct : ¬ ['*', '*'] <+: normalize ['×', '3'] := by decide +kernel
  have htext : numberText (MathFunction.sqrt.apply (-0)) = ['-', '0'] := by decide +kernel
  have hfinite : (MathFunction.sqrt.apply (-0)).isFinite = true := by decide +kernel
  obtain ⟨hparen, hminus⟩ := evaluate_call (by decide) hread hfinite hgap
  have heq := hparen (Or.inr hproduct)
  rw [htext] at heq
  exact ⟨hread, hgap, hproduct, htext, heq, hminus ['0'] htext⟩

/-- As the base of a power, the call of a function whose value is minus zero is not its value: the
minus applies after the power.  The two differ as soon as every power with the exponent zero is
one. -/
theorem evaluate_call_power :
    evaluateArithmetic ['-', '0'] = .ok (-0) ∧ OperandGap [] ['^', '0'] ∧
      numberText (MathFunction.sqrt.apply (-0)) = ['-', '0'] ∧
      evaluate ['s', 'q', 'r', 't', '(', '-', '0', ')', '^', '0'] = finiteValue (-Float.pow 0 0) ∧
      evaluate ['(', '-', '0', ')', '^', '0'] = finiteValue (Float.pow (-0) 0) ∧
      ((∀ x : Float, Float.pow x 0 = 1) →
        evaluate ['s', 'q', 'r', 't', '(', '-', '0', ')', '^', '0'] = .ok (-1) ∧
          evaluate ['(', '-', '0', ')', '^', '0'] = .ok 1) := by
  have hcall : evaluate ['s', 'q', 'r', 't', '(', '-', '0', ')', '^', '0']
      = finiteValue (-Float.pow 0 0) := by
    have hreduce : reduce ['s', 'q', 'r', 't', '(', '-', '0', ')', '^', '0']
        = .ok ['-', '0', '*', '*', '0'] := by decide +kernel
    have hlex : tokenize ['-', '0', '*', '*', '0']
        = .ok (Expr.signed .minus (.binary .power (.number 0) (.number 0))).tokens := by
      decide +kernel
    have hvalue : (Expr.signed .minus (.binary .power (.number 0) (.number 0))).value
        = -Float.pow 0 0 := rfl
    rw [← hvalue]
    exact evaluate_of_reduce hreduce (Token.lex_eq_ok_iff.mp hlex)
      ⟨by decide, by decide, True.intro, by decide, True.intro⟩
  have hparen : evaluate ['(', '-', '0', ')', '^', '0'] = finiteValue (Float.pow (-0) 0) := by
    have hreduce : reduce ['(', '-', '0', ')', '^', '0']
        = .ok ['(', '-', '0', ')', '*', '*', '0'] := by decide +kernel
    have hlex : tokenize ['(', '-', '0', ')', '*', '*', '0']
        = .ok (Expr.binary .power (.paren (.signed .minus (.number 0))) (.number 0)).tokens := by
      decide +kernel
    have hvalue : (Expr.binary .power (.paren (.signed .minus (.number 0))) (.number 0)).value
        = Float.pow (-0) 0 := rfl
    rw [← hvalue]
    exact evaluate_of_reduce hreduce (Token.lex_eq_ok_iff.mp hlex)
      ⟨by decide, ⟨by decide, True.intro⟩, by decide, True.intro⟩
  have hafter : normalize ['^', '0'] = ['*', '*', '0'] := by decide
  have hgap : OperandGap [] ['^', '0'] :=
    ⟨by simp, by simp [Char.isAlpha, Char.isUpper, Char.isLower], by simp [normalize],
      by simp [hafter]⟩
  refine ⟨by decide +kernel, hgap, by decide +kernel, hcall, hparen, fun hpower ↦ ?_⟩
  rw [hcall, hparen, hpower, hpower]
  decide +kernel

end Calculator

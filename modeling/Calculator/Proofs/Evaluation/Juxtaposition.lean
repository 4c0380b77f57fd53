import Calculator.Proofs.Evaluation.Composition
import Calculator.Proofs.Language.Words
import Calculator.Proofs.Reduction.LastPass

/-!
# Operands next to each other

The arithmetic language has no juxtaposition: after an operand the parser waits for an operator.
But calls, factorials and pi are replaced by text before there are tokens, and so two operands that
are typed one behind the other need not be two operands when the parser sees them.  The texts of
words simply run together (`reduce_words`).

Operands `Clash` if this cannot lead to a value, whatever stands around them, and then the text is
an error (`evaluate_juxtaposed`).  There are three reasons for it.

* Nothing runs together with a parenthesis.  What stands in front of an opening one is an operand to
  the end (`evaluate_openParen`).  So is what stands behind a closing one, unless the parenthesis
  ends a call or a minus comes first (`evaluate_closeParen`).
* Two points cannot be in one number, and no point can be in an exponent (`evaluate_points`).
* A factorial takes all digits in front of it, and that of a large number has no value
  (`evaluate_factorial`).

With product signs it is the same: two of them run together to a power sign, whichever form they
have.
-/

set_option autoImplicit false

namespace Calculator

/-! ## Operands -/

/-- Anything that can be an operand. -/
inductive Operand where
  | word (w : Word)
  | paren (inner : List Char) (balanced : Balanced inner)

namespace Operand

def text : Operand → List Char
  | word w => w.text
  | paren inner _ => parenthesized inner

/-- The digits at the end, when all calls have been replaced. -/
def digitsAtEnd : Operand → List Char
  | word w => w.valueText.rtakeWhile Char.isDigit
  | paren _ _ => []

/-- Operands end like operands. -/
theorem endsOperand_text (x : Operand) :
    ∃ c ∈ (normalize x.text).getLast?, EndsOperand c := by
  have hclose : ∀ s : List Char, ∃ c ∈ (normalize (s ++ [')'])).getLast?, EndsOperand c := by
    intro s
    rw [normalize_append, (by decide : normalize [')'] = [')'])]
    exact ⟨')', List.getLast?_concat, Or.inr (Or.inl rfl)⟩
  cases x with
  | word w =>
    cases w with
    | number a =>
      rw [text, Word.text, a.normalize_text]
      cases a with
      | literal n =>
        have hlast := List.getLast?_eq_some_getLast (PlainText.ofNumber (.literal n)).nonempty
        exact ⟨_, hlast, Or.inl (Numeral.endsAt_text n.wellFormed n.complete _ hlast)⟩
      | pi =>
        obtain ⟨c, hc, hends⟩ := endsAt_numberText PlainAtom.isFinite_pi
        exact ⟨c, hc, Or.inl hends⟩
    | factorial ds =>
      rw [text, Word.text, normalize_append, (by decide : normalize ['!'] = ['!'])]
      exact ⟨'!', List.getLast?_concat, Or.inr (Or.inr rfl)⟩
    | call c =>
      obtain ⟨d, hd, hends⟩ := hclose (c.function.opening ++ c.argument)
      refine ⟨d, ?_, hends⟩
      rwa [List.append_assoc] at hd
  | paren inner _ => exact hclose ('(' :: inner)

end Operand

/-! ## Texts that have no value -/

/-- A text has no value if what it is reduced to spells no expression. -/
theorem exists_error {cs : List Char}
    (h : ∀ r e, reduce cs = .ok r → Expr.WellFormed e → ¬ Token.Spells r e.tokens) :
    ∃ cause, evaluate cs = .error cause := by
  rcases heval : evaluate cs with cause | v
  · exact ⟨cause, rfl⟩
  · obtain ⟨r, e, hr, hs, he, -, -⟩ := evaluate_eq_ok_iff.mp heval
    exact absurd hs (h r e hr he)

/-- **An operand in front of an opening parenthesis** is an error, whatever comes before and
after. -/
theorem evaluate_openParen {x y : List Char} (hx : ∃ c ∈ (normalize x).getLast?, EndsOperand c) :
    ∃ cause, evaluate (x ++ '(' :: y) = .error cause := by
  refine exists_error fun r e hr he ↦ ?_
  have hnormal : normalize (x ++ '(' :: y) = normalize x ++ '(' :: normalize y := by
    rw [normalize_append]
    rfl
  rw [reduce_eq_resolve, hnormal] at hr
  obtain ⟨a, b, rfl, ha⟩ := resolve_append_openParen hx hr
  exact not_spells_openParen he ha

/-! ### Behind a closing parenthesis -/

theorem depth?_normalize (d : Nat) (cs : List Char) : depth? d (normalize cs) = depth? d cs := by
  have hchar : ∀ c e, depth? e (normalizeChar c) = nest e c := by
    intro c e
    by_cases hc : c ≠ '(' ∧ c ≠ ')'
    · rw [nest_of_ne hc]
      refine depth?_of_forall_ne (fun b hb ↦ ?_) e
      rcases mem_normalizeChar hb with ⟨rfl, -⟩ | hmem
      · exact hc
      · have hall : ∀ b ∈ '*' :: '/' :: numberText pi, b ≠ '(' ∧ b ≠ ')' := by
          simp [numberText_pi]
        exact hall b hmem
    · have hparen : c = '(' ∨ c = ')' := by tauto
      rcases hparen with rfl | rfl
      · rw [(by decide : normalizeChar '(' = ['('])]
        exact depth?_singleton e _
      · rw [(by decide : normalizeChar ')' = [')'])]
        exact depth?_singleton e _
  induction cs generalizing d with
  | nil => rfl
  | cons c cs ih =>
    show depth? d (normalizeChar c ++ normalize cs) = _
    rw [depth?_append, hchar, depth?_cons]
    exact congrArg _ (funext fun e ↦ ih e)

/-- **An operand behind a closing parenthesis** is an error, unless the parenthesis can end a call
or the operand can begin with a minus. -/
theorem evaluate_closeParen {before inner after : List Char} {w : Word}
    (hinner : Balanced inner) (hname : ∀ f : MathFunction, ¬ f.name.toList <:+ normalize before)
    (hsign : '-' ∉ w.valueText.head?) :
    ∃ cause, evaluate (before ++ (parenthesized inner ++ (w.text ++ after))) = .error cause := by
  refine exists_error fun r e hr he ↦ ?_
  have hnormal : normalize (before ++ (parenthesized inner ++ (w.text ++ after)))
      = normalize before ++ '(' :: (normalize inner ++
          ')' :: (Piece.texts MathFunction.all [w.piece] ++ normalize after)) := by
    rw [normalize_append, normalize_parenthesized, normalize_append, w.normalize_text,
      Piece.texts, List.flatMap_singleton]
  rw [reduce_eq_resolve, hnormal] at hr
  have hbalanced : Balanced (normalize inner) := (depth?_normalize 0 inner).trans hinner
  obtain ⟨a, q, hrest⟩ := Piece.resolve_closeParen_texts (by decide) hname hbalanced hr
  rw [List.flatMap_singleton, resolveFactorials_append_cons
    ⟨startsNothing_closeParen.1, by decide⟩] at hrest
  obtain ⟨a', u, -, hu, rfl⟩ := inOrder_eq_ok_iff.mp hrest
  obtain ⟨b, hb, rfl⟩ := ok_inOrder_eq_ok_iff.mp hu
  obtain ⟨c, hc, hstarts⟩ := Word.starts_valueText hsign
  refine not_spells_closeParen he (starts_resolveFactorials hb ⟨c, ?_, hstarts⟩)
  exact List.mem_head?_append_of_mem_head? hc

/-! ### Two points -/

/-- The tail of a numeral in front of a point is kept by the last pass. -/
theorem resolveFactorials_tail {a u q r : List Char} (hu : NumeralTail u)
    (h : resolveFactorials (a ++ (u ++ '.' :: q)) = .ok r) :
    ∃ a' q', r = a' ++ (u ++ '.' :: q') := by
  obtain ⟨c, cs, rfl, hc, hcs⟩ := hu.eq_cons
  have hc' : Text.isDecimalDigit c = false ∧ c ≠ '!' := by
    rcases hc with rfl | rfl | rfl <;> decide
  have hkeep : resolveFactorials cs = .ok cs := (inert_of_isTokenChar hcs).resolveFactorials_eq
  rw [List.cons_append, resolveFactorials_append_cons hc', resolveFactorials_append_cons
    ⟨by decide, by decide⟩, hkeep] at h
  obtain ⟨a', x, -, hx, rfl⟩ := inOrder_eq_ok_iff.mp h
  obtain ⟨y, hy, rfl⟩ := ok_inOrder_eq_ok_iff.mp hx
  obtain ⟨z, hz, rfl⟩ := ok_inOrder_eq_ok_iff.mp hy
  obtain ⟨q', -, rfl⟩ := ok_inOrder_eq_ok_iff.mp hz
  exact ⟨a', q', by simp⟩

/-- **Two words with points** are an error, and so are a word with an exponent and one with a point
behind it. -/
theorem evaluate_points {before after : List Char} {v w : Word}
    (hv : ∃ c ∈ v.valueText, c = '.' ∨ Numeral.isMark c = true) (hw : '.' ∈ w.valueText)
    (hsign : '-' ∉ w.valueText.head?) :
    ∃ cause, evaluate (before ++ ([v, w].flatMap Word.text ++ after)) = .error cause := by
  refine exists_error fun r e hr he ↦ ?_
  obtain ⟨a, u, hvalue, htail⟩ := Word.exists_tail hv
  obtain ⟨ds, rest, hds, hpoint⟩ := Word.exists_point hsign hw
  have htail' := htail.append_digits hds
  have hvalues : ([v, w].map Word.piece).flatMap Piece.valueText
      = a ++ ((u ++ ds) ++ '.' :: rest) := by
    rw [Word.flatMap_valueText, List.flatMap_cons, List.flatMap_singleton, hvalue, hpoint]
    simp
  rw [reduce_eq_resolve, Word.normalize_around] at hr
  obtain ⟨a', q', hrest⟩ := Piece.resolve_texts (by decide) (by simp)
    (hvalues ▸ htail'.unreadable a rest) hr
  have hsplit : a' ++ ((a ++ ((u ++ ds) ++ '.' :: rest)) ++ q')
      = (a' ++ a) ++ ((u ++ ds) ++ '.' :: (rest ++ q')) := by simp
  rw [hvalues, hsplit] at hrest
  obtain ⟨b, q, rfl⟩ := resolveFactorials_tail htail' hrest
  exact fun hs ↦ htail'.not_isChain hs (Expr.isChain_tokens he)

/-! ### Large factorials -/

/-- **A factorial of a large number** is an error, and the digits of the words in front of it
count. -/
theorem evaluate_factorial (before after : List Char) (ws : List Word) {ds : Digits}
    (hlarge : maxFactorial <
      Nat.ofDigitChars 10 ((ws.flatMap Word.valueText).rtakeWhile Char.isDigit ++ ds.chars) 0) :
    ∃ cause, evaluate (before ++ ((ws ++ [Word.factorial ds]).flatMap Word.text ++ after))
      = .error cause := by
  refine exists_error fun r e hr he _ ↦ ?_
  have hvalues : ((ws ++ [Word.factorial ds]).map Word.piece).flatMap Piece.valueText
      = (ws.flatMap Word.valueText).rdropWhile Char.isDigit ++
          ((ws.flatMap Word.valueText).rtakeWhile Char.isDigit ++ ds.chars ++ ['!']) := by
    rw [Word.flatMap_valueText, List.flatMap_append, List.flatMap_singleton,
      Word.valueText_factorial, List.append_assoc, ← List.append_assoc (List.rdropWhile _ _),
      List.rdropWhile_append_rtakeWhile]
  have hunreadable :
      Unreadable (((ws ++ [Word.factorial ds]).map Word.piece).flatMap Piece.valueText) :=
    unreadable_of_mem (c := '!') (by rw [hvalues]; simp) (by decide)
  have hdigits : ∀ c ∈ (ws.flatMap Word.valueText).rtakeWhile Char.isDigit ++ ds.chars,
      c.isDigit = true :=
    List.forall_mem_append.mpr ⟨fun c hc ↦ List.mem_rtakeWhile_imp hc, ds.ascii⟩
  rw [reduce_eq_resolve, Word.normalize_around] at hr
  obtain ⟨a, q, hrest⟩ := Piece.resolve_texts (by decide) (by simp) hunreadable hr
  rw [hvalues] at hrest
  refine not_suffix_of_large (by simp [ds.nonempty]) hdigits hlarge hrest (b := q)
    ⟨a ++ (ws.flatMap Word.valueText).rdropWhile Char.isDigit, ?_⟩
  simp

/-! ## All operands -/

/-- Two operands that cannot be read next to each other behind the text `before`. -/
inductive Clash (before : List Char) : Operand → Operand → Prop where
  /-- The second one is in parentheses. -/
  | openParen (x : Operand) (inner : List Char) (hinner : Balanced inner) :
      Clash before x (.paren inner hinner)
  /-- The first one is in parentheses, which are not those of a call, and no minus follows. -/
  | closeParen (inner : List Char) (hinner : Balanced inner) (w : Word)
      (hname : ∀ f : MathFunction, ¬ f.name.toList <:+ normalize before)
      (hsign : '-' ∉ w.valueText.head?) : Clash before (.paren inner hinner) (.word w)
  /-- The first one has a point or an exponent, the second one has a point and no minus. -/
  | points (v w : Word) (hv : ∃ c ∈ v.valueText, c = '.' ∨ Numeral.isMark c = true)
      (hw : '.' ∈ w.valueText) (hsign : '-' ∉ w.valueText.head?) :
      Clash before (.word v) (.word w)
  /-- The second one is a factorial, too large with the digits that it takes from the first one. -/
  | factorial (x : Operand) (ds : Digits)
      (hlarge : maxFactorial < Nat.ofDigitChars 10 (x.digitsAtEnd ++ ds.chars) 0) :
      Clash before x (.word (.factorial ds))
  /-- The first one is a factorial that is too large by itself. -/
  | largeFactorial (ds : Digits) (hlarge : maxFactorial < ds.number) (y : Operand) :
      Clash before (.word (.factorial ds)) y

/-- Operands that clash are an error, whatever stands around them. -/
theorem Clash.evaluate_eq_error {before : List Char} {x y : Operand} (h : Clash before x y)
    (after : List Char) :
    ∃ cause, evaluate (before ++ (x.text ++ (y.text ++ after))) = .error cause := by
  cases h with
  | openParen x inner hinner =>
    obtain ⟨c, hc, hends⟩ := x.endsOperand_text
    have hlast : c ∈ (normalize (before ++ x.text)).getLast? := by
      rw [normalize_append]
      exact List.mem_getLast?_append_of_mem_getLast? hc
    have herror := evaluate_openParen (y := inner ++ ')' :: after) ⟨c, hlast, hends⟩
    rw [List.append_assoc] at herror
    simpa [Operand.text, parenthesized] using herror
  | closeParen inner hinner w hname hsign => exact evaluate_closeParen hinner hname hsign
  | points v w hv hw hsign => simpa [Operand.text] using evaluate_points hv hw hsign
  | factorial x ds hlarge =>
    cases x with
    | word v =>
      have hvalue : [v].flatMap Word.valueText = v.valueText := List.flatMap_singleton ..
      rw [Operand.digitsAtEnd, ← hvalue] at hlarge
      simpa [Operand.text] using evaluate_factorial before after [v] hlarge
    | paren inner _ =>
      simpa [Operand.text] using evaluate_factorial (before ++ parenthesized inner) after [] hlarge
  | largeFactorial ds hlarge y =>
    simpa [Operand.text] using evaluate_factorial before (y.text ++ after) [] hlarge

/-- What two product signs, one behind the other, are read as. -/
theorem normalize_products {s t : Char} (hs : s ∈ ['*', '×']) (ht : t ∈ ['*', '×'])
    (rest : List Char) : normalize (s :: t :: rest) = normalize ('^' :: rest) := by
  have hstar : ∀ c ∈ ['*', '×'], normalizeChar c = ['*'] := by
    intro c hc
    rcases List.mem_pair.mp hc with rfl | rfl <;> decide
  have hpower : normalizeChar '^' = ['*', '*'] := by decide
  show normalizeChar s ++ (normalizeChar t ++ normalize rest) = normalizeChar '^' ++ normalize rest
  rw [hstar s hs, hstar t ht, hpower]
  rfl

/-- **Operands next to each other** are an error if they clash.  Between texts without letters, words
are otherwise read as what their texts make together.  Two product signs next to each other, in
whichever form, are a power sign. -/
theorem evaluate_juxtaposed (before after : List Char) :
    (∀ x y : Operand, Clash before x y →
      ∃ cause, evaluate (before ++ (x.text ++ (y.text ++ after))) = .error cause) ∧
    (∀ v w : Word, (∀ c ∈ before ++ after, c.isAlpha = false) →
      reduce (before ++ (v.text ++ (w.text ++ after)))
        = resolveFactorials (normalize before ++ (v.valueText ++ (w.valueText ++ normalize after)))) ∧
    ∀ s ∈ ['*', '×'], ∀ t ∈ ['*', '×'],
      evaluate (before ++ s :: t :: after) = evaluate (before ++ '^' :: after) := by
  refine ⟨fun x y h ↦ h.evaluate_eq_error after, fun v w h ↦ ?_, fun s hs t ht ↦ ?_⟩
  · obtain ⟨hbefore, hafter⟩ := List.forall_mem_append.mp h
    simpa using reduce_words hbefore hafter [v, w]
  · have hnormal : normalize (before ++ s :: t :: after) = normalize (before ++ '^' :: after) := by
      rw [normalize_append, normalize_products hs ht, ← normalize_append]
    rw [evaluate, evaluate, reduce, hnormal, ← reduce]

/-- One clash of each kind behind a plus, digits that run on into pi, and two product signs. -/
theorem evaluate_juxtaposed_pi :
    (∃ cause, evaluate ['1', '+', 'π', '(', '2', ')'] = .error cause) ∧
    (∃ cause, evaluate ['1', '+', '(', '2', ')', 'π'] = .error cause) ∧
    (∃ cause, evaluate ['1', '+', 'π', 'π'] = .error cause) ∧
    (∃ cause, evaluate ['1', '+', 'π', '3', '!'] = .error cause) ∧
    (∃ cause, evaluate ['1', '+', '1', '7', '1', '!', 'π'] = .error cause) ∧
    reduce ['1', '+', '3', '!', 'π']
      = resolveFactorials (['1', '+', '3', '!'] ++ numberText pi) ∧
    evaluate ['2', '×', '×', '3'] = evaluate ['2', '^', '3'] := by
  let three : Digits := ⟨['3'], by simp, by simp [Char.isDigit]⟩
  let large : Digits := ⟨['1', '7', '1'], by simp, by simp [Char.isDigit]⟩
  have hname : ∀ f : MathFunction, ¬ f.name.toList <:+ normalize ['1', '+'] := by
    intro f
    cases f <;> decide
  have htext : (Word.number .pi).valueText = numberText pi := by
    rw [Word.valueText_number, PlainAtom.normalText]
  have hpoint : '.' ∈ (Word.number .pi).valueText := by simp [htext, numberText_pi]
  have hsign : '-' ∉ (Word.number .pi).valueText.head? := by simp [htext, numberText_pi]
  have hdigits : maxFactorial < Nat.ofDigitChars 10
      ((Operand.word (.number .pi)).digitsAtEnd ++ three.chars) 0 := by
    rw [Operand.digitsAtEnd, htext, numberText_pi]
    decide +kernel
  have hletters : ∀ c ∈ ['1', '+'] ++ [], Char.isAlpha c = false := by
    simp [Char.isAlpha, Char.isUpper, Char.isLower]
  have hnormal : normalize ['1', '+'] = ['1', '+'] := by decide
  obtain ⟨hclash, hwords, -⟩ := evaluate_juxtaposed ['1', '+'] []
  have herror : ∀ {x y : Operand} {cs : List Char}, Clash ['1', '+'] x y →
      ['1', '+'] ++ (x.text ++ (y.text ++ [])) = cs → ∃ cause, evaluate cs = .error cause :=
    fun h heq ↦ heq ▸ hclash _ _ h
  have hrun := hwords (.factorial three) (.number .pi) hletters
  rw [htext, hnormal, Word.valueText_factorial] at hrun
  obtain ⟨-, -, hproducts⟩ := evaluate_juxtaposed ['2'] ['3']
  exact ⟨herror (.openParen (.word (.number .pi)) ['2'] (by decide)) rfl,
    herror (.closeParen ['2'] (by decide) (.number .pi) hname hsign) rfl,
    herror (.points (.number .pi) (.number .pi) ⟨'.', hpoint, Or.inl rfl⟩ hpoint hsign) rfl,
    herror (.factorial (.word (.number .pi)) three hdigits) rfl,
    herror (.largeFactorial large (by decide) (.word (.number .pi))) rfl,
    by simpa [Word.text, PlainAtom.text, three, normalize] using hrun,
    hproducts '×' (by simp) '×' (by simp)⟩

/-- Operands that do not clash have a value when they are typed one behind the other: a number and
pi, two factorials, a call and a number, and a parenthesis and a call whose value has a minus.  Two
product signs have the value of a power. -/
theorem evaluate_two_pi :
    evaluate ['2', 'π'] = .ok 23.141592653589793 ∧
    evaluate ['3', '!', '4', '!'] = .ok 624 ∧
    evaluate ['s', 'q', 'r', 't', '(', '4', ')', '3'] = .ok 23 ∧
    evaluate ['(', '2', ')', 's', 'q', 'r', 't', '(', '-', '0', ')'] = .ok 2 ∧
    evaluate ['2', '×', '×', '3'] = finiteValue (Float.pow 2 3) := by
  have hpower : evaluate ['2', '×', '×', '3'] = finiteValue (Float.pow 2 3) := by
    have hreduce : reduce ['2', '×', '×', '3'] = .ok ['2', '*', '*', '3'] := by decide +kernel
    have hlex : tokenize ['2', '*', '*', '3']
        = .ok (Expr.binary .power (.number 2) (.number 3)).tokens := by decide +kernel
    have hvalue : (Expr.binary .power (.number 2) (.number 3)).value = Float.pow 2 3 := rfl
    rw [← hvalue]
    exact evaluate_of_reduce hreduce (Token.lex_eq_ok_iff.mp hlex)
      ⟨by decide, True.intro, by decide, True.intro⟩
  exact ⟨by decide +kernel, by decide +kernel, by decide +kernel, by decide +kernel, hpower⟩

end Calculator

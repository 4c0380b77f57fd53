import Calculator.Proofs.Expr.Beginnings
import Calculator.Proofs.Expr.Faults
import Calculator.Proofs.Language.Calls
import Calculator.Proofs.Reduction.LastPass

/-!
# Where an error comes from

An error is reported about a text that the person has not seen, because calls and factorials have
been replaced in it.  This file says what can be relied on all the same (`evaluate_causes`).

* That an expression is empty is said of nothing but blanks and separators.
* An argument that is named in an error is one that the program has read, as it is quoted, and it is
  never empty.  The cause that is reported is the one that this text has by itself.

What is behind both is that normalising makes a text *compact* (`Compact`), without any character
that is ignored, and that a pass keeps it so.  A match is replaced by the text of a number, which is
compact and not empty; so nothing but the empty text becomes empty in a pass, and the arguments that
a pass comes to are as compact as its text.  A pass that fails does so at one of its matches
(`Pattern.exists_of_replaceAll_error`).
-/

set_option autoImplicit false

namespace Calculator

/-! ## The errors of arithmetic texts -/

/-- The lexer knows of no empty text. -/
theorem tokenize_ne_empty (s : List Char) : tokenize s ≠ .error .empty := by
  intro h
  obtain ⟨_, _, _, -, -, hfault, -⟩ := Token.firstFault_of_lex h
  cases hfault

/-- Nor does the parser: it names a token, or what is missing at the end. -/
theorem parse_ne_empty (ts : List Token) : parse ts ≠ .error .empty := by
  intro h
  rw [parse] at h
  rcases hrun : Parser.run Parser.start ts with cause | state
  · rw [hrun] at h
    cases h
    obtain ⟨_, _, _, _, -, -, hstep⟩ := Parser.exists_step_of_run_error hrun
    cases Parser.eq_of_step_error hstep
  · rw [hrun] at h
    replace h : Parser.finish state = .error .empty := h
    unfold Parser.finish at h
    split at h
    · cases h
    · split at h <;> cases h

/-- **An arithmetic text is called empty** if it is blank. -/
theorem evaluateArithmetic_eq_empty_iff {s : List Char} :
    evaluateArithmetic s = .error .empty ↔ ∀ c ∈ s, Text.isBlank c = true := by
  rw [← Token.spells_nil_iff, ← @Token.lex_eq_ok_iff 0]
  show _ ↔ tokenize s = .ok []
  rcases hs : tokenize s with cause | ts
  · have hne : cause ≠ .empty := fun heq ↦ tokenize_ne_empty s (heq ▸ hs)
    simpa [evaluateArithmetic, hs] using hne
  · cases ts with
    | nil => simp [evaluateArithmetic, hs]
    | cons t ts =>
      have hne := parse_ne_empty (t :: ts)
      rw [evaluateArithmetic_of_tokenize hs (List.cons_ne_nil t ts)]
      rcases hparse : parse (t :: ts) with cause | e
      · rw [hparse] at hne
        simpa [Except.map] using hne
      · simp [Except.map]

/-! ## Compact texts -/

/-- No character of the text is ignored. -/
def Compact (cs : List Char) : Prop := ∀ c ∈ cs, isIgnored c = false

theorem Compact.of_suffix {u cs : List Char} (h : Compact cs) (hu : u <:+ cs) : Compact u :=
  fun c hc ↦ h c (hu.subset hc)

/-- A compact text that is blank is empty. -/
theorem Compact.eq_nil_of_isBlank {cs : List Char} (h : Compact cs)
    (hblank : ∀ c ∈ cs, Text.isBlank c = true) : cs = [] := by
  refine List.eq_nil_iff_forall_not_mem.mpr fun c hc ↦ ?_
  have hnot := (Bool.or_eq_false_iff.mp (h c hc)).1
  rw [hblank c hc] at hnot
  cases hnot

/-- Only what is ignored disappears when a text is normalised. -/
theorem normalize_eq_nil_iff {cs : List Char} :
    normalize cs = [] ↔ ∀ c ∈ cs, isIgnored c = true := by
  have hone : ∀ c, normalizeChar c = [] ↔ isIgnored c = true := by
    intro c
    have hpi : numberText pi ≠ [] := by rw [numberText_pi]; exact List.cons_ne_nil _ _
    unfold normalizeChar
    repeat' split
    all_goals simp_all
  simp [normalize, List.flatMap_eq_nil_iff, hone]

/-- The text of a number is compact and not empty. -/
theorem compact_numberText {x : Float} (h : x.isFinite = true) :
    numberText x ≠ [] ∧ Compact (numberText x) := by
  refine ⟨(numberText_disjoint h).1, fun c hc ↦ ?_⟩
  refine Bool.or_eq_false_iff.mpr ⟨isBlank_of_mem_numberText h c hc, ?_⟩
  rw [beq_eq_false_iff_ne]
  rintro rfl
  exact absurd (mem_numberText h _ hc) (by decide)

/-! ## What a pass does to a compact text -/

namespace Pattern

variable {α : Type} {p : Pattern α} {replace : α → Except EvalError (List Char)}
  {cs r : List Char}

/-- A pass keeps a text compact and makes none empty, if what it writes is compact and not empty. -/
theorem compact_of_replaceAll (hp : p.LeavesSuffix)
    (htext : ∀ m t, replace m = .ok t → t ≠ [] ∧ Compact t) (h : p.replaceAll replace cs = .ok r)
    (hcs : Compact cs) : Compact r ∧ (r = [] → cs = []) := by
  revert hcs
  refine replaceAll_induction (p := p)
    (motive := fun cs r ↦ Compact cs → Compact r ∧ (r = [] → cs = [])) ?_ ?_ ?_ h
  · exact fun hnil ↦ ⟨hnil, fun _ ↦ rfl⟩
  · intro c cs r _ _ ih hcs
    obtain ⟨hc, hcs⟩ := List.forall_mem_cons.mp hcs
    exact ⟨List.forall_mem_cons.mpr ⟨hc, (ih hcs).1⟩, fun hnil ↦ (nomatch hnil)⟩
  · intro cs rest m t r hm ht _ ih hcs
    obtain ⟨hne, hcompact⟩ := htext m t ht
    refine ⟨List.forall_mem_append.mpr ⟨hcompact, (ih (hcs.of_suffix (hp hm))).1⟩, fun hnil ↦ ?_⟩
    exact absurd (List.append_eq_nil_iff.mp hnil).1 hne

/-- **A pass that fails** does so at one of its matches. -/
theorem exists_of_replaceAll_error (hp : p.LeavesSuffix) {e : EvalError}
    (h : p.replaceAll replace cs = .error e) :
    ∃ u m rest, u <:+ cs ∧ p.match? u = some (m, rest) ∧ replace m = .error e := by
  induction hn : cs.length using Nat.strongRecOn generalizing cs with
  | ind n ih =>
    subst hn
    rcases hm : p.match? cs with _ | ⟨m, rest⟩
    · cases cs with
      | nil =>
        rw [replaceAll_nil] at h
        cases h
      | cons c cs =>
        rw [replaceAll_cons p replace hm] at h
        rcases inOrder_eq_error h with hkept | hrest
        · cases hkept
        · obtain ⟨u, m, after, hu, hmatch⟩ := ih cs.length (Nat.lt_succ_self _) hrest rfl
          exact ⟨u, m, after, hu.trans (List.suffix_cons c cs), hmatch⟩
    · rw [replaceAll_of_some p replace hm] at h
      rcases inOrder_eq_error h with hreplaced | hrest
      · exact ⟨cs, m, rest, List.suffix_rfl, hm, hreplaced⟩
      · obtain ⟨u, m, after, hu, hmatch⟩ := ih rest.length (p.shorter hm) hrest rfl
        exact ⟨u, m, after, hu.trans (hp hm), hmatch⟩

end Pattern

/-! ## The errors of passes -/

/-- What a pass through a compact text can report: a value that is not finite, or an argument that
is no arithmetic expression, with the cause that it has by itself. -/
inductive EvalError.OfPass : EvalError → Prop where
  | notFinite : OfPass .notFinite
  | functionArgument {f : MathFunction} {argument : List Char} {cause : ArithmeticError}
      (hne : argument ≠ []) (hclosed : ')' ∉ argument) (hcompact : Compact argument)
      (hread : evaluateArithmetic argument = .error cause) :
      OfPass (.functionArgument f (String.ofList argument) cause)

section

variable {cs r : List Char} {e : EvalError}

/-- **A pass for calls.** -/
theorem MathFunction.ofPass_of_resolveCalls {f : MathFunction} (h : resolveCalls cs f = .error e)
    (hcs : Compact cs) : e.OfPass := by
  obtain ⟨u, argument, rest, hu, hm, ht⟩ :=
    Pattern.exists_of_replaceAll_error f.calls_leavesSuffix h
  obtain ⟨rfl, hne, hclosed⟩ := call?_eq_some_iff.mp hm
  have hcompact : Compact argument :=
    fun c hc ↦ hcs.of_suffix hu c (List.mem_append_right _ (List.mem_append_left _ hc))
  rw [callText] at ht
  rcases hread : evaluateArithmetic argument with cause | x
  · rw [hread] at ht
    cases ht
    exact .functionArgument hne hclosed hcompact hread
  · rw [hread] at ht
    cases finiteText_eq_error ht
    exact .notFinite

/-- The pass for factorials. -/
theorem ofPass_of_resolveFactorials (h : resolveFactorials cs = .error e) : e.OfPass := by
  obtain ⟨_, digits, _, -, -, ht⟩ :=
    Pattern.exists_of_replaceAll_error factorials_leavesSuffix h
  simp only [factorialText] at ht
  split at ht
  · cases finiteText_eq_error ht
    exact .notFinite
  · cases ht
    exact .notFinite

theorem MathFunction.compact_of_resolveCalls {f : MathFunction} (h : resolveCalls cs f = .ok r)
    (hcs : Compact cs) : Compact r ∧ (r = [] → cs = []) := by
  refine Pattern.compact_of_replaceAll f.calls_leavesSuffix (fun argument t ht ↦ ?_) h hcs
  obtain ⟨x, -, hfinite, rfl⟩ := callText_eq_ok_iff.mp ht
  exact compact_numberText hfinite

/-- **All passes**, by induction on the functions that are left: each keeps its text compact for the
next one. -/
theorem compact_of_resolve {fs : List MathFunction} (h : resolve fs cs = .ok r)
    (hcs : Compact cs) : Compact r ∧ (r = [] → cs = []) := by
  induction fs generalizing cs with
  | nil =>
    refine Pattern.compact_of_replaceAll factorials_leavesSuffix (fun digits t ht ↦ ?_) h hcs
    obtain ⟨-, n, hfinite, rfl⟩ := factorialText_eq_ok ht
    exact compact_numberText hfinite
  | cons f fs ih =>
    obtain ⟨next, hnext, hrest⟩ := resolve_cons_eq_ok h
    obtain ⟨hpass, hpassnil⟩ := MathFunction.compact_of_resolveCalls hnext hcs
    obtain ⟨hcompact, hnil⟩ := ih hrest hpass
    exact ⟨hcompact, fun heq ↦ hpassnil (hnil heq)⟩

/-- The pass that fails is one through a compact text. -/
theorem ofPass_of_resolve {fs : List MathFunction} (h : resolve fs cs = .error e)
    (hcs : Compact cs) : e.OfPass := by
  induction fs generalizing cs with
  | nil => exact ofPass_of_resolveFactorials h
  | cons f fs ih =>
    rw [resolve] at h
    rcases hnext : resolveCalls cs f with cause | next
    · rw [hnext] at h
      cases h
      exact MathFunction.ofPass_of_resolveCalls hnext hcs
    · rw [hnext] at h
      exact ih h (MathFunction.compact_of_resolveCalls hnext hcs).1

end

/-! ## Evaluations -/

/-- An evaluation fails in a pass, where the reduced text is read, or at its value. -/
theorem evaluate_eq_error {cs : List Char} {e : EvalError} (h : evaluate cs = .error e) :
    e.OfPass ∨ ∃ r cause, reduce cs = .ok r ∧ evaluateArithmetic r = .error cause ∧
      e = .arithmetic cause := by
  rcases hreduce : reduce cs with cause | r
  · rw [evaluate, hreduce] at h
    cases h
    rw [reduce_eq_resolve] at hreduce
    exact Or.inl (ofPass_of_resolve hreduce isIgnored_of_mem_normalize)
  · rcases hread : evaluateArithmetic r with cause | x
    · rw [evaluate, hreduce, Except.bind, hread] at h
      exact Or.inr ⟨r, cause, rfl, hread, (Except.error.inj h).symm⟩
    · rw [evaluate, hreduce, Except.bind, hread] at h
      replace h : finiteValue x = .error e := h
      unfold finiteValue at h
      split at h <;> cases h
      exact Or.inl .notFinite

/-- Nothing but blanks and separators is called empty. -/
theorem evaluate_eq_empty_iff {cs : List Char} :
    evaluate cs = .error (.arithmetic .empty) ↔ ∀ c ∈ cs, isIgnored c = true := by
  rw [← normalize_eq_nil_iff]
  constructor
  · intro h
    rcases evaluate_eq_error h with hpass | ⟨r, cause, hreduce, hread, heq⟩
    · cases hpass
    · cases heq
      rw [reduce_eq_resolve] at hreduce
      obtain ⟨hcompact, hnil⟩ := compact_of_resolve hreduce isIgnored_of_mem_normalize
      exact hnil (hcompact.eq_nil_of_isBlank (evaluateArithmetic_eq_empty_iff.mp hread))
  · intro h
    rw [evaluate, reduce_eq_resolve, h, resolve_nil, Except.bind, evaluateArithmetic_nil]

/-- **What an error is about.**  An expression is called empty exactly if it has nothing in it but
blanks and commas.  If the argument of a function is said to be at fault, then it is not empty, it
has no blanks, no commas and no closing parentheses, and the cause is the one it has as an
arithmetic expression.  This cause is a character, a malformed number, a token or what is missing at
the end; it is neither that the argument is empty nor an error of an evaluation. -/
theorem evaluate_causes (cs : List Char) :
    (evaluate cs = .error (.arithmetic .empty) ↔
      ∀ c ∈ cs, Text.isBlank c = true ∨ c = ',') ∧
    ∀ f argument cause, evaluate cs = .error (.functionArgument f argument cause) →
      argument ≠ "" ∧
      (∀ c ∈ argument.toList, c ≠ ')' ∧ Text.isBlank c = false ∧ c ≠ ',') ∧
      evaluateArithmetic argument.toList = .error cause ∧
      ((∃ found offset, cause = .unexpectedChar found offset) ∨
        (∃ text, cause = .malformedNumber text) ∨ (∃ found, cause = .unexpectedToken found) ∨
        cause = .unexpectedEnd ∨ cause = .unclosedParen) := by
  constructor
  · simp [evaluate_eq_empty_iff, isIgnored, Text.separator]
  · intro f argument cause h
    rcases evaluate_eq_error h with hpass | ⟨_, _, -, -, heq⟩
    · cases hpass with
      | functionArgument hne hclosed hcompact hread =>
        rename_i argument
        refine ⟨by simpa using hne, ?_, by simpa using hread, ?_⟩
        · rw [String.toList_ofList]
          intro c hc
          obtain ⟨hblank, hcomma⟩ := Bool.or_eq_false_iff.mp (hcompact c hc)
          exact ⟨fun heq ↦ hclosed (heq ▸ hc), hblank, beq_eq_false_iff_ne.mp hcomma⟩
        · cases cause with
          | empty =>
            have hblank := evaluateArithmetic_eq_empty_iff.mp hread
            exact absurd (hcompact.eq_nil_of_isBlank hblank) hne
          | _ => simp
    · cases heq

/-- The argument is quoted with the value of the call in it, and without the blank and the comma. -/
theorem evaluate_causes_substituted :
    let cs := ['l', 'n', '(', ' ', 's', 'q', 'r', 't', '(', '1', ',', '6', ')', '+', ')']
    evaluate cs = .error (.functionArgument .ln "4+" .unexpectedEnd) ∧
      evaluate [' ', ','] = .error (.arithmetic .empty) ∧
      "4+" ≠ "" ∧ (∀ c ∈ "4+".toList, c ≠ ')' ∧ Text.isBlank c = false ∧ c ≠ ',') ∧
      evaluateArithmetic "4+".toList = .error .unexpectedEnd := by
  intro cs
  have h : evaluate cs = .error (.functionArgument .ln "4+" .unexpectedEnd) := by decide +kernel
  have hempty : evaluate [' ', ','] = .error (.arithmetic .empty) :=
    (evaluate_causes _).1.mpr (by simp [Text.isBlank])
  obtain ⟨hne, hmem, hread, -⟩ := (evaluate_causes cs).2 _ _ _ h
  exact ⟨h, hempty, hne, hmem, hread⟩

end Calculator

import Calculator.Evaluation
import Calculator.Proofs.Expr.Lexing
import Calculator.Proofs.Reduction.Matches

/-!
# From stage to stage

An expression goes through one pass for each function and one for the factorials.  `resolve fs` is
what is still to be done when the functions `fs` are left, so that a fact about all passes is proved
by induction on the functions, with the factorials at the end.

A part of a text that no pass can change is kept to the end (`resolve_keep`).  A part in parentheses
goes through the passes by itself, whatever stands behind it (`resolve_append_closeParen`), and this
is where a text could have spoilt it: with a call that it opens and does not close, which would take
its closing parenthesis from outside.  Such a text never becomes an arithmetic one.  The first
letter of the call's name is still there after the last pass (`mem_of_resolve`), because what stands
behind it has no closing parenthesis and so holds no call, and no call can reach over it either.
-/

set_option autoImplicit false

namespace Calculator

/-- The passes that are left when only the calls of these functions are unresolved. -/
def resolve : List MathFunction → List Char → Except EvalError (List Char)
  | [], cs => resolveFactorials cs
  | f :: fs, cs => (resolveCalls cs f).bind (resolve fs)

theorem resolve_cons_eq_ok {f : MathFunction} {fs : List MathFunction} {cs r : List Char}
    (h : resolve (f :: fs) cs = .ok r) :
    ∃ next, resolveCalls cs f = .ok next ∧ resolve fs next = .ok r := by
  rw [resolve] at h
  cases hnext : resolveCalls cs f with
  | error e =>
    rw [hnext] at h
    cases h
  | ok next =>
    rw [hnext] at h
    exact ⟨next, rfl, h⟩

theorem resolve_eq_foldlM (fs : List MathFunction) (cs : List Char) :
    resolve fs cs = (fs.foldlM resolveCalls cs).bind resolveFactorials := by
  induction fs generalizing cs with
  | nil => rfl
  | cons f fs ih =>
    rw [resolve, List.foldlM_cons]
    cases resolveCalls cs f with
    | error e => rfl
    | ok next => exact ih next

/-- The first of several passes that succeed. -/
theorem foldlM_cons_eq_ok {f : MathFunction} {fs : List MathFunction} {cs r : List Char}
    (h : (f :: fs).foldlM resolveCalls cs = .ok r) :
    ∃ next, resolveCalls cs f = .ok next ∧ fs.foldlM resolveCalls next = .ok r := by
  rw [List.foldlM_cons] at h
  cases hnext : resolveCalls cs f with
  | error e =>
    rw [hnext] at h
    cases h
  | ok next =>
    rw [hnext] at h
    exact ⟨next, rfl, h⟩

/-- Passes that all keep a text keep it one after the other. -/
theorem foldlM_of_keep {fs : List MathFunction} {cs : List Char}
    (h : ∀ f ∈ fs, resolveCalls cs f = .ok cs) : fs.foldlM resolveCalls cs = .ok cs := by
  induction fs with
  | nil => rfl
  | cons f fs ih =>
    obtain ⟨hf, hfs⟩ := List.forall_mem_cons.mp h
    rw [List.foldlM_cons, hf]
    exact ih hfs

theorem resolve_nil (fs : List MathFunction) : resolve fs [] = .ok [] := by
  induction fs with
  | nil => exact Pattern.replaceAll_nil _ _
  | cons f fs ih =>
    rw [resolve, resolveCalls, Pattern.replaceAll_nil]
    exact ih

theorem reduce_eq_resolve (cs : List Char) :
    reduce cs = resolve MathFunction.all (normalize cs) :=
  (resolve_eq_foldlM MathFunction.all (normalize cs)).symm

/-- A pass that keeps the front of a text leaves it to the passes that follow. -/
theorem bind_inOrder {u : List Char} {x : Except EvalError (List Char)}
    {next : List Char → Except EvalError (List Char)} {v : List Char}
    (h : ∀ b, next (u ++ b) = inOrder (.ok v) (next b)) :
    (inOrder (.ok u) x).bind next = inOrder (.ok v) (x.bind next) := by
  cases x with
  | error e => rfl
  | ok b => exact h b

/-! ## What no pass changes -/

theorem factorials_skips {u : List Char} (h : ∀ c ∈ u, Text.isDecimalDigit c = false) :
    factorials.Skips u := by
  intro c cs rest hsuffix
  rcases hm : factorial? (c :: cs ++ rest) with _ | ⟨digits, after⟩
  · exact hm
  · obtain ⟨heq, hne, hall⟩ := factorial?_eq_some_iff.mp hm
    cases digits with
    | nil => exact absurd rfl hne
    | cons d ds =>
      obtain ⟨rfl, -⟩ := List.cons.inj heq
      have hc := hall c List.mem_cons_self
      rw [h c (hsuffix.subset List.mem_cons_self)] at hc
      cases hc

/-- A text is cut at a character that is not a part of any factorial. -/
theorem resolveFactorials_append_cons {c : Char}
    (hc : Text.isDecimalDigit c = false ∧ c ≠ '!') (a b : List Char) :
    resolveFactorials (a ++ c :: b)
      = inOrder (resolveFactorials a) (inOrder (.ok [c]) (resolveFactorials b)) := by
  have hsplits : factorials.Splits a (c :: b) :=
    factorials_splits fun d hd ↦ by cases hd; exact hc
  have hskips : factorials.Skips [c] :=
    factorials_skips fun d hd ↦ by rw [List.mem_singleton.mp hd]; exact hc.1
  have hkeep : factorials.replaceAll factorialText (c :: b)
      = inOrder (.ok [c]) (resolveFactorials b) :=
    Pattern.replaceAll_skip _ factorialText hskips b
  rw [resolveFactorials, Pattern.replaceAll_append _ _ factorials_leavesSuffix hsplits, hkeep]
  rfl

/-- A character with which neither a call nor a factorial starts. -/
def StartsNothing (c : Char) : Prop :=
  Text.isDecimalDigit c = false ∧ ∀ f : MathFunction, c ∉ f.opening.head?

/-- Characters with which nothing starts are kept by all passes. -/
theorem resolve_keep {u : List Char} (hu : ∀ c ∈ u, StartsNothing c) (fs : List MathFunction)
    (b : List Char) : resolve fs (u ++ b) = inOrder (.ok u) (resolve fs b) := by
  induction fs generalizing b with
  | nil =>
    exact Pattern.replaceAll_skip _ factorialText (factorials_skips fun c hc ↦ (hu c hc).1) b
  | cons f fs ih =>
    have hskip : f.calls.Skips u := MathFunction.calls_skips fun c hc ↦ (hu c hc).2 f
    rw [resolve, resolveCalls, Pattern.replaceAll_skip _ f.callText hskip]
    exact bind_inOrder ih

/-! ## Calls that are not closed -/

namespace MathFunction

/-- Where no parenthesis is closed there is no call. -/
theorem call?_eq_none {f : MathFunction} {cs : List Char} (h : ')' ∉ cs) : f.call? cs = none := by
  rcases hm : f.call? cs with _ | ⟨argument, rest⟩
  · rfl
  · obtain ⟨rfl, -⟩ := call?_eq_some_iff.mp hm
    exact absurd (by simp) h

/-- A text splits in front of one in which no parenthesis is closed. -/
theorem calls_splits_of_notMem {f : MathFunction} {a b : List Char} (hb : ')' ∉ b) :
    f.calls.Splits a b := by
  intro c cs _
  show f.call? (c :: cs ++ b) = (f.call? (c :: cs)).map fun m ↦ (m.1, m.2 ++ b)
  generalize c :: cs = u
  rcases hu : f.call? u with _ | ⟨argument, rest⟩
  · rcases hub : f.call? (u ++ b) with _ | ⟨argument, rest⟩
    · rfl
    · exfalso
      obtain ⟨heq, hne, hnot⟩ := call?_eq_some_iff.mp hub
      rw [← List.append_assoc] at heq
      rcases List.append_eq_append_iff.mp heq with ⟨x, -, hbx⟩ | ⟨y, rfl, hy⟩
      · exact hb (by rw [hbx]; simp)
      · cases y with
        | nil => exact hb (by rw [show b = ')' :: rest from hy.symm]; exact List.mem_cons_self)
        | cons d ds =>
          obtain ⟨rfl, -⟩ := List.cons.inj hy
          rw [List.append_assoc, call?_eq_some_iff.mpr ⟨rfl, hne, hnot⟩] at hu
          cases hu
  · obtain ⟨rfl, hrest⟩ := call?_eq_some_iff.mp hu
    exact call?_eq_some_iff.mpr ⟨by simp, hrest⟩

theorem resolveCalls_append_of_notMem {f : MathFunction} {a b : List Char} (hb : ')' ∉ b) :
    resolveCalls (a ++ b) f = inOrder (resolveCalls a f) (.ok b) := by
  have hkeep : f.calls.replaceAll f.callText b = .ok b := by
    induction b with
    | nil => exact Pattern.replaceAll_nil _ _
    | cons c cs ih =>
      have hcs : ')' ∉ cs := fun h ↦ hb (List.mem_cons_of_mem c h)
      rw [Pattern.replaceAll_cons _ _ (call?_eq_none hb), ih hcs]
      rfl
  rw [resolveCalls, Pattern.replaceAll_append _ _ f.calls_leavesSuffix (calls_splits_of_notMem hb),
    hkeep]
  rfl

end MathFunction

theorem inOrder_eq_error {x y : Except EvalError (List Char)} {e : EvalError}
    (h : inOrder x y = .error e) : x = .error e ∨ y = .error e := by
  cases x with
  | error cause => exact Or.inl h
  | ok a =>
    cases y with
    | error cause => exact Or.inr h
    | ok b => cases h

theorem inOrder_eq_ok_iff {x y : Except EvalError (List Char)} {r : List Char} :
    inOrder x y = .ok r ↔ ∃ a b, x = .ok a ∧ y = .ok b ∧ a ++ b = r := by
  constructor
  · intro h
    cases x with
    | error e => cases h
    | ok a =>
      cases y with
      | error e => cases h
      | ok b => exact ⟨a, b, rfl, rfl, Except.ok.inj h⟩
  · rintro ⟨a, b, rfl, rfl, rfl⟩
    rfl

theorem ok_inOrder_eq_ok_iff {u : List Char} {x : Except EvalError (List Char)} {r : List Char} :
    inOrder (.ok u) x = .ok r ↔ ∃ w, x = .ok w ∧ u ++ w = r := by
  rw [inOrder_eq_ok_iff]
  constructor
  · rintro ⟨_, w, hu, hw, rfl⟩
    cases hu
    exact ⟨w, hw, rfl⟩
  · rintro ⟨w, hw, rfl⟩
    exact ⟨u, w, rfl, hw, rfl⟩

/-- A character of a part that closes no parenthesis is in the text to the end, unless it can belong
to a factorial. -/
theorem mem_of_resolve {c : Char} (hc : Text.isDecimalDigit c = false ∧ c ≠ '!')
    {fs : List MathFunction} {before after r : List Char} (hafter : ')' ∉ c :: after)
    (h : resolve fs (before ++ c :: after) = .ok r) : c ∈ r := by
  induction fs generalizing before with
  | nil =>
    rw [resolve, resolveFactorials_append_cons hc] at h
    obtain ⟨u, v, -, hv, rfl⟩ := inOrder_eq_ok_iff.mp h
    obtain ⟨w, -, rfl⟩ := ok_inOrder_eq_ok_iff.mp hv
    simp
  | cons f fs ih =>
    obtain ⟨next, hnext, hrest⟩ := resolve_cons_eq_ok h
    rw [MathFunction.resolveCalls_append_of_notMem hafter] at hnext
    obtain ⟨u, v, -, hv, rfl⟩ := inOrder_eq_ok_iff.mp hnext
    cases hv
    exact ih hrest

/-- A name starts with a letter that is in no arithmetic text. -/
theorem MathFunction.opening_eq_cons (f : MathFunction) :
    ∃ c cs, f.opening = c :: cs ∧ (Text.isDecimalDigit c = false ∧ c ≠ '!') ∧
      Token.isTokenChar c = false := by
  cases f <;> exact ⟨_, _, rfl, by decide, by decide⟩

/-- A text that becomes an arithmetic one has no open call, at any stage. -/
theorem not_hasOpenCall {fs : List MathFunction} {a r : List Char} (h : resolve fs a = .ok r)
    (hr : ∀ c ∈ r, Token.isTokenChar c = true) (f : MathFunction) : ¬ f.HasOpenCall a := by
  rintro ⟨before, after, rfl, hafter⟩
  obtain ⟨c, cs, hopening, hc, htoken⟩ := f.opening_eq_cons
  have hclose : ')' ∉ c :: (cs ++ after) := by
    have hf := f.closeParen_notMem_opening
    rw [hopening] at hf
    rw [← List.cons_append, List.mem_append]
    exact fun hmem ↦ hmem.elim hf hafter
  rw [hopening, List.cons_append] at h
  have hmem := hr c (mem_of_resolve hc hclose h)
  rw [htoken] at hmem
  cases hmem

/-! ## Parentheses -/

theorem startsNothing_openParen : StartsNothing '(' :=
  ⟨by decide, fun f ↦ by cases f <;> decide⟩

theorem startsNothing_closeParen : StartsNothing ')' :=
  ⟨by decide, fun f ↦ by cases f <;> decide⟩

namespace MathFunction

variable {f : MathFunction}

theorem calls_skips_closeParen : f.calls.Skips [')'] :=
  calls_skips (List.forall_mem_singleton.mpr (startsNothing_closeParen.2 f))

/-- A closing parenthesis at the front is kept. -/
theorem resolveCalls_closeParen (b : List Char) :
    resolveCalls (')' :: b) f = inOrder (.ok [')']) (resolveCalls b f) :=
  Pattern.replaceAll_skip _ f.callText calls_skips_closeParen b

/-- A closing parenthesis is kept, and what is in front of it is replaced by itself unless it opens a
call. -/
theorem resolveCalls_append_closeParen {a : List Char} (hopen : ¬ f.HasOpenCall a)
    (b : List Char) :
    resolveCalls (a ++ ')' :: b) f
      = inOrder (resolveCalls a f) (inOrder (.ok [')']) (resolveCalls b f)) := by
  have hsplits : f.calls.Splits a (')' :: b) := calls_splits hopen fun d hd ↦ by
    cases hd
    exact f.closeParen_notMem_opening
  rw [← resolveCalls_closeParen]
  exact Pattern.replaceAll_append _ f.callText f.calls_leavesSuffix hsplits

end MathFunction

/-- **A text in front of a closing parenthesis** goes through the passes by itself. -/
theorem resolve_append_closeParen {fs : List MathFunction} {a r : List Char}
    (h : resolve fs a = .ok r) (hr : ∀ c ∈ r, Token.isTokenChar c = true) (b : List Char) :
    resolve fs (a ++ ')' :: b) = inOrder (.ok (r ++ [')'])) (resolve fs b) := by
  induction fs generalizing a b with
  | nil =>
    rw [resolve] at h
    rw [resolve, resolveFactorials_append_cons ⟨startsNothing_closeParen.1, by decide⟩, h,
      ← inOrder_assoc]
    rfl
  | cons f fs ih =>
    obtain ⟨next, ha, hnext⟩ := resolve_cons_eq_ok h
    have happ : resolveCalls (a ++ ')' :: b) f
        = inOrder (.ok (next ++ [')'])) (resolveCalls b f) := by
      rw [MathFunction.resolveCalls_append_closeParen (not_hasOpenCall h hr f), ha,
        ← inOrder_assoc]
      rfl
    rw [resolve, happ]
    refine bind_inOrder fun b ↦ ?_
    rw [List.append_assoc]
    exact ih hnext b

/-- A text in parentheses stays in them. -/
theorem resolve_paren {fs : List MathFunction} {a r : List Char} (h : resolve fs a = .ok r)
    (hr : ∀ c ∈ r, Token.isTokenChar c = true) (b : List Char) :
    resolve fs ('(' :: (a ++ ')' :: b)) = inOrder (.ok ('(' :: (r ++ [')']))) (resolve fs b) := by
  have hopen := resolve_keep (List.forall_mem_singleton.mpr startsNothing_openParen) fs
    (a ++ ')' :: b)
  rw [resolve_append_closeParen h hr, ← inOrder_assoc] at hopen
  exact hopen

end Calculator

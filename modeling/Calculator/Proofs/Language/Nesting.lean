import Calculator.Proofs.Language.Pieces

/-!
# Calls in the arguments of calls

A call can stand in the argument of another one only if its function comes earlier in the order of
the passes (`resolveFunctions_nested`).  There are two cases for one call in another, and they
differ in which of the two passes comes first.

* If it is that of the inner call, then the passes before it find nothing to do, and it leaves the
  value of the inner call in its place.
* Otherwise the pass for the outer call comes first.  What it takes for the argument ends at the
  first closing parenthesis, which is that of the inner call, and so it begins the inner call
  without ending it.  The lexer stops at the first letter of the name.

In a chain of nested calls there are other calls around these two, and in the inner one's argument.
What an earlier pass does to them makes no difference.  The opening parenthesis of the outer call is
a barrier for the passes, whatever stands in front of it, and behind that of the inner call a pass
keeps the depth to which parentheses are nested.  So there is a parenthesis that closes the outer
call too early when its pass comes (`OpensWithin`).
-/

set_option autoImplicit false

namespace Calculator

/-! ## Flat texts -/

/-- A text of digits, points and the signs of operators. -/
def Flat (s : List Char) : Prop := ∀ c ∈ s, c.isDigit = true ∨ c ∈ ['.', '+', '-', '*', '/']

namespace Flat

variable {s : List Char}

theorem isTokenChar (h : Flat s) : ∀ c ∈ s, Token.isTokenChar c = true := by
  intro c hc
  rcases h c hc with hdigit | hmem
  · simp [Token.isTokenChar, Numeral.starts, hdigit]
  · simp only [List.mem_cons, List.not_mem_nil, or_false] at hmem
    rcases hmem with rfl | rfl | rfl | rfl | rfl <;> decide

theorem ne_paren (h : Flat s) : ∀ c ∈ s, c ≠ '(' ∧ c ≠ ')' := by
  intro c hc
  rcases h c hc with hdigit | hmem
  · constructor <;> rintro rfl <;> cases hdigit
  · constructor <;> rintro rfl <;> exact absurd hmem (by decide)

theorem closeParen_notMem (h : Flat s) : ')' ∉ s := fun hmem ↦ (h.ne_paren _ hmem).2 rfl

theorem skips (h : Flat s) (f : MathFunction) : f.calls.Skips s :=
  (inert_of_isTokenChar h.isTokenChar).skips f

theorem depth?_eq (h : Flat s) (d : Nat) : depth? d s = some d := depth?_of_forall_ne h.ne_paren d

end Flat

/-! ## The order of the passes -/

namespace MathFunction

/-- The pass for the first function comes before that for the second one. -/
def Before (f g : MathFunction) : Prop := all.idxOf f < all.idxOf g

instance (f g : MathFunction) : Decidable (f.Before g) := inferInstanceAs (Decidable (_ < _))

variable {f g : MathFunction}

theorem Before.ne (h : f.Before g) : f ≠ g := by
  rintro rfl
  exact Nat.lt_irrefl _ h

theorem Before.trans {k : MathFunction} (hfg : f.Before g) (hgk : g.Before k) : f.Before k :=
  Nat.lt_trans hfg hgk

/-- The passes before that for a function are those for the functions before it. -/
theorem exists_all_eq (f : MathFunction) :
    ∃ fs gs, all = fs ++ f :: gs ∧ ∀ g, g ∈ fs ↔ g.Before f := by
  obtain ⟨fs, gs, hall, hf⟩ := List.eq_append_cons_of_mem (mem_all f)
  have hplace : all.idxOf f = fs.length := by
    rw [hall, List.idxOf_append_of_notMem hf, List.idxOf_cons_self, Nat.add_zero]
  refine ⟨fs, gs, hall, fun g ↦ ?_⟩
  rw [Before, hplace, hall]
  by_cases hg : g ∈ fs
  · rw [List.idxOf_append_of_mem hg]
    exact iff_of_true hg (List.idxOf_lt_length_of_mem hg)
  · rw [List.idxOf_append_of_notMem hg]
    exact iff_of_false hg (Nat.not_lt.mpr (Nat.le_add_right _ _))

/-- A text that the earlier passes keep comes to the pass for a function as it is. -/
theorem exists_resolveFunctions_eq (f : MathFunction) :
    ∃ gs : List MathFunction, ∀ cs, (∀ g, g.Before f → resolveCalls cs g = .ok cs) →
      resolveFunctions cs = (resolveCalls cs f).bind fun next ↦ gs.foldlM resolveCalls next := by
  obtain ⟨fs, gs, hall, hfs⟩ := f.exists_all_eq
  refine ⟨gs, fun cs hkeep ↦ ?_⟩
  rw [resolveFunctions, hall, List.foldlM_append,
    foldlM_of_keep fun g hg ↦ hkeep g ((hfs g).mp hg)]
  rfl

/-! ## A call in another one's argument -/

/-- The text of a call with its argument. -/
def around (f : MathFunction) (argument : List Char) : List Char :=
  f.opening ++ (argument ++ [')'])

/-- A pass that finds nothing in an argument finds nothing in the call of another function. -/
theorem skips_around (hfg : f ≠ g) {s : List Char} (hs : f.calls.Skips s) :
    f.calls.Skips (g.around s) :=
  (calls_skips_opening hfg).append (hs.append calls_skips_closeParen)

/-- The lexer stops where a name begins. -/
theorem evaluateArithmetic_append_opening {p : List Char} {ts : List Token}
    (hp : tokenize p = .ok ts) (u : List Char) :
    evaluateArithmetic (p ++ (f.opening ++ u))
      = .error (.unexpectedChar f.name.front (byteLength p)) := by
  have hopening : f.opening = f.name.front :: f.opening.tail := by cases f <;> decide
  have hchar : Token.isTokenChar f.name.front = false := by cases f <;> decide
  have hlex : tokenize (p ++ f.name.front :: (f.opening.tail ++ u))
      = .error (.unexpectedChar f.name.front (byteLength p)) := by
    rw [tokenize, Token.lex_append (Token.lex_eq_ok_iff.mp hp)
      (Token.apart_of_not_isTokenChar hchar _ _), Token.lex_unexpectedChar hchar, Nat.zero_add]
    rfl
  rw [hopening, List.cons_append, evaluateArithmetic, hlex]

section

variable {p a q : List Char}

/-- The passes for other functions find nothing in two calls. -/
theorem skips_around_around {k : MathFunction} (hkf : k ≠ f) (hkg : k ≠ g) (hp : Flat p)
    (ha : Flat a) (hq : Flat q) : k.calls.Skips (g.around (p ++ (f.around a ++ q))) :=
  skips_around hkg ((hp.skips k).append ((skips_around hkf (ha.skips k)).append (hq.skips k)))

/-- **The inner call first.** -/
theorem resolveFunctions_around_of_before (hfg : f.Before g) (hp : Flat p) (ha : Flat a)
    (hq : Flat q) {v : Float} (hread : evaluateArithmetic a = .ok v)
    (hfinite : (f.apply v).isFinite = true) :
    resolveFunctions (g.around (p ++ (f.around a ++ q)))
      = resolveFunctions (g.around (p ++ (numberText (f.apply v) ++ q))) := by
  have hcalls : ∀ k, k.Before f → resolveCalls (g.around (p ++ (f.around a ++ q))) k
      = .ok (g.around (p ++ (f.around a ++ q))) := fun k hk ↦
    Pattern.replaceAll_of_skips _ _ (skips_around_around hk.ne (hk.trans hfg).ne hp ha hq)
  have hvalue : ∀ k, k ≠ g →
      resolveCalls (g.around (p ++ (numberText (f.apply v) ++ q))) k
        = .ok (g.around (p ++ (numberText (f.apply v) ++ q))) := fun k hkg ↦
    Pattern.replaceAll_of_skips _ _ (skips_around hkg ((hp.skips k).append
      (((inert_numberText _).skips k).append (hq.skips k))))
  have hpass : resolveCalls (g.around (p ++ (f.around a ++ q))) f
      = .ok (g.around (p ++ (numberText (f.apply v) ++ q))) := by
    have hfront : f.calls.Skips (g.opening ++ p) :=
      (calls_skips_opening hfg.ne).append (hp.skips f)
    have hback : resolveCalls (q ++ [')']) f = .ok (q ++ [')']) :=
      Pattern.replaceAll_of_skips _ _ ((hq.skips f).append calls_skips_closeParen)
    have htext : g.around (p ++ (f.around a ++ q))
        = (g.opening ++ p) ++ (f.opening ++ (a ++ [')']) ++ (q ++ [')'])) := by simp [around]
    rw [htext, resolveCalls_skip hfront, resolveCalls_call hread ha.closeParen_notMem, hback,
      hfinite]
    simp [inOrder, whenFinite, Except.bind, Except.map, around]
  -- up to the pass for `f` nothing happens to either text, and from there on they are the same
  obtain ⟨gs, hgs⟩ := f.exists_resolveFunctions_eq
  rw [hgs _ hcalls, hgs _ fun k hk ↦ hvalue k (hk.trans hfg).ne, hpass, hvalue f hfg.ne]

/-- **The outer call first.** -/
theorem resolveFunctions_around_of_not_before (hfg : ¬ f.Before g) (hp : Flat p) (ha : Flat a)
    (hq : Flat q) {ts : List Token} (htokens : tokenize p = .ok ts) :
    resolveFunctions (g.around (p ++ (f.around a ++ q)))
      = .error (.functionArgument g (String.ofList (p ++ (f.opening ++ a)))
          (.unexpectedChar f.name.front (byteLength p))) := by
  have hkeep : ∀ k, k.Before g → resolveCalls (g.around (p ++ (f.around a ++ q))) k
      = .ok (g.around (p ++ (f.around a ++ q))) := by
    intro k hk
    have hkf : k ≠ f := fun heq ↦ hfg (heq ▸ hk)
    exact Pattern.replaceAll_of_skips _ _ (skips_around_around hkf hk.ne hp ha hq)
  have hcall : g.calls.match? (g.around (p ++ (f.around a ++ q)))
      = some (p ++ (f.opening ++ a), q ++ [')']) := by
    refine call?_eq_some_iff.mpr ⟨by simp [around], ?_, ?_⟩
    · simp [opening]
    · simp [hp.closeParen_notMem, ha.closeParen_notMem, f.closeParen_notMem_opening]
  obtain ⟨gs, hgs⟩ := g.exists_resolveFunctions_eq
  rw [hgs _ hkeep, resolveCalls, Pattern.replaceAll_of_some _ _ hcall, callText,
    evaluateArithmetic_append_opening htokens]
  rfl

end

end MathFunction

/-! ## Calls that are opened in an argument -/

section

variable {f g : MathFunction} {cs r : List Char}

/-- A call of `f` is opened in the argument of a call of `g`, and behind its start more parentheses
are closed than opened. -/
inductive OpensWithin (f g : MathFunction) : List Char → Prop where
  | intro (a : List Char) {p w : List Char} {d e : Nat} (hp : Flat p) (hw : depth? d w = some e)
      (hlt : e < d) : OpensWithin f g (a ++ (g.opening ++ (p ++ (f.opening ++ w))))

namespace OpensWithin

theorem append_left (h : OpensWithin f g cs) (b : List Char) : OpensWithin f g (b ++ cs) := by
  obtain ⟨a, hp, hw, hlt⟩ := h
  rw [← List.append_assoc]
  exact .intro (b ++ a) hp hw hlt

/-- The start of a call is a barrier, whatever stands in front of it. -/
theorem resolveCalls_append_opening {k : MathFunction} {a b : List Char}
    (h : resolveCalls (a ++ (g.opening ++ b)) k = .ok r) :
    ∃ a' b', resolveCalls (g.opening ++ b) k = .ok b' ∧ a' ++ b' = r := by
  have hseam : ∀ x y, k.opening = x ++ y → x ≠ [] → y ≠ [] → x <:+ a →
      ¬ y <+: g.opening ++ b := by
    rintro x y hopening hx hy - ⟨z, hz⟩
    exact hx (MathFunction.eq_nil_of_opening hopening hy hz)
  obtain ⟨a', b', -, hb, hr⟩ := MathFunction.resolveCalls_barrier h (List.prefix_append g.opening b)
    g.closeParen_notMem_opening (unreadable_openParen (by simp [MathFunction.opening])) hseam
  exact ⟨a', b', hb, hr⟩

/-- **A pass for another function** leaves it so: it keeps the two starts of calls, and the depth
behind them. -/
theorem of_resolveCalls {k : MathFunction} (hkf : k ≠ f) (hkg : k ≠ g) (h : OpensWithin f g cs)
    (hr : resolveCalls cs k = .ok r) : OpensWithin f g r := by
  obtain @⟨a, p, w, d, e, hp, hw, hlt⟩ := h
  obtain ⟨a', b', hb, rfl⟩ := resolveCalls_append_opening hr
  have hskips : k.calls.Skips (g.opening ++ (p ++ f.opening)) :=
    (MathFunction.calls_skips_opening hkg).append
      ((hp.skips k).append (MathFunction.calls_skips_opening hkf))
  have hpass := Pattern.replaceAll_skip k.calls k.callText hskips w
  rw [List.append_assoc, List.append_assoc] at hpass
  obtain ⟨w', hw', rfl⟩ := ok_inOrder_eq_ok_iff.mp (hpass.symm.trans hb)
  rw [← MathFunction.depth?_resolveCalls hw'] at hw
  have hopens := intro (f := f) (g := g) a' hp hw hlt
  simpa using hopens

/-- **The pass for the outer function** fails, because the argument that it finds holds an opening
parenthesis. -/
theorem resolveCalls_ne (h : OpensWithin f g cs) : resolveCalls cs g ≠ .ok r := by
  intro hr
  obtain @⟨a, p, w, d, e, hp, hw, hlt⟩ := h
  have hclose : ')' ∈ w := by
    by_contra hnot
    exact Nat.not_le.mpr hlt (le_of_depth? hnot hw)
  obtain ⟨u, rest, rfl, hu⟩ := List.eq_append_cons_of_mem hclose
  have hcall : g.calls.match? (g.opening ++ (p ++ (f.opening ++ (u ++ ')' :: rest))))
      = some (p ++ (f.opening ++ u), rest) := by
    refine MathFunction.call?_eq_some_iff.mpr ⟨by simp, by simp [MathFunction.opening], ?_⟩
    simp [hp.closeParen_notMem, hu, f.closeParen_notMem_opening]
  obtain ⟨_, b', hb, -⟩ := resolveCalls_append_opening hr
  rw [resolveCalls, Pattern.replaceAll_of_some _ _ hcall] at hb
  obtain ⟨t, _, ht, -, -⟩ := inOrder_eq_ok_iff.mp hb
  obtain ⟨x, hread, -, -⟩ := MathFunction.callText_eq_ok_iff.mp ht
  have hunreadable : Unreadable (p ++ (f.opening ++ u)) :=
    unreadable_openParen (by simp [MathFunction.opening])
  refine hunreadable [] [] x ?_ (by simpa using hread)
  simp [hp.closeParen_notMem, hu, f.closeParen_notMem_opening]

/-- **The passes up to that one**, by induction on their functions. -/
theorem foldlM_ne {fs gs : List MathFunction} (hfs : ∀ k ∈ fs, k ≠ f ∧ k ≠ g)
    (h : OpensWithin f g cs) : (fs ++ g :: gs).foldlM resolveCalls cs ≠ .ok r := by
  intro hr
  induction fs generalizing cs with
  | nil =>
    obtain ⟨next, hnext, -⟩ := foldlM_cons_eq_ok hr
    exact h.resolveCalls_ne hnext
  | cons k fs ih =>
    obtain ⟨⟨hkf, hkg⟩, hfs⟩ := List.forall_mem_cons.mp hfs
    obtain ⟨next, hnext, hrest⟩ := foldlM_cons_eq_ok hr
    exact ih hfs (h.of_resolveCalls hkf hkg hnext) hrest

/-- **If the passes succeed**, the inner call's function comes first. -/
theorem before (h : OpensWithin f g cs) (hr : resolveFunctions cs = .ok r) : f.Before g := by
  by_contra hnot
  obtain ⟨fs, gs, hall, hfs⟩ := g.exists_all_eq
  rw [resolveFunctions, hall] at hr
  refine h.foldlM_ne (fun k hk ↦ ?_) hr
  have hk := (hfs k).mp hk
  exact ⟨fun heq ↦ hnot (heq ▸ hk), hk.ne⟩

end OpensWithin

end

/-! ## Chains of nested calls -/

/-- A call, without the text in the middle of its argument. -/
structure Layer where
  function : MathFunction
  before : List Char
  after : List Char
  flat_before : Flat before
  flat_after : Flat after

/-- The call with a text in the middle of its argument. -/
def Layer.around (x : Layer) (s : List Char) : List Char :=
  x.function.around (x.before ++ (s ++ x.after))

/-- Calls in each other's arguments, the outermost one first, around a text. -/
def nested (xs : List Layer) (core : List Char) : List Char := xs.foldr Layer.around core

theorem depth?_nested {core : List Char} (hcore : Flat core) (xs : List Layer) (d : Nat) :
    depth? d (nested xs core) = some d := by
  induction xs generalizing d with
  | nil => exact hcore.depth?_eq d
  | cons x xs ih =>
    show depth? d (x.function.around (x.before ++ (nested xs core ++ x.after))) = some d
    simp only [MathFunction.around, depth?_append, MathFunction.depth?_opening, Option.bind_some,
      x.flat_before.depth?_eq, x.flat_after.depth?_eq, ih]
    rfl

/-- In a chain of calls every call but the first opens in the argument of the one around it.  The
induction is on the calls around the two, and `t` is the text that closes `n` more around these. -/
theorem opensWithin_nested {core : List Char} (hcore : Flat core) (xs ys : List Layer)
    (x y : Layer) {n : Nat} {t : List Char} (ht : depth? n t = some 0) :
    OpensWithin y.function x.function (nested (xs ++ x :: y :: ys) core ++ t) := by
  induction xs generalizing n t with
  | nil =>
    have hw : depth? (n + 2)
        (y.before ++ (nested ys core ++ (y.after ++ ')' :: (x.after ++ ')' :: t)))) = some 0 := by
      simp only [depth?_append, depth?_cons, Option.bind_some, y.flat_before.depth?_eq,
        y.flat_after.depth?_eq, x.flat_after.depth?_eq, depth?_nested hcore]
      exact ht
    have hopens := OpensWithin.intro (f := y.function) (g := x.function) [] x.flat_before hw
      (Nat.succ_pos _)
    simpa [nested, Layer.around, MathFunction.around] using hopens
  | cons z xs ih =>
    have ht' : depth? (n + 1) (z.after ++ ')' :: t) = some 0 := by
      simp only [depth?_append, depth?_cons, Option.bind_some, z.flat_after.depth?_eq]
      exact ht
    have hopens := (ih ht').append_left (z.function.opening ++ z.before)
    simpa [nested, Layer.around, MathFunction.around] using hopens

/-! ## Nested calls -/

/-- **Nested calls are resolved in the order of the functions.**  If the inner call's function comes
before the outer one's, then the inner call might as well be written as the exact text of its value.
Otherwise the argument of the outer call is taken to end where the inner call does, and the first
letter of the inner call's name is reported.  So in a chain of nested calls, of any depth, that is
resolved, every function comes before that of the call around it. -/
theorem resolveFunctions_nested :
    (∀ (f g : MathFunction) (p a q : List Char), Flat p → Flat a → Flat q →
      (∀ v, evaluateArithmetic a = .ok v → (f.apply v).isFinite = true → f.Before g →
        resolveFunctions (g.around (p ++ (f.around a ++ q)))
          = resolveFunctions (g.around (p ++ (numberText (f.apply v) ++ q)))) ∧
      (∀ ts, tokenize p = .ok ts → ¬ f.Before g →
        resolveFunctions (g.around (p ++ (f.around a ++ q)))
          = .error (.functionArgument g (String.ofList (p ++ (f.opening ++ a)))
              (.unexpectedChar f.name.front (byteLength p))))) ∧
    ∀ (xs : List Layer) (core r : List Char), Flat core →
      resolveFunctions (nested xs core) = .ok r →
      xs.IsChain fun outer inner ↦ inner.function.Before outer.function := by
  constructor
  · intro f g p a q hp ha hq
    exact ⟨fun v hread hfinite hfg ↦
        MathFunction.resolveFunctions_around_of_before hfg hp ha hq hread hfinite,
      fun ts htokens hfg ↦
        MathFunction.resolveFunctions_around_of_not_before hfg hp ha hq htokens⟩
  · intro xs core r hcore hr
    refine List.isChain_iff_forall_rel_of_append_cons_cons.mpr fun x y before after hxs ↦ ?_
    subst hxs
    have hopens := opensWithin_nested hcore before after x y (n := 0) (t := []) rfl
    rw [List.append_nil] at hopens
    exact hopens.before hr

/-- A root in a logarithm becomes its value, and a root in a root is an error.  In the chain of the
three it is the logarithm in the outer root that keeps it from being resolved. -/
theorem resolveFunctions_nested_roots :
    let p := ['1', '+']
    let a := ['1', '6']
    let q := ['*', '2']
    (resolveFunctions (MathFunction.ln.around (p ++ (MathFunction.sqrt.around a ++ q)))
        = resolveFunctions (MathFunction.ln.around (p ++ ('4' :: q)))) ∧
      resolveFunctions (MathFunction.sqrt.around (p ++ (MathFunction.sqrt.around a ++ q)))
        = .error (.functionArgument .sqrt "1+sqrt(16" (.unexpectedChar 's' 2)) ∧
      ∀ r, resolveFunctions (MathFunction.sqrt.around (p ++
        (MathFunction.ln.around (p ++ (MathFunction.sqrt.around (p ++ (a ++ q)) ++ q)) ++ q)))
          ≠ .ok r := by
  intro p a q
  have hp : Flat p := by simp [Flat, p]
  have ha : Flat a := by simp [Flat, a]
  have hq : Flat q := by simp [Flat, q]
  have hread : evaluateArithmetic a = .ok 16 := by decide +kernel
  have hvalue : numberText (MathFunction.sqrt.apply 16) = ['4'] := by decide +kernel
  have htokens : tokenize p = .ok [.number 1, .plus] := by decide +kernel
  have hroot := (resolveFunctions_nested.1 .sqrt .ln p a q hp ha hq).1 16 hread (by decide +kernel)
    (by decide)
  rw [hvalue] at hroot
  have herror := (resolveFunctions_nested.1 .sqrt .sqrt p a q hp ha hq).2 _ htokens (by decide)
  refine ⟨hroot, herror, fun r hr ↦ ?_⟩
  have hchain := resolveFunctions_nested.2
    [⟨.sqrt, p, q, hp, hq⟩, ⟨.ln, p, q, hp, hq⟩, ⟨.sqrt, p, q, hp, hq⟩] a r ha hr
  have hbefore : MathFunction.ln.Before .sqrt := (List.isChain_cons_cons.mp hchain).1
  exact absurd hbefore (by decide)

end Calculator

import Calculator.Proofs.Reduction.Barriers

/-!
# No call is left

The calls of a function are replaced in one pass, and what the pass writes is not searched again.
Still no call is left in the end, and a second run of all passes would change nothing
(`resolveFunctions_settled`).  What could go wrong is that a pass makes a call of what was none.
Two kinds of text look like calls without being any: a name with an opening parenthesis that is
never closed, and one that is closed at once.

A pass writes numbers, which have no letters and no parentheses.  So the name and the opening
parenthesis of a call in the result have been there before, next to each other
(`Pattern.exists_append_of_replaceAll`).  No pass adds a closing parenthesis or takes one away that
is the first character of a text, and so behind them stood a whole call already
(`MathFunction.exists_call?_of_resolveCalls`).  Had it been one of the pass's own function, it would
have been replaced.
-/

set_option autoImplicit false

namespace Calculator

namespace Pattern

variable {α : Type} {p : Pattern α} {replace : α → Except EvalError (List Char)}

/-- The beginning of a result has been kept, if no replacement begins with a character of it. -/
theorem exists_append_of_replaceAll {x y cs : List Char}
    (hx : ∀ m t, replace m = .ok t → ∃ c ∈ t.head?, c ∉ x)
    (h : p.replaceAll replace cs = .ok (x ++ y)) :
    ∃ cs', cs = x ++ cs' ∧ p.replaceAll replace cs' = .ok y := by
  induction x generalizing cs with
  | nil => exact ⟨cs, rfl, h⟩
  | cons d ds ih =>
    rcases hm : p.match? cs with _ | ⟨m, rest⟩
    · cases cs with
      | nil =>
        rw [replaceAll_nil] at h
        cases h
      | cons c cs =>
        rw [replaceAll_cons p replace hm] at h
        obtain ⟨r, hr, heq⟩ := ok_inOrder_eq_ok_iff.mp h
        obtain ⟨rfl, rfl⟩ := List.cons.inj heq
        have hds : ∀ m t, replace m = .ok t → ∃ e ∈ t.head?, e ∉ ds := by
          intro m t ht
          obtain ⟨e, he, hnot⟩ := hx m t ht
          exact ⟨e, he, fun hmem ↦ hnot (List.mem_cons_of_mem c hmem)⟩
        obtain ⟨cs', rfl, hcs'⟩ := ih hds hr
        exact ⟨cs', rfl, hcs'⟩
    · rw [replaceAll_of_some p replace hm] at h
      obtain ⟨t, r, ht, -, heq⟩ := inOrder_eq_ok_iff.mp h
      obtain ⟨c, hc, hnot⟩ := hx m t ht
      obtain ⟨ts, rfl⟩ := List.head?_eq_some_iff.mp hc
      obtain ⟨rfl, -⟩ := List.cons.inj heq
      exact absurd List.mem_cons_self hnot

end Pattern

/-! ## Complete calls -/

namespace MathFunction

variable {f g : MathFunction} {cs r : List Char}

/-- Somewhere in the text there is a complete call: the name, an opening parenthesis, one or more
characters that are not closing parentheses, and a closing parenthesis. -/
def HasCall (f : MathFunction) (cs : List Char) : Prop :=
  ∃ before argument after, cs = before ++ (f.name.toList ++ '(' :: (argument ++ ')' :: after)) ∧
    argument ≠ [] ∧ ')' ∉ argument

/-- A complete call is what the function's pass looks for. -/
theorem hasCall_iff : f.HasCall cs ↔ ∃ u m, u <:+ cs ∧ f.call? u = some m := by
  have hopening : ∀ v, f.opening ++ v = f.name.toList ++ '(' :: v := fun v ↦ List.append_assoc _ _ v
  constructor
  · rintro ⟨before, argument, after, rfl, hargument⟩
    refine ⟨_, (argument, after), List.suffix_append before _, ?_⟩
    exact call?_eq_some_iff.mpr ⟨(hopening _).symm, hargument⟩
  · rintro ⟨u, ⟨argument, after⟩, ⟨before, rfl⟩, hm⟩
    obtain ⟨rfl, hargument⟩ := call?_eq_some_iff.mp hm
    refine ⟨before, argument, after, ?_, hargument⟩
    rw [hopening]

theorem HasCall.of_suffix (h : f.HasCall r) (hr : r <:+ cs) : f.HasCall cs := by
  obtain ⟨u, m, hu, hm⟩ := hasCall_iff.mp h
  exact hasCall_iff.mpr ⟨u, m, hu.trans hr, hm⟩

/-- A call begins with the first character, or there is one behind it. -/
theorem HasCall.of_cons {c : Char} (h : f.HasCall (c :: cs)) :
    (∃ m, f.call? (c :: cs) = some m) ∨ f.HasCall cs := by
  obtain ⟨u, m, hu, hm⟩ := hasCall_iff.mp h
  rcases List.suffix_cons_iff.mp hu with rfl | hu
  · exact Or.inl ⟨m, hm⟩
  · exact Or.inr (hasCall_iff.mpr ⟨u, m, hu, hm⟩)

/-- No call begins in a text that has no character in common with the start of one. -/
theorem HasCall.of_append {t : List Char} (ht : ∀ c ∈ t, c ∉ f.opening)
    (h : f.HasCall (t ++ r)) : f.HasCall r := by
  induction t with
  | nil => exact h
  | cons c t ih =>
    obtain ⟨hc, ht⟩ := List.forall_mem_cons.mp ht
    rcases h.of_cons with ⟨⟨argument, rest⟩, hm⟩ | h
    · obtain ⟨heq, -⟩ := call?_eq_some_iff.mp hm
      obtain ⟨d, ds, hopening, -⟩ := f.opening_eq_cons
      rw [hopening, List.cons_append] at heq
      obtain ⟨rfl, -⟩ := List.cons.inj heq
      exact absurd (by rw [hopening]; exact List.mem_cons_self) hc
    · exact ih ht h

/-! ## What a pass does to calls -/

/-- The text of a value has nothing in common with the start of a call. -/
theorem notMem_opening_of_callText {argument t : List Char} (ht : g.callText argument = .ok t) :
    t ≠ [] ∧ ∀ c ∈ t, c ∉ f.opening := by
  obtain ⟨x, -, hfinite, rfl⟩ := callText_eq_ok_iff.mp ht
  obtain ⟨hne, hdisjoint⟩ := numberText_disjoint hfinite
  exact ⟨hne, fun c hc ↦ hdisjoint c hc f⟩

/-- No pass adds a closing parenthesis to a text without one. -/
theorem closeParen_mem_of_resolveCalls (h : resolveCalls cs g = .ok r) (hr : ')' ∈ r) :
    ')' ∈ cs := by
  by_contra hnot
  have hkeep := resolveCalls_append_of_notMem (f := g) (a := []) hnot
  rw [List.nil_append, h, resolveCalls, Pattern.replaceAll_nil, ok_nil_inOrder] at hkeep
  exact hnot (Except.ok.inj hkeep ▸ hr)

/-- Where a call begins after a pass, one has begun before. -/
theorem exists_call?_of_resolveCalls (h : resolveCalls cs g = .ok r)
    {m : List Char × List Char} (hr : f.call? r = some m) : ∃ m', f.call? cs = some m' := by
  obtain ⟨argument, rest⟩ := m
  obtain ⟨rfl, hne, hclose⟩ := call?_eq_some_iff.mp hr
  have hhead : ∀ a t, g.callText a = .ok t → ∃ c ∈ t.head?, c ∉ f.opening := by
    intro a t ht
    obtain ⟨hne, hdisjoint⟩ := notMem_opening_of_callText (f := f) ht
    obtain ⟨c, t, rfl⟩ := List.exists_cons_of_ne_nil hne
    exact ⟨c, rfl, hdisjoint c List.mem_cons_self⟩
  obtain ⟨behind, rfl, hbehind⟩ := Pattern.exists_append_of_replaceAll hhead h
  obtain ⟨argument', rest', rfl, hclose'⟩ :=
    List.eq_append_cons_of_mem (closeParen_mem_of_resolveCalls hbehind (by simp))
  refine ⟨(argument', rest'), call?_eq_some_iff.mpr ⟨rfl, ?_, hclose'⟩⟩
  -- a call that is closed at once would be closed at once afterwards
  rintro rfl
  obtain ⟨w, -, hw⟩ := ok_inOrder_eq_ok_iff.mp ((resolveCalls_closeParen rest').symm.trans hbehind)
  obtain ⟨c, argument, rfl⟩ := List.exists_cons_of_ne_nil hne
  obtain ⟨rfl, -⟩ := List.cons.inj hw
  exact hclose List.mem_cons_self

/-- **A pass** leaves no call of its function and makes none of another one. -/
theorem hasCall_of_resolveCalls (h : resolveCalls cs g = .ok r) (hr : f.HasCall r) :
    f ≠ g ∧ f.HasCall cs := by
  revert hr
  refine Pattern.replaceAll_induction (p := g.calls)
    (motive := fun cs r ↦ f.HasCall r → f ≠ g ∧ f.HasCall cs) ?_ ?_ ?_ h
  · rintro ⟨before, argument, after, heq, -⟩
    simp at heq
  · intro c cs r hm hcs ih hr
    rcases hr.of_cons with ⟨m, hcall⟩ | hr
    · have hkeep : resolveCalls (c :: cs) g = .ok (c :: r) := by
        rw [resolveCalls, Pattern.replaceAll_cons _ _ hm]
        exact inOrder_eq_ok_iff.mpr ⟨[c], r, rfl, hcs, rfl⟩
      obtain ⟨m', hm'⟩ := exists_call?_of_resolveCalls hkeep hcall
      refine ⟨?_, hasCall_iff.mpr ⟨c :: cs, m', List.suffix_rfl, hm'⟩⟩
      rintro rfl
      rw [show f.calls.match? (c :: cs) = some m' from hm'] at hm
      cases hm
    · exact ⟨(ih hr).1, (ih hr).2.of_suffix (List.suffix_cons c cs)⟩
  · intro cs rest argument t r hm ht _ ih hr
    obtain ⟨hne, hrest⟩ := ih (hr.of_append (notMem_opening_of_callText ht).2)
    exact ⟨hne, hrest.of_suffix (g.calls_leavesSuffix hm)⟩

/-- **All passes that are left**, by induction on their functions. -/
theorem hasCall_of_foldlM {fs : List MathFunction} (h : fs.foldlM resolveCalls cs = .ok r)
    (hr : f.HasCall r) : f ∉ fs ∧ f.HasCall cs := by
  induction fs generalizing cs with
  | nil =>
    cases h
    exact ⟨List.not_mem_nil, hr⟩
  | cons g fs ih =>
    obtain ⟨next, hnext, hrest⟩ := foldlM_cons_eq_ok h
    obtain ⟨hfs, hcall⟩ := ih hrest
    obtain ⟨hne, hcs⟩ := hasCall_of_resolveCalls hnext hcall
    exact ⟨List.not_mem_cons_of_ne_of_not_mem hne hfs, hcs⟩

/-- Without a call the pass changes nothing. -/
theorem resolveCalls_of_not_hasCall (h : ¬ f.HasCall cs) : resolveCalls cs f = .ok cs := by
  refine Pattern.replaceAll_of_absent _ _ ((Pattern.absent_iff _).mpr fun u hu ↦ ?_)
  rcases hm : f.calls.match? u with _ | m
  · rfl
  · exact absurd (hasCall_iff.mpr ⟨u, m, hu, hm⟩) h

end MathFunction

/-! ## All passes -/

/-- **The passes for calls settle a text**: what they leave has no complete call of any function, so
that another run of all passes would leave it as it is. -/
theorem resolveFunctions_settled {cs r : List Char} (h : resolveFunctions cs = .ok r) :
    (∀ f : MathFunction, ¬ f.HasCall r) ∧ resolveFunctions r = .ok r := by
  have hnone : ∀ f : MathFunction, ¬ f.HasCall r :=
    fun f hr ↦ (MathFunction.hasCall_of_foldlM h hr).1 f.mem_all
  exact ⟨hnone, foldlM_of_keep fun f _ ↦ MathFunction.resolveCalls_of_not_hasCall (hnone f)⟩

/-- A call is resolved between one that is empty and one that is not closed. -/
theorem resolveFunctions_settled_between :
    let cs := ['s', 'i', 'n', '(', ')', 's', 'q', 'r', 't', '(', '1', '6', ')', 'l', 'n', '(']
    let r := ['s', 'i', 'n', '(', ')', '4', 'l', 'n', '(']
    resolveFunctions cs = .ok r ∧ (∀ f : MathFunction, ¬ f.HasCall r) ∧
      resolveFunctions r = .ok r := by
  intro cs r
  have h : resolveFunctions cs = .ok r := by decide +kernel
  exact ⟨h, resolveFunctions_settled h⟩

end Calculator

import Calculator.Proofs.Decimal.NumberText
import Calculator.Proofs.Expr.Spliced
import Calculator.Proofs.Expr.Unreadable
import Calculator.Proofs.Reduction.Stages

/-!
# What keeps a call from reaching further

A call takes everything up to the next closing parenthesis, wherever that is.  If the text has a
part in it that no argument can hold, then calls in front of that part either end before it or are
errors.  So in a pass that succeeds, such a part is a *barrier*: the text in front of it and the
text from there on are replaced one after the other (`MathFunction.resolveCalls_barrier`).  An
opening parenthesis is a barrier unless it is that of a call itself
(`MathFunction.resolveCalls_append_openParen`).

A closing parenthesis is no barrier in general, but it is one behind a text in which parentheses are
balanced (`Balanced`), and a pass keeps the depth to which they are nested
(`MathFunction.depth?_resolveCalls`).

Facts about the result of a pass as a whole are proved by `Pattern.replaceAll_induction`, along the
text as the pass goes through it.
-/

set_option autoImplicit false

namespace Calculator

/-! ## What a pass leaves -/

namespace Pattern

variable {α : Type} {p : Pattern α} {replace : α → Except EvalError (List Char)}

/-- **A pass that succeeds**, step by step: a character is kept, or a match is replaced. -/
theorem replaceAll_induction {motive : List Char → List Char → Prop} (nil : motive [] [])
    (keep : ∀ c cs r, p.match? (c :: cs) = none → p.replaceAll replace cs = .ok r →
      motive cs r → motive (c :: cs) (c :: r))
    (replaced : ∀ cs rest m t r, p.match? cs = some (m, rest) → replace m = .ok t →
      p.replaceAll replace rest = .ok r → motive rest r → motive cs (t ++ r))
    {cs r : List Char} (h : p.replaceAll replace cs = .ok r) : motive cs r := by
  induction hn : cs.length using Nat.strongRecOn generalizing cs r with
  | ind n ih =>
    subst hn
    rcases hm : p.match? cs with _ | ⟨m, rest⟩
    · cases cs with
      | nil =>
        rw [replaceAll_nil] at h
        cases h
        exact nil
      | cons c cs =>
        rw [replaceAll_cons p replace hm] at h
        obtain ⟨r, hr, rfl⟩ := ok_inOrder_eq_ok_iff.mp h
        exact keep c cs r hm hr (ih cs.length (Nat.lt_succ_self _) hr rfl)
    · rw [replaceAll_of_some p replace hm] at h
      obtain ⟨t, r, ht, hr, rfl⟩ := inOrder_eq_ok_iff.mp h
      exact replaced cs rest m t r hm ht hr (ih rest.length (p.shorter hm) hr rfl)

variable {good : Char → Prop}

/-- A property of the last character is kept, if all replacements have it. -/
theorem replaceAll_last (hp : p.LeavesSuffix)
    (hgood : ∀ m t, replace m = .ok t → ∃ c ∈ t.getLast?, good c) {cs r : List Char}
    (h : p.replaceAll replace cs = .ok r) (hcs : ∃ c ∈ cs.getLast?, good c) :
    ∃ c ∈ r.getLast?, good c := by
  have hbehind : ∀ {t r : List Char}, (∃ c ∈ r.getLast?, good c) →
      ∃ c ∈ (t ++ r).getLast?, good c := fun ⟨c, hc, hgood⟩ ↦
    ⟨c, List.mem_getLast?_append_of_mem_getLast? hc, hgood⟩
  revert hcs
  refine replaceAll_induction (p := p) (motive := fun cs r ↦ (∃ c ∈ cs.getLast?, good c) →
    ∃ c ∈ r.getLast?, good c) (fun hcs ↦ hcs) ?_ ?_ h
  · rintro c cs r - hr ih ⟨d, hd, hgood⟩
    rcases Token.getLast?_append_cases (a := [c]) hd with hlast | ⟨rfl, hlast⟩
    · exact hbehind (t := [c]) (ih ⟨d, hlast, hgood⟩)
    · rw [replaceAll_nil] at hr
      cases hr
      exact ⟨d, hlast, hgood⟩
  · rintro cs rest m t r hm ht hr ih ⟨d, hd, hd'⟩
    obtain ⟨before, rfl⟩ := hp hm
    rcases Token.getLast?_append_cases hd with hlast | ⟨rfl, -⟩
    · exact hbehind (ih ⟨d, hlast, hd'⟩)
    · rw [replaceAll_nil] at hr
      cases hr
      rw [List.append_nil]
      exact hgood m t ht

/-- The characters at the end of a result have been there before, up to the first one that a
replacement could end with. -/
theorem replaceAll_suffix (hp : p.LeavesSuffix)
    (hgood : ∀ m t, replace m = .ok t → ∃ c ∈ t.getLast?, good c) {cs r : List Char}
    (h : p.replaceAll replace cs = .ok r) {s : List Char} (hs : s <:+ r)
    (hnot : ∀ c ∈ s, ¬ good c) : s <:+ cs := by
  -- if nothing of the result can be a replacement, all of it has been kept
  have hwhole : ∀ {cs r : List Char}, p.replaceAll replace cs = .ok r → (∀ c ∈ r, ¬ good c) →
      r = cs := by
    intro cs r h
    refine replaceAll_induction (p := p) (motive := fun cs r ↦ (∀ c ∈ r, ¬ good c) → r = cs)
      (fun _ ↦ rfl) ?_ ?_ h
    · intro c cs r _ _ ih hr
      rw [ih fun d hd ↦ hr d (List.mem_cons_of_mem c hd)]
    · intro cs rest m t r _ ht _ _ hr
      obtain ⟨c, hc, hgood⟩ := hgood m t ht
      exact absurd hgood (hr c (List.mem_append_left r (List.mem_of_getLast? hc)))
  revert hs
  refine replaceAll_induction (p := p) (motive := fun cs r ↦ s <:+ r → s <:+ cs)
    (fun hs ↦ hs) ?_ ?_ h
  · intro c cs r _ hr ih hs
    rcases List.suffix_cons_iff.mp hs with rfl | hs
    · rw [hwhole hr fun d hd ↦ hnot d (List.mem_cons_of_mem c hd)]
    · exact (ih hs).trans (List.suffix_cons c cs)
  · rintro cs rest m t r hm ht - ih hs
    obtain ⟨u, hu⟩ := hs
    rcases List.append_eq_append_iff.mp hu with ⟨z, rfl, rfl⟩ | ⟨z, -, rfl⟩
    · rcases List.eq_nil_or_concat z with rfl | ⟨z, c, rfl⟩
      · exact (ih (by simp)).trans (hp hm)
      · obtain ⟨d, hd, hgood⟩ := hgood m _ ht
        rw [List.concat_eq_append, ← List.append_assoc, List.getLast?_concat] at hd
        cases hd
        exact absurd hgood (hnot c (by simp))
    · exact (ih (List.suffix_append z s)).trans (hp hm)

end Pattern

/-! ## Texts of values -/

/-- The text of a number ends with a digit or a point. -/
theorem endsAt_numberText {x : Float} (h : x.isFinite = true) :
    ∃ c ∈ (numberText x).getLast?, Numeral.endsAt c = true := by
  obtain ⟨n, hn, hc, htext⟩ := numberText_cases h
  obtain ⟨d, ds, hcons, -⟩ := Numeral.head_text hn hc
  have hne : n.text ≠ [] := by rw [hcons]; exact List.cons_ne_nil d ds
  have hlast := List.getLast?_eq_some_getLast hne
  refine ⟨n.text.getLast hne, ?_, Numeral.endsAt_text hn hc _ hlast⟩
  rcases htext with htext | htext
  · rw [htext]
    exact hlast
  · rw [htext]
    show _ ∈ (['-'] ++ n.text).getLast?
    exact List.mem_getLast?_append_of_mem_getLast? hlast

theorem paren_notMem_numberText {x : Float} (h : x.isFinite = true) :
    '(' ∉ numberText x ∧ ')' ∉ numberText x :=
  ⟨fun hmem ↦ absurd (mem_numberText h _ hmem) (by decide),
    fun hmem ↦ absurd (mem_numberText h _ hmem) (by decide)⟩

/-- The characters of numerals are in no name. -/
theorem MathFunction.notMem_opening {c : Char}
    (h : Numeral.starts c = true ∨ Numeral.isMark c = true ∨ c = '+' ∨ c = '-')
    (f : MathFunction) : c ∉ f.opening := by
  intro hmem
  have hall : ∀ d ∈ f.opening,
      ¬ (Numeral.starts d = true ∨ Numeral.isMark d = true ∨ d = '+' ∨ d = '-') := by
    cases f <;> simp [opening, name, Numeral.starts, Numeral.isMark, Char.isDigit]
  exact hall c hmem h

/-- The text of a number is not empty and has no character in common with a name. -/
theorem numberText_disjoint {x : Float} (h : x.isFinite = true) :
    numberText x ≠ [] ∧ ∀ c ∈ numberText x, ∀ f : MathFunction, c ∉ f.opening := by
  refine ⟨fun hnil ↦ ?_, fun c hc f ↦ f.notMem_opening (mem_numberText h c hc)⟩
  obtain ⟨c, hc, -⟩ := endsAt_numberText h
  rw [hnil] at hc
  cases hc

theorem finiteText_eq_ok_iff {x : Float} {t : List Char} :
    finiteText x = .ok t ↔ x.isFinite = true ∧ t = numberText x := by
  rw [finiteText]
  by_cases hx : x.isFinite = true
  · simp [hx, eq_comm]
  · simp [hx]

theorem finiteText_eq_error {x : Float} {e : EvalError} (h : finiteText x = .error e) :
    e = .notFinite := by
  rw [finiteText] at h
  split at h <;> cases h
  rfl

namespace MathFunction

variable {f : MathFunction}

theorem callText_eq_ok_iff {argument t : List Char} :
    f.callText argument = .ok t ↔
      ∃ x, evaluateArithmetic argument = .ok x ∧ (f.apply x).isFinite = true ∧
        t = numberText (f.apply x) := by
  rw [callText]
  cases evaluateArithmetic argument with
  | error cause => simp
  | ok x => simp [finiteText_eq_ok_iff]

/-- What replaces a call ends with a digit or a point. -/
theorem endsAt_callText {argument t : List Char} (h : f.callText argument = .ok t) :
    ∃ c ∈ t.getLast?, Numeral.endsAt c = true := by
  obtain ⟨x, -, hfinite, rfl⟩ := callText_eq_ok_iff.mp h
  exact endsAt_numberText hfinite

/-! ## Barriers -/

variable {a b k r : List Char}

/-- A text without a closing parenthesis at the start of another one ends before the first. -/
theorem prefix_of_prefix_closeParen {u v : List Char} (hk : k <+: u ++ ')' :: v)
    (hclose : ')' ∉ k) : k <+: u := by
  obtain ⟨w, hw⟩ := hk
  rcases List.append_eq_append_iff.mp hw with ⟨z, rfl, -⟩ | ⟨z, rfl, hz⟩
  · exact List.prefix_append k z
  · rcases z with _ | ⟨d, ds⟩
    · rw [List.append_nil]
    · obtain rfl := (List.cons.inj hz).1
      exact absurd (by simp) hclose

/-- A call in a text is one in every longer text. -/
theorem call?_append {argument rest : List Char} (h : f.call? a = some (argument, rest))
    (b : List Char) : f.call? (a ++ b) = some (argument, rest ++ b) := by
  obtain ⟨rfl, hargument⟩ := call?_eq_some_iff.mp h
  exact call?_eq_some_iff.mpr ⟨by simp, hargument⟩

/-- A call that starts in front of a barrier and has a value ends in front of it. -/
theorem call?_barrier {argument rest t : List Char}
    (hcall : f.call? (a ++ b) = some (argument, rest)) (ht : f.callText argument = .ok t)
    (hk : k <+: b) (hclose : ')' ∉ k) (hunreadable : Unreadable k) (ha : a ≠ [])
    (hseam : ∀ x y, f.opening = x ++ y → x ≠ [] → y ≠ [] → x <:+ a → ¬ y <+: b) :
    ∃ rest', f.call? a = some (argument, rest') ∧ rest' ++ b = rest := by
  obtain ⟨heq, hne, hnot⟩ := call?_eq_some_iff.mp hcall
  obtain ⟨x, hread, -, -⟩ := callText_eq_ok_iff.mp ht
  -- no argument goes on with the barrier
  have hstop : ∀ {z w : List Char}, argument = z ++ w → ¬ k <+: w := by
    rintro z w rfl ⟨w, rfl⟩
    exact hunreadable z w x hnot hread
  obtain ⟨z, rfl, hz⟩ : ∃ z, a = f.opening ++ z ∧ z ++ b = argument ++ ')' :: rest := by
    rcases List.append_eq_append_iff.mp heq with ⟨y, hopening, hb⟩ | ⟨z, ha, hz⟩
    · rcases y with _ | ⟨d, ds⟩
      · exact ⟨[], by simpa using hopening.symm, hb⟩
      · exact absurd (hb ▸ List.prefix_append _ _)
          (hseam a (d :: ds) hopening ha (List.cons_ne_nil _ _) List.suffix_rfl)
    · exact ⟨z, ha, hz.symm⟩
  rcases List.append_eq_append_iff.mp hz with ⟨w, hargument, rfl⟩ | ⟨w, rfl, hw⟩
  · exact absurd (prefix_of_prefix_closeParen hk hclose) (hstop hargument)
  · rcases w with _ | ⟨d, ds⟩
    · rw [← show ')' :: rest = b from hw] at hk
      exact absurd (prefix_of_prefix_closeParen (u := []) hk hclose)
        (hstop (List.append_nil argument).symm)
    · obtain ⟨rfl, rfl⟩ := List.cons.inj hw
      exact ⟨ds, call?_eq_some_iff.mpr ⟨rfl, hne, hnot⟩, rfl⟩

/-- **A barrier.**  If the second text begins with a part that no argument can hold, and no name
reaches over the seam, then a pass that succeeds replaces the two texts one after the other. -/
theorem resolveCalls_barrier (h : resolveCalls (a ++ b) f = .ok r) (hk : k <+: b)
    (hclose : ')' ∉ k) (hunreadable : Unreadable k)
    (hseam : ∀ x y, f.opening = x ++ y → x ≠ [] → y ≠ [] → x <:+ a → ¬ y <+: b) :
    ∃ a' b', resolveCalls a f = .ok a' ∧ resolveCalls b f = .ok b' ∧ a' ++ b' = r := by
  induction hn : a.length using Nat.strongRecOn generalizing a r with
  | ind n ih =>
    subst hn
    rcases a with _ | ⟨c, cs⟩
    · exact ⟨[], r, Pattern.replaceAll_nil _ _, h, rfl⟩
    have hrestrict : ∀ {w : List Char}, w <:+ c :: cs →
        ∀ x y, f.opening = x ++ y → x ≠ [] → y ≠ [] → x <:+ w → ¬ y <+: b :=
      fun hw x y hopening hx hy hsuffix ↦ hseam x y hopening hx hy (hsuffix.trans hw)
    rcases hm : f.call? (c :: cs ++ b) with _ | ⟨argument, rest⟩
    · have hnone : f.call? (c :: cs) = none := by
        rcases hcall : f.call? (c :: cs) with _ | ⟨argument, rest⟩
        · rfl
        · rw [call?_append hcall] at hm
          cases hm
      rw [resolveCalls, List.cons_append, Pattern.replaceAll_cons _ _ hm] at h
      obtain ⟨r, hr, rfl⟩ := ok_inOrder_eq_ok_iff.mp h
      obtain ⟨a', b', ha', hb', rfl⟩ :=
        ih cs.length (Nat.lt_succ_self _) hr (hrestrict (List.suffix_cons c cs)) rfl
      refine ⟨c :: a', b', ?_, hb', rfl⟩
      rw [resolveCalls, Pattern.replaceAll_cons _ _ hnone]
      exact inOrder_eq_ok_iff.mpr ⟨[c], a', rfl, ha', rfl⟩
    · rw [resolveCalls, Pattern.replaceAll_of_some _ _ hm] at h
      obtain ⟨t, r, ht, hr, rfl⟩ := inOrder_eq_ok_iff.mp h
      obtain ⟨rest, hcall, rfl⟩ :=
        call?_barrier hm ht hk hclose hunreadable (List.cons_ne_nil c cs) hseam
      obtain ⟨a', b', ha', hb', rfl⟩ := ih rest.length (f.calls.shorter hcall) hr
        (hrestrict (f.calls_leavesSuffix hcall)) rfl
      refine ⟨t ++ a', b', ?_, hb', List.append_assoc t a' b'⟩
      rw [resolveCalls, Pattern.replaceAll_of_some _ _ hcall]
      exact inOrder_eq_ok_iff.mpr ⟨t, a', ht, ha', rfl⟩

/-! ## Opening parentheses -/

/-- **An opening parenthesis** that no name stands in front of is a barrier. -/
theorem resolveCalls_append_openParen (hname : ¬ f.name.toList <:+ a)
    (h : resolveCalls (a ++ '(' :: b) f = .ok r) :
    ∃ a' b', resolveCalls a f = .ok a' ∧ resolveCalls b f = .ok b' ∧ a' ++ '(' :: b' = r := by
  have hseam : ∀ x y, f.opening = x ++ y → x ≠ [] → y ≠ [] → x <:+ a → ¬ y <+: '(' :: b := by
    intro x y hopening _ hy hx hyb
    obtain ⟨d, ds, rfl⟩ := List.exists_cons_of_ne_nil hy
    obtain ⟨rfl, -⟩ := List.cons_prefix_cons.mp hyb
    obtain ⟨rfl, -, -⟩ := (List.append_cons_inj_of_notMem f.openParen_notMem_name
      List.not_mem_nil).mp hopening
    exact hname hx
  obtain ⟨a', w, ha', hw, rfl⟩ := resolveCalls_barrier h (k := ['(']) (by simp) (by simp)
    (unreadable_openParen (by simp)) hseam
  have hskips : f.calls.Skips ['('] :=
    calls_skips (List.forall_mem_singleton.mpr (startsNothing_openParen.2 f))
  have hkeep : resolveCalls ('(' :: b) f = inOrder (.ok ['(']) (resolveCalls b f) :=
    Pattern.replaceAll_skip _ f.callText hskips b
  rw [hkeep] at hw
  obtain ⟨b', hb', rfl⟩ := ok_inOrder_eq_ok_iff.mp hw
  exact ⟨a', b', ha', hb', rfl⟩

/-- A pass puts no name at the end of a text. -/
theorem name_suffix_of_resolveCalls {g : MathFunction} (h : resolveCalls a f = .ok r)
    (hname : g.name.toList <:+ r) : g.name.toList <:+ a := by
  refine Pattern.replaceAll_suffix f.calls_leavesSuffix (fun _ _ ↦ endsAt_callText) h hname ?_
  cases g <;> simp [name, Numeral.endsAt, Char.isDigit]

end MathFunction

/-! ## Balanced parentheses -/

/-- How many parentheses are open after a character, unless it closes one that is not. -/
def nest : Nat → Char → Option Nat
  | d, '(' => some (d + 1)
  | 0, ')' => none
  | d + 1, ')' => some d
  | d, _ => some d

/-- How many parentheses are open after a text. -/
def depth? (d : Nat) (cs : List Char) : Option Nat := cs.foldlM nest d

/-- Every parenthesis of the text is closed, and none is closed that is not open. -/
def Balanced (cs : List Char) : Prop := depth? 0 cs = some 0

instance (cs : List Char) : Decidable (Balanced cs) :=
  inferInstanceAs (Decidable (_ = _))

theorem nest_of_ne {c : Char} (h : c ≠ '(' ∧ c ≠ ')') (d : Nat) : nest d c = some d := by
  unfold nest
  split <;> simp_all

theorem depth?_cons (d : Nat) (c : Char) (cs : List Char) :
    depth? d (c :: cs) = (nest d c).bind fun e ↦ depth? e cs := rfl

theorem depth?_singleton (d : Nat) (c : Char) : depth? d [c] = nest d c :=
  Option.bind_fun_some _

theorem depth?_append (d : Nat) (a b : List Char) :
    depth? d (a ++ b) = (depth? d a).bind fun e ↦ depth? e b := by
  rw [depth?, List.foldlM_append]
  rfl

theorem depth?_of_forall_ne {cs : List Char} (h : ∀ c ∈ cs, c ≠ '(' ∧ c ≠ ')') (d : Nat) :
    depth? d cs = some d := by
  induction cs with
  | nil => rfl
  | cons c cs ih =>
    obtain ⟨hc, hcs⟩ := List.forall_mem_cons.mp h
    rw [depth?_cons, nest_of_ne hc]
    exact ih hcs

/-- Where no parenthesis is closed, no fewer are open afterwards. -/
theorem le_of_depth? {cs : List Char} (h : ')' ∉ cs) {d e : Nat} (hd : depth? d cs = some e) :
    d ≤ e := by
  induction cs generalizing d with
  | nil => cases hd; exact Nat.le_refl _
  | cons c cs ih =>
    obtain ⟨hc, hcs⟩ := List.ne_and_not_mem_of_not_mem_cons h
    by_cases hopen : c = '('
    · subst hopen
      exact Nat.le_of_succ_le (ih hcs hd)
    · rw [depth?_cons, nest_of_ne ⟨hopen, hc.symm⟩] at hd
      exact ih hcs hd

namespace MathFunction

variable {f : MathFunction}

theorem depth?_opening (d : Nat) : depth? d f.opening = some (d + 1) := by
  have hname : ∀ c ∈ f.name.toList, c ≠ '(' ∧ c ≠ ')' := by cases f <;> simp [name]
  rw [opening, depth?_append, depth?_of_forall_ne hname]
  rfl

/-- A balanced text closes the calls that it opens. -/
theorem not_hasOpenCall_of_balanced {cs : List Char} (h : Balanced cs) : ¬ f.HasOpenCall cs := by
  rintro ⟨before, after, rfl, hafter⟩
  rw [Balanced, depth?_append] at h
  obtain ⟨d, -, hd⟩ := Option.bind_eq_some_iff.mp h
  rw [depth?_append, depth?_opening] at hd
  exact absurd (le_of_depth? hafter hd) (Nat.not_succ_le_zero d)

/-- **A pass** keeps the depth, because the argument of a call that has a value has no
parentheses. -/
theorem depth?_resolveCalls {cs r : List Char} (h : resolveCalls cs f = .ok r) (d : Nat) :
    depth? d r = depth? d cs := by
  revert d
  refine Pattern.replaceAll_induction (p := f.calls)
    (motive := fun cs r ↦ ∀ d, depth? d r = depth? d cs) (fun _ ↦ rfl) ?_ ?_ h
  · intro c cs r _ _ ih d
    rw [depth?_cons, depth?_cons]
    exact congrArg _ (funext ih)
  · intro cs rest argument t r hm ht _ ih d
    obtain ⟨rfl, -, hclose⟩ := call?_eq_some_iff.mp hm
    obtain ⟨x, hread, hfinite, rfl⟩ := callText_eq_ok_iff.mp ht
    have hopen : '(' ∉ argument := fun hmem ↦
      unreadable_openParen hmem [] [] x (by simpa using hclose) (by simpa using hread)
    have hargument : ∀ e, depth? e argument = some e :=
      depth?_of_forall_ne fun c hc ↦ ⟨fun h ↦ hopen (h ▸ hc), fun h ↦ hclose (h ▸ hc)⟩
    have htext : ∀ e, depth? e (numberText (f.apply x)) = some e := by
      obtain ⟨h1, h2⟩ := paren_notMem_numberText hfinite
      exact depth?_of_forall_ne fun c hc ↦ ⟨fun h ↦ h1 (h ▸ hc), fun h ↦ h2 (h ▸ hc)⟩
    rw [depth?_append, htext, depth?_append, depth?_opening]
    show depth? d r = (depth? (d + 1) (argument ++ ')' :: rest))
    rw [depth?_append, hargument]
    exact ih d

end MathFunction

end Calculator

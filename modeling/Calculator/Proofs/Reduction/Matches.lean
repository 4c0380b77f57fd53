import Calculator.Reduction.Factorials

/-!
# Where matches are, and where they are not

`Pattern.replaceAll` is defined by what it does at one place of a text.  This file says what it does
to a whole text that is put together from pieces.

* `MathFunction.call?_eq_some_iff` and `factorial?_eq_some_iff` say which texts start with a match,
  and what is left behind it.
* `Pattern.replaceAll_append` is the law for `a ++ b`: if nothing that follows `a` changes the
  matches that start in `a`, which is `Pattern.Splits`, then the two parts are replaced one after
  the other.  A part in which no match can start, whatever follows it, is simply kept
  (`Pattern.replaceAll_skip`).
* `MathFunction.calls_splits` and `factorials_splits` say when a text splits.  A call can only reach
  over the end of `a` if `a` has a call in it that is not closed, which is `HasOpenCall`, or if it
  ends within the call's name.

One text after the other, each of which may have failed, is `inOrder`.
-/

set_option autoImplicit false

namespace Calculator

/-! ## Results in order -/

section

variable {ε : Type}

/-- One text after the other; the first failure is the answer. -/
def inOrder (x y : Except ε (List Char)) : Except ε (List Char) := x.bind fun a ↦ y.map (a ++ ·)

theorem inOrder_assoc (x y z : Except ε (List Char)) :
    inOrder (inOrder x y) z = inOrder x (inOrder y z) := by
  cases x with
  | error e => rfl
  | ok a =>
    cases y with
    | error e => rfl
    | ok b =>
      cases z with
      | error e => rfl
      | ok c => exact congrArg Except.ok (List.append_assoc a b c)

theorem ok_nil_inOrder (x : Except ε (List Char)) : inOrder (.ok []) x = x := by
  cases x <;> rfl

theorem inOrder_ok_nil (x : Except ε (List Char)) : inOrder x (.ok []) = x := by
  cases x with
  | error e => rfl
  | ok a => exact congrArg Except.ok (List.append_nil a)

end

/-! ## Replacing in a text of several parts -/

namespace Pattern

variable {α ε : Type} (p : Pattern α) (replace : α → Except ε (List Char))

theorem match?_nil : p.match? [] = none := by
  rcases h : p.match? [] with _ | ⟨m, rest⟩
  · rfl
  · exact absurd (p.shorter h) (Nat.not_lt_zero _)

theorem replaceAll_nil : p.replaceAll replace [] = .ok [] := by
  rw [replaceAll]
  split
  · rename_i h
    rw [match?_nil] at h
    cases h
  · rfl

theorem replaceAll_of_some {cs rest : List Char} {m : α} (h : p.match? cs = some (m, rest)) :
    p.replaceAll replace cs = inOrder (replace m) (p.replaceAll replace rest) := by
  rw [replaceAll]
  split
  · rename_i h'
    rw [h] at h'
    cases h'
    rfl
  · rename_i h'
    rw [h] at h'
    cases h'

theorem replaceAll_cons {c : Char} {cs : List Char} (h : p.match? (c :: cs) = none) :
    p.replaceAll replace (c :: cs) = inOrder (.ok [c]) (p.replaceAll replace cs) := by
  rw [replaceAll]
  split
  · rename_i h'
    rw [h] at h'
    cases h'
  · rfl

/-- No match starts anywhere if none starts an end of the text. -/
theorem absent_iff {cs : List Char} : p.Absent cs ↔ ∀ u, u <:+ cs → p.match? u = none := by
  induction cs with
  | nil => simp [Absent, List.suffix_nil]
  | cons c cs ih =>
    rw [Absent, ih]
    constructor
    · rintro ⟨hc, hcs⟩ u hu
      rcases List.suffix_cons_iff.mp hu with rfl | hu
      · exact hc
      · exact hcs u hu
    · exact fun h ↦ ⟨h _ List.suffix_rfl, fun u hu ↦ h u (hu.trans (List.suffix_cons c cs))⟩

/-- Nothing is matched that starts in `a`, whatever follows. -/
def Skips (a : List Char) : Prop :=
  ∀ c cs rest, (c :: cs) <:+ a → p.match? (c :: cs ++ rest) = none

theorem Skips.append {p : Pattern α} {a b : List Char} (ha : p.Skips a) (hb : p.Skips b) :
    p.Skips (a ++ b) := by
  rintro c cs rest ⟨u, hu⟩
  rcases List.append_eq_append_iff.mp hu with ⟨x, rfl, hx⟩ | ⟨y, -, rfl⟩
  · cases x with
    | nil => exact hb c cs rest ⟨[], hx⟩
    | cons d ds =>
      obtain ⟨rfl, htail⟩ := List.cons.inj hx
      rw [show cs = ds ++ b from htail, List.cons_append, List.append_assoc]
      exact ha c ds (b ++ rest) (List.suffix_append u _)
  · exact hb c cs rest (List.suffix_append y _)

/-- A part in which no match starts is kept. -/
theorem replaceAll_skip {a : List Char} (h : p.Skips a) (b : List Char) :
    p.replaceAll replace (a ++ b) = inOrder (.ok a) (p.replaceAll replace b) := by
  induction a with
  | nil => exact (ok_nil_inOrder _).symm
  | cons c cs ih =>
    have hcs : p.Skips cs := fun d ds rest hd ↦ h d ds rest (hd.trans (List.suffix_cons c cs))
    have hnone : p.match? (c :: (cs ++ b)) = none := h c cs b List.suffix_rfl
    rw [List.cons_append, replaceAll_cons p replace hnone, ih hcs, ← inOrder_assoc]
    rfl

theorem replaceAll_of_skips {a : List Char} (h : p.Skips a) : p.replaceAll replace a = .ok a := by
  have hkeep := p.replaceAll_skip replace h []
  rwa [List.append_nil, replaceAll_nil, inOrder_ok_nil] at hkeep

/-- What follows `a` makes no difference to the matches that start in `a`. -/
def Splits (a b : List Char) : Prop :=
  ∀ c cs, (c :: cs) <:+ a →
    p.match? (c :: cs ++ b) = (p.match? (c :: cs)).map fun m ↦ (m.1, m.2 ++ b)

/-- What is behind a match is the end of the text. -/
def LeavesSuffix : Prop :=
  ∀ {cs rest : List Char} {m : α}, p.match? cs = some (m, rest) → rest <:+ cs

/-- **A text that splits** is replaced in two parts.  The induction is on the length of the first
part, because a match takes away more than one character of it. -/
theorem replaceAll_append (hp : p.LeavesSuffix) {a b : List Char} (h : p.Splits a b) :
    p.replaceAll replace (a ++ b)
      = inOrder (p.replaceAll replace a) (p.replaceAll replace b) := by
  induction hn : a.length using Nat.strongRecOn generalizing a with
  | ind n ih =>
    cases a with
    | nil => rw [replaceAll_nil, ok_nil_inOrder, List.nil_append]
    | cons c cs =>
      have hseam : p.match? (c :: (cs ++ b))
          = (p.match? (c :: cs)).map fun m ↦ (m.1, m.2 ++ b) := h c cs List.suffix_rfl
      rcases hm : p.match? (c :: cs) with _ | ⟨m, rest⟩
      · rw [hm] at hseam
        have hcs : p.Splits cs b := fun d ds hd ↦ h d ds (hd.trans (List.suffix_cons c cs))
        have hlt : cs.length < n := by simp only [List.length_cons] at hn; omega
        rw [List.cons_append, replaceAll_cons p replace hseam, replaceAll_cons p replace hm,
          ih cs.length hlt hcs rfl, inOrder_assoc]
      · rw [hm] at hseam
        have hrest : p.Splits rest b := fun d ds hd ↦ h d ds (hd.trans (hp hm))
        have hlt : rest.length < n := by rw [← hn]; exact p.shorter hm
        rw [List.cons_append, replaceAll_of_some p replace hseam,
          replaceAll_of_some p replace hm, ih rest.length hlt hrest rfl, inOrder_assoc]

end Pattern

/-! ## Calls -/

theorem splitArgument_eq_some_iff {cs argument rest : List Char} :
    splitArgument cs = some (argument, rest) ↔
      cs = argument ++ ')' :: rest ∧ argument ≠ [] ∧ ')' ∉ argument := by
  constructor
  · intro h
    rw [splitArgument] at h
    split at h
    · rename_i a as c rest' htake hdrop
      have happ := List.takeWhile_append_dropWhile (p := (· != ')')) (l := cs)
      have hc : c = ')' := by
        have hhead := List.head_dropWhile_not (· != ')') (l := cs) (by simp [hdrop])
        simpa [hdrop] using hhead
      have hmem : ∀ d ∈ a :: as, (d != ')') = true := by
        rw [← htake]
        exact List.all_eq_true.mp List.all_takeWhile
      rw [htake, hdrop, hc] at happ
      cases h
      exact ⟨happ.symm, List.cons_ne_nil _ _, fun hp ↦ by simpa using hmem ')' hp⟩
    · cases h
  · rintro ⟨rfl, hne, hnot⟩
    have hall : ∀ d ∈ argument, (d != ')') = true :=
      fun d hd ↦ by simpa using fun heq : d = ')' ↦ hnot (heq ▸ hd)
    have htake : (')' :: rest).takeWhile (· != ')') = [] := rfl
    have hdrop : (')' :: rest).dropWhile (· != ')') = ')' :: rest := rfl
    rw [splitArgument, List.takeWhile_append_of_pos hall, List.dropWhile_append_of_pos hall,
      htake, hdrop, List.append_nil]
    cases argument with
    | nil => exact absurd rfl hne
    | cons a as => rfl

namespace MathFunction

/-- The start of a call. -/
def opening (f : MathFunction) : List Char := f.name.toList ++ ['(']

theorem openParen_notMem_name (f : MathFunction) : '(' ∉ f.name.toList := by
  cases f <;> decide

theorem closeParen_notMem_opening (f : MathFunction) : ')' ∉ f.opening := by
  cases f <;> decide

/-- **What a call is.** -/
theorem call?_eq_some_iff {f : MathFunction} {cs argument rest : List Char} :
    f.call? cs = some (argument, rest) ↔
      cs = f.opening ++ (argument ++ ')' :: rest) ∧ argument ≠ [] ∧ ')' ∉ argument := by
  rw [call?]
  rw [Option.bind_eq_some_iff]
  constructor
  · rintro ⟨after, h1, h2⟩
    rw [textAfter?_eq_some_iff] at h1
    obtain ⟨rfl, hrest⟩ := splitArgument_eq_some_iff.mp h2
    exact ⟨h1, hrest⟩
  · rintro ⟨rfl, hrest⟩
    exact ⟨_, textAfter?_eq_some_iff.mpr rfl, splitArgument_eq_some_iff.mpr ⟨rfl, hrest⟩⟩

theorem calls_leavesSuffix (f : MathFunction) : f.calls.LeavesSuffix := by
  intro cs rest argument h
  obtain ⟨rfl, -⟩ := call?_eq_some_iff.mp h
  exact ⟨f.opening ++ (argument ++ [')']), by simp⟩

/-- A call is opened in the text and not closed. -/
def HasOpenCall (f : MathFunction) (cs : List Char) : Prop :=
  ∃ before after, cs = before ++ (f.opening ++ after) ∧ ')' ∉ after

/-- A text that starts a call without closing it, as the end of another text. -/
theorem hasOpenCall_of_suffix {f : MathFunction} {cs after : List Char}
    (h : f.opening ++ after <:+ cs) (hafter : ')' ∉ after) : f.HasOpenCall cs := by
  obtain ⟨before, rfl⟩ := h
  exact ⟨before, after, rfl, hafter⟩

/-- A text without an open call splits in front of anything that does not go on with a name. -/
theorem calls_splits {f : MathFunction} {a b : List Char} (hopen : ¬ f.HasOpenCall a)
    (hb : ∀ d ∈ b.head?, d ∉ f.opening) : f.calls.Splits a b := by
  intro c cs hsuffix
  show f.call? (c :: cs ++ b) = (f.call? (c :: cs)).map fun m ↦ (m.1, m.2 ++ b)
  generalize c :: cs = u at hsuffix
  rcases hu : f.call? u with _ | ⟨argument, rest⟩
  · rcases hub : f.call? (u ++ b) with _ | ⟨argument, rest⟩
    · rfl
    · exfalso
      obtain ⟨heq, hne, hnot⟩ := call?_eq_some_iff.mp hub
      rcases List.append_eq_append_iff.mp heq with ⟨x, hopening, hbx⟩ | ⟨y, rfl, hy⟩
      · -- the text ends within the opening
        cases x with
        | nil =>
          have hux : u = f.opening ++ [] := by rw [hopening, List.append_nil, List.append_nil]
          exact hopen (hasOpenCall_of_suffix (hux ▸ hsuffix) List.not_mem_nil)
        | cons d ds =>
          rw [hbx] at hb
          exact hb d rfl (by rw [hopening]; simp)
      · rcases List.append_eq_append_iff.mp hy with ⟨z, rfl, hz⟩ | ⟨z, rfl, -⟩
        · cases z with
          | nil =>
            rw [List.append_nil] at hsuffix
            exact hopen (hasOpenCall_of_suffix hsuffix hnot)
          | cons d ds =>
            obtain ⟨rfl, -⟩ := List.cons.inj hz
            rw [call?_eq_some_iff.mpr ⟨rfl, hne, hnot⟩] at hu
            cases hu
        · -- the text ends within the argument
          exact hopen (hasOpenCall_of_suffix hsuffix fun h ↦ hnot (List.mem_append_left z h))
  · obtain ⟨rfl, hrest⟩ := call?_eq_some_iff.mp hu
    exact call?_eq_some_iff.mpr ⟨by simp, hrest⟩

/-- A text without the first letters of names is kept by the calls of every function. -/
theorem calls_skips {f : MathFunction} {a : List Char}
    (h : ∀ c ∈ a, c ∉ f.opening.head?) : f.calls.Skips a := by
  intro c cs rest hsuffix
  rcases hm : f.call? (c :: cs ++ rest) with _ | ⟨argument, after⟩
  · exact hm
  · obtain ⟨heq, -⟩ := call?_eq_some_iff.mp hm
    have hc : c ∈ f.opening.head? := by
      have hhead := congrArg List.head? heq
      cases hopening : f.opening with
      | nil => cases f <;> exact absurd hopening (by decide)
      | cons d ds =>
        rw [hopening] at hhead
        exact hhead.symm
    exact absurd hc (h c (hsuffix.subset List.mem_cons_self))

end MathFunction

/-! ## Factorials -/

theorem isDecimalDigit_bang : Text.isDecimalDigit '!' = false := by decide

/-- **What a factorial is.** -/
theorem factorial?_eq_some_iff {cs digits rest : List Char} :
    factorial? cs = some (digits, rest) ↔
      cs = digits ++ '!' :: rest ∧ digits ≠ [] ∧ ∀ d ∈ digits, Text.isDecimalDigit d = true := by
  constructor
  · intro h
    rw [factorial?] at h
    split at h
    · rename_i d ds rest' htake hdrop
      have happ := List.takeWhile_append_dropWhile (p := Text.isDecimalDigit) (l := cs)
      rw [htake, hdrop] at happ
      cases h
      refine ⟨happ.symm, List.cons_ne_nil _ _, ?_⟩
      rw [← htake]
      exact List.all_eq_true.mp List.all_takeWhile
    · cases h
  · rintro ⟨rfl, hne, hall⟩
    have hstop : ¬ Text.isDecimalDigit '!' = true := by rw [isDecimalDigit_bang]; decide
    rw [factorial?, List.takeWhile_append_of_pos hall, List.dropWhile_append_of_pos hall,
      List.takeWhile_cons_of_neg hstop, List.dropWhile_cons_of_neg hstop, List.append_nil]
    cases digits with
    | nil => exact absurd rfl hne
    | cons d ds => rfl

theorem factorials_match? {digits : List Char} (hne : digits ≠ [])
    (hdigits : ∀ d ∈ digits, Text.isDecimalDigit d = true) (rest : List Char) :
    factorials.match? (digits ++ '!' :: rest) = some (digits, rest) :=
  factorial?_eq_some_iff.mpr ⟨rfl, hne, hdigits⟩

theorem factorials_leavesSuffix : factorials.LeavesSuffix := by
  intro cs rest digits h
  obtain ⟨rfl, -⟩ := factorial?_eq_some_iff.mp h
  exact ⟨digits ++ ['!'], by simp⟩

/-- A text splits in front of anything but digits and an exclamation mark. -/
theorem factorials_splits {a b : List Char}
    (hb : ∀ d ∈ b.head?, Text.isDecimalDigit d = false ∧ d ≠ '!') : factorials.Splits a b := by
  intro c cs _
  show factorial? (c :: cs ++ b) = (factorial? (c :: cs)).map fun m ↦ (m.1, m.2 ++ b)
  generalize c :: cs = u
  rcases hu : factorial? u with _ | ⟨digits, rest⟩
  · rcases hub : factorial? (u ++ b) with _ | ⟨digits, rest⟩
    · rfl
    · exfalso
      obtain ⟨heq, hne, hall⟩ := factorial?_eq_some_iff.mp hub
      rcases List.append_eq_append_iff.mp heq with ⟨x, rfl, hbx⟩ | ⟨y, rfl, hy⟩
      · -- the text ends within the digits
        cases x with
        | nil => exact (hb '!' (by rw [hbx]; rfl)).2 rfl
        | cons d ds =>
          have hd := (hb d (by rw [hbx]; rfl)).1
          rw [hall d (by simp)] at hd
          cases hd
      · cases y with
        | nil => exact (hb '!' (by rw [show b = '!' :: rest from hy.symm]; rfl)).2 rfl
        | cons d ds =>
          obtain ⟨rfl, -⟩ := List.cons.inj hy
          rw [factorial?_eq_some_iff.mpr ⟨rfl, hne, hall⟩] at hu
          cases hu
  · obtain ⟨rfl, hrest⟩ := factorial?_eq_some_iff.mp hu
    exact factorial?_eq_some_iff.mpr ⟨by simp, hrest⟩

end Calculator

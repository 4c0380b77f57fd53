import Calculator.Proofs.Language.Arguments
import Calculator.Proofs.Reduction.Products

/-!
# A formula on its way through the passes

After some of the passes, the calls of some functions have been replaced by the exact texts of their
values and the others have not.  `Atom.textAt` is what an atom looks like then, and one pass takes
the symbols of a formula from one look to the next, symbol by symbol (`resolveCalls_texts`,
`resolveFactorials_texts`).  For this the texts of the other symbols must not be taken for what the
pass looks for:

* a number is neither a call nor the start of one (`Inert`), and a call of another function holds
  none either, because no name ends in another one (`MathFunction.name_suffix`);
* the digits of a number are not those of a factorial, because what follows an atom is not an atom.

`resolve_texts` puts the passes together, by induction on the functions that are left.
-/

set_option autoImplicit false

namespace Calculator

/-! ## Results of a pass -/

/-- The text, unless a value in it is not finite. -/
def whenFinite (finite : Bool) (text : List Char) : Except EvalError (List Char) :=
  if finite then .ok text else .error .notFinite

theorem finiteText_eq (x : Float) : finiteText x = whenFinite x.isFinite (numberText x) := rfl

theorem inOrder_whenFinite (p q : Bool) (a b : List Char) :
    inOrder (whenFinite p a) (whenFinite q b) = whenFinite (p && q) (a ++ b) := by
  cases p <;> cases q <;> rfl

theorem bind_whenFinite (p q : Bool) {a b : List Char}
    {next : List Char → Except EvalError (List Char)} (h : next a = whenFinite q b) :
    (whenFinite p a).bind next = whenFinite (p && q) b := by
  cases p with
  | false => rfl
  | true => exact h

/-- A pass over symbols, given what it does with each of them in front of the others. -/
theorem Pattern.replaceAll_texts {α β : Type} {p : Pattern β}
    {replace : β → Except EvalError (List Char)} {before after : α → List Char}
    {finite : α → Bool} {xs : List (Symbol α)}
    (h : ∀ x ys, (x :: ys) <:+ xs →
      p.replaceAll replace (x.text before ++ Symbol.texts before ys)
        = inOrder (whenFinite (x.allAtoms finite) (x.text after))
            (p.replaceAll replace (Symbol.texts before ys))) :
    p.replaceAll replace (Symbol.texts before xs)
      = whenFinite (xs.all (Symbol.allAtoms finite)) (Symbol.texts after xs) := by
  induction xs with
  | nil => exact p.replaceAll_nil replace
  | cons x xs ih =>
    have hxs := ih fun y ys hy ↦ h y ys (hy.trans (List.suffix_cons x xs))
    rw [Symbol.texts_cons, h x xs List.suffix_rfl, hxs, inOrder_whenFinite, Symbol.texts_cons,
      List.all_cons]

/-! ## Texts that no pass is looking for -/

/-- No call starts in the text, and no factorial ends in it. -/
def Inert (u : List Char) : Prop := ∀ c ∈ u, c ≠ '!' ∧ ∀ f : MathFunction, c ∉ f.opening.head?

theorem MathFunction.notMem_head_opening {c : Char} (h : Token.isTokenChar c = true)
    (f : MathFunction) : c ∉ f.opening.head? := by
  obtain ⟨d, ds, hopening, -, htoken⟩ := f.opening_eq_cons
  rw [hopening]
  intro hc
  cases hc
  rw [h] at htoken
  cases htoken

theorem inert_of_isTokenChar {u : List Char} (h : ∀ c ∈ u, Token.isTokenChar c = true) :
    Inert u := by
  intro c hc
  refine ⟨?_, MathFunction.notMem_head_opening (h c hc)⟩
  rintro rfl
  exact absurd (h '!' hc) (by decide)

theorem inert_of_spells {u : List Char} {ts : List Token} (h : Token.Spells u ts) : Inert u :=
  inert_of_isTokenChar (Token.isTokenChar_of_spells h)

/-- The text of a number that is not finite is a name. -/
theorem numberText_subset {x : Float} (h : x.isFinite = false) :
    numberText x ⊆ ['-', 'N', 'a', 'i', 'n', 'f'] := by
  rw [Double.isFinite_eq, decide_eq_false_iff_not, Nat.not_lt] at h
  simp only [numberText]
  by_cases hlt : Double.infinity < Double.magnitude x
  · rw [if_pos hlt]
    decide
  · rw [if_neg hlt, if_pos (Nat.le_antisymm (Nat.not_lt.mp hlt) h), signed]
    split <;> decide

/-- The text of a number is inert, be it finite or not. -/
theorem inert_numberText (x : Float) : Inert (numberText x) := by
  cases hx : x.isFinite with
  | true => exact inert_of_spells (Token.spells_numberText hx)
  | false =>
    have hname : Inert ['-', 'N', 'a', 'i', 'n', 'f'] := by
      intro c hc
      simp only [List.mem_cons, List.not_mem_nil, or_false] at hc
      rcases hc with rfl | rfl | rfl | rfl | rfl | rfl <;>
        exact ⟨by decide, fun f ↦ by cases f <;> decide⟩
    exact fun c hc ↦ hname c (numberText_subset hx hc)

theorem Inert.skips {u : List Char} (h : Inert u) (f : MathFunction) : f.calls.Skips u :=
  MathFunction.calls_skips fun c hc ↦ (h c hc).2 f

/-- Where no factorial ends there is none. -/
theorem Inert.resolveFactorials_eq {u : List Char} (h : Inert u) :
    resolveFactorials u = .ok u := by
  induction u with
  | nil => exact Pattern.replaceAll_nil _ _
  | cons c cs ih =>
    obtain ⟨-, hcs⟩ := List.forall_mem_cons.mp h
    have hnone : factorials.match? (c :: cs) = none := by
      rcases hm : factorials.match? (c :: cs) with _ | ⟨digits, rest⟩
      · rfl
      · obtain ⟨heq, -⟩ := factorial?_eq_some_iff.mp hm
        exact absurd rfl (h '!' (by rw [heq]; simp)).1
    rw [resolveFactorials, Pattern.replaceAll_cons _ _ hnone]
    exact congrArg (inOrder (.ok [c])) (ih hcs)

/-- Digits in front of something else are no factorial. -/
theorem Inert.resolveFactorials_append {u b : List Char} (h : Inert u)
    (hb : ∀ d ∈ b.head?, Text.isDecimalDigit d = false ∧ d ≠ '!') :
    resolveFactorials (u ++ b) = inOrder (.ok u) (resolveFactorials b) := by
  rw [resolveFactorials,
    Pattern.replaceAll_append _ _ factorials_leavesSuffix (factorials_splits hb)]
  exact congrArg (inOrder · _) h.resolveFactorials_eq

theorem Inert.append {u v : List Char} (hu : Inert u) (hv : Inert v) : Inert (u ++ v) :=
  List.forall_mem_append.mpr ⟨hu, hv⟩

/-- Where no call starts there is none. -/
theorem Inert.resolveCalls_eq {u : List Char} (h : Inert u) (f : MathFunction) :
    resolveCalls u f = .ok u := Pattern.replaceAll_of_skips _ f.callText (h.skips f)

/-- An inert text is kept by all passes. -/
theorem Inert.resolve_eq {u : List Char} (h : Inert u) (fs : List MathFunction) :
    resolve fs u = .ok u := by
  induction fs with
  | nil => exact h.resolveFactorials_eq
  | cons f fs ih =>
    rw [resolve, h.resolveCalls_eq]
    exact ih

namespace MathFunction

/-- No function's name ends in that of another one. -/
theorem name_suffix {f g : MathFunction} (h : f.name.toList <:+ g.name.toList) : f = g := by
  cases f <;> cases g <;> first | rfl | exact absurd h (by decide)

/-- The text in front of the first opening parenthesis. -/
theorem eq_of_append_openParen {u v w z : List Char} (hu : '(' ∉ u) (hv : '(' ∉ v)
    (h : u ++ '(' :: w = v ++ '(' :: z) : u = v := by
  have htake : ∀ a b : List Char, '(' ∉ a → (a ++ '(' :: b).takeWhile (· != '(') = a := by
    intro a b ha
    have hall : ∀ c ∈ a, (c != '(') = true :=
      fun c hc ↦ bne_iff_ne.mpr fun heq ↦ ha (heq ▸ hc)
    rw [List.takeWhile_append_of_pos hall, List.takeWhile_cons_of_neg (by decide), List.append_nil]
  rw [← htake u w hu, h, htake v z hv]

/-- The end of a name is not the start of a call. -/
theorem eq_nil_of_opening {f g : MathFunction} {x y w z : List Char} (hopening : f.opening = x ++ y)
    (hy : y ≠ []) (h : y ++ w = g.opening ++ z) : x = [] := by
  obtain ⟨u, e, rfl⟩ := (List.eq_nil_or_concat y).resolve_left hy
  rw [List.concat_eq_append] at hopening h
  obtain ⟨hname, he⟩ := List.append_inj' (hopening.trans (List.append_assoc x u [e]).symm) rfl
  obtain rfl : '(' = e := (List.cons.inj he).1
  have hu : '(' ∉ u := fun hmem ↦ f.openParen_notMem_name (by rw [hname]; simp [hmem])
  rw [opening, List.append_assoc, List.append_assoc] at h
  obtain rfl := eq_of_append_openParen hu g.openParen_notMem_name h
  obtain rfl := name_suffix ⟨x, hname.symm⟩
  exact List.self_eq_append_left.mp hname

/-- The start of a call is not that of a call of another function. -/
theorem calls_skips_opening {f g : MathFunction} (hfg : f ≠ g) : f.calls.Skips g.opening := by
  rintro c cs rest ⟨u, hu⟩
  rcases hm : f.call? (c :: cs ++ rest) with _ | ⟨argument, after⟩
  · exact hm
  · obtain ⟨heq, -⟩ := call?_eq_some_iff.mp hm
    obtain rfl := eq_nil_of_opening hu.symm (List.cons_ne_nil c cs) heq
    rw [List.nil_append] at hu
    rw [hu, opening, opening, List.append_assoc, List.append_assoc] at heq
    have hname := eq_of_append_openParen g.openParen_notMem_name f.openParen_notMem_name heq
    exact absurd (name_inj (String.toList_inj.mp hname)).symm hfg

/-- A call of one function holds none of another, if its argument holds none. -/
theorem calls_skips_call {f g : MathFunction} (hfg : f ≠ g) {t : List Char}
    (ht : ∀ c ∈ t, Token.isTokenChar c = true) : f.calls.Skips (g.opening ++ (t ++ [')'])) := by
  refine (calls_skips_opening hfg).append (calls_skips fun c hc ↦ notMem_head_opening ?_ f)
  rcases List.mem_append.mp hc with hc | hc
  · exact ht c hc
  · rw [List.mem_singleton.mp hc]
    decide

end MathFunction

/-! ## Atoms between the passes -/

namespace Atom

/-- What an atom looks like while the calls of the functions `todo` are still to be replaced. -/
def textAt (todo : List MathFunction) : Atom → List Char
  | plain a => a.normalText
  | factorial ds => ds.chars ++ ['!']
  | call f argument =>
    if f ∈ todo then f.opening ++ (argument.normalText ++ [')'])
    else numberText (f.apply argument.value)

/-- What an atom looks like in the end. -/
def finalText : Atom → List Char
  | plain a => a.normalText
  | factorial ds => numberText (Calculator.factorial ds.number)
  | call f argument => numberText (f.apply argument.value)

/-- The value is finite, if the passes that are left compute it. -/
def isDefinedAt (todo : List MathFunction) : Atom → Bool
  | plain _ => true
  | factorial ds => (Calculator.factorial ds.number).isFinite
  | call f argument => if f ∈ todo then (f.apply argument.value).isFinite else true

/-- The value is finite, if it is that of a call of the function. -/
def isDefinedFor (f : MathFunction) : Atom → Bool
  | plain _ => true
  | factorial _ => true
  | call g argument => if g = f then (g.apply argument.value).isFinite else true

theorem isDefinedAt_cons (f : MathFunction) (fs : List MathFunction) (a : Atom) :
    a.isDefinedAt (f :: fs) = (a.isDefinedFor f && a.isDefinedAt fs) := by
  cases a with
  | plain a => rfl
  | factorial ds => rfl
  | call g argument =>
    simp only [isDefinedAt, isDefinedFor, List.mem_cons]
    by_cases hg : g = f
    · subst hg
      by_cases hfs : g ∈ fs <;> simp [hfs]
    · simp [hg]

theorem isDefinedAt_all (a : Atom) : a.isDefinedAt MathFunction.all = a.isDefined := by
  cases a with
  | plain a => rfl
  | factorial ds => rfl
  | call f argument => exact if_pos f.mem_all

end Atom

theorem Symbol.all_allAtoms_and {α : Type} (p q : α → Bool) (xs : List (Symbol α)) :
    xs.all (allAtoms fun a ↦ p a && q a) = (xs.all (allAtoms p) && xs.all (allAtoms q)) := by
  induction xs with
  | nil => rfl
  | cons x xs ih =>
    rw [List.all_cons, List.all_cons, List.all_cons, ih]
    cases x <;> simp [allAtoms, Bool.and_left_comm, Bool.and_assoc]

/-! ## One pass for the calls of a function -/

namespace MathFunction

variable {f : MathFunction}

theorem resolveCalls_skip {u : List Char} (h : f.calls.Skips u) (b : List Char) :
    resolveCalls (u ++ b) f = inOrder (whenFinite true u) (resolveCalls b f) :=
  Pattern.replaceAll_skip f.calls f.callText h b

/-- A call becomes the text of its value. -/
theorem resolveCalls_call {argument : List Char} {x : Float}
    (hread : evaluateArithmetic argument = .ok x) (hclosed : ')' ∉ argument) (b : List Char) :
    resolveCalls (f.opening ++ (argument ++ [')']) ++ b) f
      = inOrder (whenFinite (f.apply x).isFinite (numberText (f.apply x))) (resolveCalls b f) := by
  have hne : argument ≠ [] := by
    rintro rfl
    rw [evaluateArithmetic_nil] at hread
    cases hread
  have hcall : f.calls.match? (f.opening ++ (argument ++ [')']) ++ b) = some (argument, b) :=
    call?_eq_some_iff.mpr ⟨by simp, hne, hclosed⟩
  rw [resolveCalls, Pattern.replaceAll_of_some _ _ hcall, callText, hread]
  exact congrArg (inOrder · _) (finiteText_eq _)

/-- What a pass does to an atom, whatever stands behind it. -/
theorem resolveCalls_atom {fs : List MathFunction} (hf : f ∉ fs) (a : Atom) (b : List Char) :
    resolveCalls (a.textAt (f :: fs) ++ b) f
      = inOrder (whenFinite (a.isDefinedFor f) (a.textAt fs)) (resolveCalls b f) := by
  cases a with
  | plain a => exact resolveCalls_skip ((inert_of_spells a.spells_normalText).skips f) b
  | factorial ds =>
    refine resolveCalls_skip (calls_skips fun c hc ↦ ?_) b
    rcases List.mem_append.mp hc with hc | hc
    · exact notMem_head_opening (by simp [Token.isTokenChar, Numeral.starts, ds.ascii c hc]) f
    · rw [List.mem_singleton.mp hc]
      cases f <;> decide
  | call g argument =>
    simp only [Atom.textAt, Atom.isDefinedFor, List.mem_cons]
    by_cases hg : g = f
    · subst hg
      rw [if_pos (Or.inl rfl), if_pos rfl, if_neg hf]
      exact resolveCalls_call argument.evaluateArithmetic_normalText argument.closeParen_notMem b
    · rw [if_neg hg]
      by_cases hfs : g ∈ fs
      · rw [if_pos (Or.inr hfs), if_pos hfs]
        have htoken := Token.isTokenChar_of_spells argument.spells_normalText
        exact resolveCalls_skip (calls_skips_call (Ne.symm hg) htoken) b
      · rw [if_neg (not_or.mpr ⟨hg, hfs⟩), if_neg hfs]
        exact resolveCalls_skip ((inert_numberText _).skips f) b

/-- **A pass** replaces the calls of its function in a formula, and nothing else. -/
theorem resolveCalls_texts {fs : List MathFunction} (hf : f ∉ fs) (xs : List (Symbol Atom)) :
    resolveCalls (Symbol.texts (Atom.textAt (f :: fs)) xs) f
      = whenFinite (xs.all (Symbol.allAtoms (Atom.isDefinedFor f)))
          (Symbol.texts (Atom.textAt fs) xs) := by
  refine Pattern.replaceAll_texts fun x ys _ ↦ ?_
  rcases x.eq_atom_or_isMark with ⟨a, rfl⟩ | hmark
  · exact resolveCalls_atom hf a _
  · have hskips : f.calls.Skips x.mark.spelling :=
      calls_skips fun c hc ↦ (startsNothing_spelling hmark c hc).2 f
    rw [Symbol.text_of_isMark hmark, Symbol.text_of_isMark hmark, Symbol.allAtoms_of_isMark hmark]
    exact resolveCalls_skip hskips _

end MathFunction

/-! ## The pass for the factorials -/

/-- Neither the digits nor the mark of a factorial go on with a token that is not a number. -/
theorem head_spelling {t : Token} (h : t.isNumber = false) (u : List Char) :
    ∀ d ∈ (t.spelling ++ u).head?, Text.isDecimalDigit d = false ∧ d ≠ '!' := by
  intro d hd
  have hmem : d ∈ t.spelling := by
    cases t with
    | number x => cases h
    | _ =>
      cases hd
      exact List.mem_cons_self
  have hinert := inert_of_spells (Token.spells_spelling h)
  exact ⟨(startsNothing_spelling h d hmem).1, (hinert d hmem).1⟩

/-- What stands behind an atom is not read as a part of it. -/
theorem Symbol.head_texts {text : Atom → List Char} {a : Atom} {xs : List (Symbol Atom)}
    (h : (Symbol.atom a :: xs).IsChain CanPrecede) :
    ∀ d ∈ (texts text xs).head?, Text.isDecimalDigit d = false ∧ d ≠ '!' := by
  cases xs with
  | nil => exact fun d hd ↦ by cases hd
  | cons y ys =>
    have hy := (List.isChain_cons_cons.mp h).1
    rcases y.eq_atom_or_isMark with ⟨b, rfl⟩ | hmark
    · exact absurd ⟨rfl, rfl⟩ hy
    · rw [texts_cons, text_of_isMark hmark]
      exact head_spelling hmark _

/-- What the pass does to an atom in front of something that is not a part of it. -/
theorem resolveFactorials_atom (a : Atom) {b : List Char}
    (hb : ∀ d ∈ b.head?, Text.isDecimalDigit d = false ∧ d ≠ '!') :
    resolveFactorials (a.textAt [] ++ b)
      = inOrder (whenFinite (a.isDefinedAt []) a.finalText) (resolveFactorials b) := by
  cases a with
  | plain a => exact (inert_of_spells a.spells_normalText).resolveFactorials_append hb
  | factorial ds =>
    have hdigits : ∀ d ∈ ds.chars, Text.isDecimalDigit d = true :=
      fun d hd ↦ Text.isDecimalDigit_of_isDigit (ds.ascii d hd)
    rw [resolveFactorials, Atom.textAt, List.append_assoc, List.singleton_append,
      Pattern.replaceAll_of_some _ _ (factorials_match? ds.nonempty hdigits b),
      factorialText_eq ds.ascii, finiteText_eq]
    rfl
  | call f argument =>
    have htext : (Atom.call f argument).textAt [] = numberText (f.apply argument.value) := by
      rw [Atom.textAt, if_neg List.not_mem_nil]
    have hdefined : (Atom.call f argument).isDefinedAt [] = true := by
      rw [Atom.isDefinedAt, if_neg List.not_mem_nil]
    rw [htext, hdefined, (inert_numberText _).resolveFactorials_append hb]
    rfl

/-- **The last pass** replaces the factorials of a formula, and nothing else. -/
theorem resolveFactorials_texts (d : Derivation Atom .expr) :
    resolveFactorials (Symbol.texts (Atom.textAt []) d.symbols)
      = whenFinite (d.symbols.all (Symbol.allAtoms (Atom.isDefinedAt [])))
          (Symbol.texts Atom.finalText d.symbols) := by
  refine Pattern.replaceAll_texts fun x ys hsuffix ↦ ?_
  rcases x.eq_atom_or_isMark with ⟨a, rfl⟩ | hmark
  · exact resolveFactorials_atom a (Symbol.head_texts (d.isChain_symbols.suffix hsuffix))
  · rw [Symbol.text_of_isMark hmark, Symbol.text_of_isMark hmark, Symbol.allAtoms_of_isMark hmark]
    exact resolve_keep (startsNothing_spelling hmark) [] _

/-! ## All passes -/

/-- **The passes that are left** take a formula to its end, unless a value they meet is not
finite. -/
theorem resolve_texts {fs : List MathFunction} (hfs : fs.Nodup) (d : Derivation Atom .expr) :
    resolve fs (Symbol.texts (Atom.textAt fs) d.symbols)
      = whenFinite (d.symbols.all (Symbol.allAtoms (Atom.isDefinedAt fs)))
          (Symbol.texts Atom.finalText d.symbols) := by
  induction fs with
  | nil => exact resolveFactorials_texts d
  | cons f fs ih =>
    obtain ⟨hf, hfs⟩ := List.nodup_cons.mp hfs
    rw [resolve, MathFunction.resolveCalls_texts hf, bind_whenFinite _ _ (ih hfs),
      ← Symbol.all_allAtoms_and]
    exact congrArg (fun p ↦ whenFinite (d.symbols.all (Symbol.allAtoms p)) _)
      (funext fun a ↦ (a.isDefinedAt_cons f fs).symm)

end Calculator

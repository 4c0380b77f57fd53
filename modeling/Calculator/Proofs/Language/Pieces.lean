import Calculator.Proofs.Language.Calls
import Calculator.Proofs.Reduction.Barriers

/-!
# Values next to each other

Numbers, factorials and calls that stand next to each other are `Piece`s of a text: texts that no
pass for calls changes, and calls with a value.  The passes for calls leave the values of the calls
between the other pieces (`resolveCalls_texts`), whatever follows.  Where no call starts around the
pieces, that is all that the passes do (`resolve_texts_of_skips`).

What stands in front of the pieces could change that by opening a call that takes some of them for a
part of its argument.  There are two ways to be safe from it.  If the pieces come to a text that no
argument can hold, they are a barrier: up to the first call that is left among them they are kept,
and an unresolved call is a barrier as well.  So a text that has such pieces in it has their values
in it after the passes for all calls (`resolve_texts`).  The other way is a closing parenthesis in
front of the pieces that ends no call (`resolve_closeParen_texts`).
-/

set_option autoImplicit false

namespace Calculator

/-! ## Pieces -/

/-- A text without a parenthesis that has no character in common with a name. -/
structure PlainText where
  chars : List Char
  nonempty : chars ≠ []
  closeParen_notMem : ')' ∉ chars
  opening_disjoint : ∀ (f : MathFunction), ∀ c ∈ chars, c ∉ f.opening

/-- A part of a text that the passes for calls deal with by itself. -/
inductive Piece where
  | plain (u : PlainText)
  | call (c : FiniteCall)

namespace Piece

/-- What a piece looks like while the calls of the functions `todo` are still to be replaced. -/
def textAt (todo : List MathFunction) : Piece → List Char
  | plain u => u.chars
  | call c => if c.function ∈ todo then c.normalText else numberText c.value

/-- What a piece looks like after the passes for calls. -/
def valueText : Piece → List Char
  | plain u => u.chars
  | call c => numberText c.value

theorem textAt_nil (p : Piece) : p.textAt [] = p.valueText := by
  cases p with
  | plain u => rfl
  | call c => rw [textAt, if_neg List.not_mem_nil, valueText]

/-- The pieces of a text, one behind the other. -/
def texts (todo : List MathFunction) (xs : List Piece) : List Char := xs.flatMap (textAt todo)

theorem texts_cons (todo : List MathFunction) (p : Piece) (xs : List Piece) :
    texts todo (p :: xs) = p.textAt todo ++ texts todo xs := rfl

theorem texts_nil (xs : List Piece) : texts [] xs = xs.flatMap valueText :=
  congrArg (xs.flatMap ·) (funext textAt_nil)

variable {f : MathFunction} {fs : List MathFunction}

/-- What a pass does to a piece, whatever stands behind it. -/
theorem resolveCalls_textAt (hf : f ∉ fs) (p : Piece) (b : List Char) :
    resolveCalls (p.textAt (f :: fs) ++ b) f = inOrder (.ok (p.textAt fs)) (resolveCalls b f) := by
  cases p with
  | plain u =>
    refine MathFunction.resolveCalls_skip (MathFunction.calls_skips fun c hc hhead ↦ ?_) b
    exact u.opening_disjoint f c hc (List.mem_of_mem_head? hhead)
  | call c =>
    by_cases hc : c.function = f
    · subst hc
      rw [textAt, textAt, if_pos List.mem_cons_self, if_neg hf]
      exact c.resolveCalls_text b
    · by_cases hmem : c.function ∈ fs
      · rw [textAt, textAt, if_pos (List.mem_cons_of_mem f hmem), if_pos hmem]
        exact MathFunction.resolveCalls_skip (c.skips_text (Ne.symm hc)) b
      · rw [textAt, textAt, if_neg (by simp [hc, hmem]), if_neg hmem]
        exact MathFunction.resolveCalls_skip ((inert_numberText _).skips f) b

/-- **A pass** replaces the calls of its function among the pieces. -/
theorem resolveCalls_texts (hf : f ∉ fs) (xs : List Piece) (b : List Char) :
    resolveCalls (texts (f :: fs) xs ++ b) f
      = inOrder (.ok (texts fs xs)) (resolveCalls b f) := by
  induction xs with
  | nil => exact (ok_nil_inOrder _).symm
  | cons p xs ih =>
    rw [texts_cons, texts_cons, List.append_assoc, resolveCalls_textAt hf, ih, ← inOrder_assoc]
    rfl

/-- Between texts in which no call starts, the passes that are left replace the calls among the
pieces and nothing else. -/
theorem resolve_texts_of_skips (hfs : fs.Nodup) (xs : List Piece) {a q : List Char}
    (ha : ∀ g : MathFunction, g.calls.Skips a) (hq : ∀ g : MathFunction, g.calls.Skips q) :
    resolve fs (a ++ (texts fs xs ++ q))
      = resolveFactorials (a ++ (xs.flatMap valueText ++ q)) := by
  induction fs with
  | nil => rw [texts_nil, resolve]
  | cons f fs ih =>
    obtain ⟨hf, hfs⟩ := List.nodup_cons.mp hfs
    have hkeep : resolveCalls q f = .ok q := Pattern.replaceAll_of_skips _ f.callText (hq f)
    rw [resolve, MathFunction.resolveCalls_skip (ha f), resolveCalls_texts hf, hkeep]
    exact ih hfs

/-! ## Pieces as a barrier -/

theorem closeParen_notMem_valueText (p : Piece) : ')' ∉ p.valueText := by
  cases p with
  | plain u => exact u.closeParen_notMem
  | call c => exact (paren_notMem_numberText c.isFinite_value).2

/-- If no argument can hold the values of the pieces, none can hold the pieces either.  The induction
is on the pieces up to the first call that is left, and `u` is the text of those before. -/
theorem exists_unreadable_prefix (todo : List MathFunction) (xs : List Piece) {u : List Char}
    (hu : ')' ∉ u) (h : Unreadable (u ++ xs.flatMap valueText)) :
    ∃ k, k <+: u ++ texts todo xs ∧ ')' ∉ k ∧ Unreadable k := by
  induction xs generalizing u with
  | nil => exact ⟨u, List.prefix_append u _, hu, by simpa using h⟩
  | cons p xs ih =>
    by_cases hp : p.textAt todo = p.valueText
    · rw [List.flatMap_cons, ← List.append_assoc] at h
      rw [texts_cons, hp, ← List.append_assoc]
      exact ih (by simp [hu, p.closeParen_notMem_valueText]) h
    · cases p with
      | plain w => exact absurd rfl hp
      | call c =>
        have hmem : c.function ∈ todo := by
          by_contra hmem
          exact hp (if_neg hmem)
        rw [texts_cons, textAt, if_pos hmem, FiniteCall.normalText, List.append_assoc,
          ← List.append_assoc]
        refine ⟨u ++ c.function.opening, List.prefix_append _ _, ?_, ?_⟩
        · simp [hu, c.function.closeParen_notMem_opening]
        · exact unreadable_openParen (by simp [MathFunction.opening])

/-- No name of a call reaches into a piece. -/
theorem not_prefix_textAt (todo : List MathFunction) (p : Piece) {x y b : List Char}
    (hopening : f.opening = x ++ y) (hx : x ≠ []) (hy : y ≠ []) : ¬ y <+: p.textAt todo ++ b := by
  rintro ⟨w, hw⟩
  obtain ⟨d, ds, rfl⟩ := List.exists_cons_of_ne_nil hy
  have hd : d ∈ f.opening := by rw [hopening]; simp
  -- neither a plain text nor the text of a value begins like the rest of a name
  have hvalue : ∀ v : List Char, v ≠ [] → (∀ c ∈ v, c ∉ f.opening) → d :: ds ++ w ≠ v ++ b := by
    intro v hne hdisjoint heq
    obtain ⟨e, es, rfl⟩ := List.exists_cons_of_ne_nil hne
    obtain ⟨rfl, -⟩ := List.cons.inj heq
    exact hdisjoint d List.mem_cons_self hd
  cases p with
  | plain u => exact hvalue u.chars u.nonempty (u.opening_disjoint f) hw
  | call c =>
    rw [textAt] at hw
    split at hw
    · rw [FiniteCall.normalText, List.append_assoc] at hw
      exact hx (MathFunction.eq_nil_of_opening hopening (List.cons_ne_nil d ds) hw)
    · obtain ⟨hne, hdisjoint⟩ := numberText_disjoint c.isFinite_value
      exact hvalue _ hne (fun e he ↦ hdisjoint e he f) hw

/-- Pieces that no argument can hold are left alone by a pass, whatever stands around them. -/
theorem resolveCalls_around (hf : f ∉ fs) {xs : List Piece} (hne : xs ≠ [])
    (hunreadable : Unreadable (xs.flatMap valueText)) {a q r : List Char}
    (h : resolveCalls (a ++ (texts (f :: fs) xs ++ q)) f = .ok r) :
    ∃ a' q', a' ++ (texts fs xs ++ q') = r := by
  obtain ⟨k, hk, hclose, hunread⟩ := exists_unreadable_prefix (f :: fs) xs (u := [])
    List.not_mem_nil hunreadable
  rw [List.nil_append] at hk
  have hseam : ∀ x y, f.opening = x ++ y → x ≠ [] → y ≠ [] → x <:+ a →
      ¬ y <+: texts (f :: fs) xs ++ q := by
    intro x y hopening hx hy _
    obtain ⟨p, ps, rfl⟩ := List.exists_cons_of_ne_nil hne
    rw [texts_cons, List.append_assoc]
    exact not_prefix_textAt (f :: fs) p hopening hx hy
  obtain ⟨a', w, -, hw, rfl⟩ := MathFunction.resolveCalls_barrier h
    (hk.trans (List.prefix_append _ q)) hclose hunread hseam
  rw [resolveCalls_texts hf] at hw
  obtain ⟨q', -, rfl⟩ := ok_inOrder_eq_ok_iff.mp hw
  exact ⟨a', q', rfl⟩

/-- **The passes that are left** turn such pieces into their values. -/
theorem resolve_texts (hfs : fs.Nodup) {xs : List Piece} (hne : xs ≠ [])
    (hunreadable : Unreadable (xs.flatMap valueText)) {a q r : List Char}
    (h : resolve fs (a ++ (texts fs xs ++ q)) = .ok r) :
    ∃ a' q', resolveFactorials (a' ++ (xs.flatMap valueText ++ q')) = .ok r := by
  induction fs generalizing a q with
  | nil =>
    rw [texts_nil] at h
    exact ⟨a, q, h⟩
  | cons f fs ih =>
    obtain ⟨hf, hfs⟩ := List.nodup_cons.mp hfs
    obtain ⟨next, hnext, hrest⟩ := resolve_cons_eq_ok h
    obtain ⟨a', q', rfl⟩ := resolveCalls_around hf hne hunreadable hnext
    exact ih hfs hrest

/-! ## Pieces behind a parenthesis -/

/-- **Pieces behind a closing parenthesis** that is not the end of a call become their values.  The
parenthesis is not, because the one that it belongs to stands behind no name, and because what is
between the two is balanced. -/
theorem resolve_closeParen_texts (hfs : fs.Nodup) {xs : List Piece} {a inner q r : List Char}
    (hname : ∀ g : MathFunction, ¬ g.name.toList <:+ a) (hinner : Balanced inner)
    (h : resolve fs (a ++ '(' :: (inner ++ ')' :: (texts fs xs ++ q))) = .ok r) :
    ∃ a' q', resolveFactorials (a' ++ ')' :: (xs.flatMap valueText ++ q')) = .ok r := by
  induction fs generalizing a inner q with
  | nil =>
    rw [texts_nil] at h
    refine ⟨a ++ '(' :: inner, q, ?_⟩
    rw [List.append_assoc]
    exact h
  | cons f fs ih =>
    obtain ⟨hf, hfs⟩ := List.nodup_cons.mp hfs
    obtain ⟨next, hnext, hnext'⟩ := resolve_cons_eq_ok h
    obtain ⟨a', w, ha, hw, rfl⟩ := MathFunction.resolveCalls_append_openParen (hname f) hnext
    rw [MathFunction.resolveCalls_append_closeParen
      (MathFunction.not_hasOpenCall_of_balanced hinner), resolveCalls_texts hf] at hw
    obtain ⟨inner', behind, hinner', hbehind, rfl⟩ := inOrder_eq_ok_iff.mp hw
    obtain ⟨rest, hrest, rfl⟩ := ok_inOrder_eq_ok_iff.mp hbehind
    obtain ⟨q', -, rfl⟩ := ok_inOrder_eq_ok_iff.mp hrest
    have hname' : ∀ g : MathFunction, ¬ g.name.toList <:+ a' :=
      fun g hg ↦ hname g (MathFunction.name_suffix_of_resolveCalls ha hg)
    have hbalanced : Balanced inner' :=
      (MathFunction.depth?_resolveCalls hinner' 0).trans hinner
    exact ih hfs hname' hbalanced hnext'

end Piece

end Calculator

import Calculator.Proofs.Expr.Reading
import Mathlib.Control.Monad.Basic

/-!
# The grammar of arithmetic

The grammar of the arithmetic language, from the loosest to the tightest binding:

```text
expr    := term (('+' | '-') term)*
term    := unary (('*' | '/') unary)*
unary   := ('+' | '-') unary | power
power   := primary ('**' unary)?
primary := ATOM | '(' expr ')'
```

A `Derivation` is a derivation tree of it.  The two repetitions are nonterminals of their own, each
a sequence that grows at its end, and the atoms are left open: they are numbers in the arithmetic
language, and more than that in the language people type.  `Derivation.value` computes along the
rules of the grammar: a repetition takes the value to its left and folds its operands into it, from
left to right.

`Derivation.toExpr` forgets which rules were used and keeps the expression tree.  Nothing is lost
(`Sentence.toExpr_injective`), what comes out is well formed (`Derivation.toExpr_wellFormed`), and
every well-formed tree comes from a derivation (`HasDerivation.atEveryPlace`).  So the trees of
`Calculator.Expr.Syntax`, which know only of binding strengths, are this grammar, and
`evaluateArithmetic` accepts exactly what the grammar derives
(`evaluateArithmetic_eq_ok_iff_derivation`).
-/

set_option autoImplicit false

namespace Calculator

/-! ## Derivations -/

/-- The nonterminals of the grammar.  The repetitions in the rules of `expr` and `term` are `terms`
and `factors`. -/
inductive Nonterminal where
  | expr
  | terms
  | term
  | factors
  | unary
  | power
  | primary

/-- The derivation trees of the grammar with the given atoms. -/
inductive Derivation (α : Type) : Nonterminal → Type where
  | expr (first : Derivation α .term) (rest : Derivation α .terms) : Derivation α .expr
  | noTerms : Derivation α .terms
  | moreTerms (before : Derivation α .terms) (op : Operator) (additive : op.strength = .sum)
      (last : Derivation α .term) : Derivation α .terms
  | term (first : Derivation α .unary) (rest : Derivation α .factors) : Derivation α .term
  | noFactors : Derivation α .factors
  | moreFactors (before : Derivation α .factors) (op : Operator)
      (multiplicative : op.strength = .product) (last : Derivation α .unary) :
      Derivation α .factors
  | signed (sign : Sign) (operand : Derivation α .unary) : Derivation α .unary
  | unsigned (operand : Derivation α .power) : Derivation α .unary
  | bare (operand : Derivation α .primary) : Derivation α .power
  | raised (base : Derivation α .primary) (exponent : Derivation α .unary) : Derivation α .power
  | atom (a : α) : Derivation α .primary
  | paren (inner : Derivation α .expr) : Derivation α .primary

/-- What a derivation means.  A repetition means what it makes of the operand to its left. -/
def Nonterminal.Meaning (β : Type) : Nonterminal → Type
  | terms => β → β
  | factors => β → β
  | _ => β

namespace Derivation

variable {α : Type}

/-- The tokens of a derivation, in order. -/
def tokens (spell : α → List Token) {n : Nonterminal} : Derivation α n → List Token
  | expr first rest => first.tokens spell ++ rest.tokens spell
  | noTerms => []
  | moreTerms before op _ last => before.tokens spell ++ op.token :: last.tokens spell
  | term first rest => first.tokens spell ++ rest.tokens spell
  | noFactors => []
  | moreFactors before op _ last => before.tokens spell ++ op.token :: last.tokens spell
  | signed sign operand => sign.token :: operand.tokens spell
  | unsigned operand => operand.tokens spell
  | bare operand => operand.tokens spell
  | raised base exponent => base.tokens spell ++ Token.power :: exponent.tokens spell
  | atom a => spell a
  | paren inner => .openParen :: (inner.tokens spell ++ [.closeParen])

/-- The value of a derivation, computed in doubles along the rules of the grammar. -/
def value (atomValue : α → Float) : {n : Nonterminal} → Derivation α n → n.Meaning Float
  | _, expr first rest => rest.value atomValue (first.value atomValue)
  | _, noTerms => fun x ↦ x
  | _, moreTerms before op _ last =>
    fun x ↦ op.apply (before.value atomValue x) (last.value atomValue)
  | _, term first rest => rest.value atomValue (first.value atomValue)
  | _, noFactors => fun x ↦ x
  | _, moreFactors before op _ last =>
    fun x ↦ op.apply (before.value atomValue x) (last.value atomValue)
  | _, signed sign operand => sign.apply (operand.value atomValue)
  | _, unsigned operand => operand.value atomValue
  | _, bare operand => operand.value atomValue
  | _, raised base exponent =>
    Operator.power.apply (base.value atomValue) (exponent.value atomValue)
  | _, atom a => atomValue a
  | _, paren inner => inner.value atomValue

/-- The expression tree of a derivation. -/
def toExpr (atomExpr : α → Expr) : {n : Nonterminal} → Derivation α n → n.Meaning Expr
  | _, expr first rest => rest.toExpr atomExpr (first.toExpr atomExpr)
  | _, noTerms => fun e ↦ e
  | _, moreTerms before op _ last =>
    fun e ↦ .binary op (before.toExpr atomExpr e) (last.toExpr atomExpr)
  | _, term first rest => rest.toExpr atomExpr (first.toExpr atomExpr)
  | _, noFactors => fun e ↦ e
  | _, moreFactors before op _ last =>
    fun e ↦ .binary op (before.toExpr atomExpr e) (last.toExpr atomExpr)
  | _, signed sign operand => .signed sign (operand.toExpr atomExpr)
  | _, unsigned operand => operand.toExpr atomExpr
  | _, bare operand => operand.toExpr atomExpr
  | _, raised base exponent =>
    .binary .power (base.toExpr atomExpr) (exponent.toExpr atomExpr)
  | _, atom a => atomExpr a
  | _, paren inner => .paren (inner.toExpr atomExpr)

/-! ## The tree of a derivation -/

/-- Two meanings of a nonterminal are related: those of repetitions take related operands to
related results. -/
def Related {β γ : Type} (r : β → γ → Prop) : (n : Nonterminal) → n.Meaning β → n.Meaning γ → Prop
  | .terms, f, g => ∀ b c, r b c → r (f b) (g c)
  | .factors, f, g => ∀ b c, r b c → r (f b) (g c)
  | .expr, b, c => r b c
  | .term, b, c => r b c
  | .unary, b, c => r b c
  | .power, b, c => r b c
  | .primary, b, c => r b c

theorem value_binary (op : Operator) {l r : Expr} {x y : Float} (hl : l.value = x)
    (hr : r.value = y) : (Expr.binary op l r).value = op.apply x y := by
  rw [Expr.value, hl, hr]

/-- The value of a derivation is that of its tree. -/
theorem value_toExpr (atomExpr : α → Expr) {n : Nonterminal} (d : Derivation α n) :
    Related (fun e x ↦ e.value = x) n (d.toExpr atomExpr) (d.value fun a ↦ (atomExpr a).value) := by
  induction d with
  | expr first rest ih1 ih2 => exact ih2 _ _ ih1
  | noTerms => exact fun _ _ h ↦ h
  | moreTerms before op _ last ih1 ih2 => exact fun e x h ↦ value_binary op (ih1 e x h) ih2
  | term first rest ih1 ih2 => exact ih2 _ _ ih1
  | noFactors => exact fun _ _ h ↦ h
  | moreFactors before op _ last ih1 ih2 => exact fun e x h ↦ value_binary op (ih1 e x h) ih2
  | signed sign operand ih => exact congrArg sign.apply ih
  | unsigned operand ih => exact ih
  | bare operand ih => exact ih
  | raised base exponent ih1 ih2 => exact value_binary .power ih1 ih2
  | atom a => exact rfl
  | paren inner ih => exact ih

/-- The tokens of a tree are those of the derivation; for a repetition, with those of the operand to
its left in front. -/
def Spelled : (n : Nonterminal) → n.Meaning Expr → List Token → Prop
  | .terms, f, ts => ∀ e, (f e).tokens = e.tokens ++ ts
  | .factors, f, ts => ∀ e, (f e).tokens = e.tokens ++ ts
  | .expr, e, ts => e.tokens = ts
  | .term, e, ts => e.tokens = ts
  | .unary, e, ts => e.tokens = ts
  | .power, e, ts => e.tokens = ts
  | .primary, e, ts => e.tokens = ts

theorem tokens_binary (op : Operator) {l r : Expr} {ts us : List Token} (hl : l.tokens = ts)
    (hr : r.tokens = us) : (Expr.binary op l r).tokens = ts ++ op.token :: us := by
  rw [Expr.tokens, hl, hr]

/-- The tree of a derivation has the derivation's tokens. -/
theorem tokens_toExpr (atomExpr : α → Expr) {n : Nonterminal} (d : Derivation α n) :
    Spelled n (d.toExpr atomExpr) (d.tokens fun a ↦ (atomExpr a).tokens) := by
  induction d with
  | expr first rest ih1 ih2 => exact (ih2 _).trans (congrArg (· ++ _) ih1)
  | noTerms => exact fun e ↦ (List.append_nil _).symm
  | moreTerms before op _ last ih1 ih2 =>
    exact fun e ↦ (tokens_binary op (ih1 e) ih2).trans (List.append_assoc _ _ _)
  | term first rest ih1 ih2 => exact (ih2 _).trans (congrArg (· ++ _) ih1)
  | noFactors => exact fun e ↦ (List.append_nil _).symm
  | moreFactors before op _ last ih1 ih2 =>
    exact fun e ↦ (tokens_binary op (ih1 e) ih2).trans (List.append_assoc _ _ _)
  | signed sign operand ih => exact congrArg (sign.token :: ·) ih
  | unsigned operand ih => exact ih
  | bare operand ih => exact ih
  | raised base exponent ih1 ih2 => exact tokens_binary .power ih1 ih2
  | atom a => exact rfl
  | paren inner ih => exact congrArg (fun ts ↦ Token.openParen :: (ts ++ [.closeParen])) ih

/-! ## Well-formed trees -/

/-- A primary that is an atom is one with the given property. -/
def AtomSatisfies (p : α → Prop) : Derivation α .primary → Prop
  | atom a => p a
  | paren _ => True

/-- Atoms are bases of powers only if they have the given property. -/
def BasesSatisfy (p : α → Prop) {n : Nonterminal} : Derivation α n → Prop
  | expr first rest => first.BasesSatisfy p ∧ rest.BasesSatisfy p
  | noTerms => True
  | moreTerms before _ _ last => before.BasesSatisfy p ∧ last.BasesSatisfy p
  | term first rest => first.BasesSatisfy p ∧ rest.BasesSatisfy p
  | noFactors => True
  | moreFactors before _ _ last => before.BasesSatisfy p ∧ last.BasesSatisfy p
  | signed _ operand => operand.BasesSatisfy p
  | unsigned operand => operand.BasesSatisfy p
  | bare operand => operand.BasesSatisfy p
  | raised base exponent =>
    base.AtomSatisfies p ∧ base.BasesSatisfy p ∧ exponent.BasesSatisfy p
  | atom _ => True
  | paren inner => inner.BasesSatisfy p

theorem basesSatisfy_of_forall {p : α → Prop} (h : ∀ a, p a) {n : Nonterminal}
    (d : Derivation α n) : d.BasesSatisfy p := by
  induction d with
  | expr first rest ih1 ih2 => exact ⟨ih1, ih2⟩
  | noTerms => exact True.intro
  | moreTerms before op _ last ih1 ih2 => exact ⟨ih1, ih2⟩
  | term first rest ih1 ih2 => exact ⟨ih1, ih2⟩
  | noFactors => exact True.intro
  | moreFactors before op _ last ih1 ih2 => exact ⟨ih1, ih2⟩
  | signed sign operand ih => exact ih
  | unsigned operand ih => exact ih
  | bare operand ih => exact ih
  | raised base exponent ih1 ih2 =>
    refine ⟨?_, ih1, ih2⟩
    cases base with
    | atom a => exact h a
    | paren inner => exact True.intro
  | atom a => exact True.intro
  | paren inner ih => exact ih

/-- A tree binds strongly enough for a place where its nonterminal stands. -/
def Suits : (n : Nonterminal) → n.Meaning Expr → Prop
  | .expr, e => e.WellFormed
  | .terms, f => ∀ e : Expr, e.WellFormed → (f e).WellFormed
  | .term, e => e.BindsAtLeast .product ∧ e.WellFormed
  | .factors, f => ∀ e : Expr, e.BindsAtLeast .product → e.WellFormed →
      (f e).BindsAtLeast .product ∧ (f e).WellFormed
  | .unary, e => e.BindsAtLeast .signed ∧ e.WellFormed
  | .power, e => e.BindsAtLeast .signed ∧ e.WellFormed
  | .primary, e => e.BindsAtLeast .signed ∧ e.WellFormed

theorem product_of_signed {e : Expr} (h : e.BindsAtLeast .signed) : e.BindsAtLeast .product :=
  Nat.le_trans (by decide) h

/-- An operator with the strength of a sum takes any left operand and a product on its right. -/
theorem wellFormed_additive {op : Operator} (h : op.strength = .sum) {l r : Expr}
    (hl : l.WellFormed) (hr : r.BindsAtLeast .product ∧ r.WellFormed) :
    (Expr.binary op l r).WellFormed := by
  cases op with
  | add => exact ⟨l.bindsAtLeast_sum, hl, hr⟩
  | subtract => exact ⟨l.bindsAtLeast_sum, hl, hr⟩
  | multiply => cases h
  | divide => cases h
  | power => cases h

/-- An operator with the strength of a product takes a product on its left and a signed operand on
its right. -/
theorem wellFormed_multiplicative {op : Operator} (h : op.strength = .product) {l r : Expr}
    (hl : l.BindsAtLeast .product ∧ l.WellFormed) (hr : r.BindsAtLeast .signed ∧ r.WellFormed) :
    (Expr.binary op l r).BindsAtLeast .product ∧ (Expr.binary op l r).WellFormed := by
  cases op with
  | add => cases h
  | subtract => cases h
  | multiply => exact ⟨Nat.le_refl _, hl.1, hl.2, hr⟩
  | divide => exact ⟨Nat.le_refl _, hl.1, hl.2, hr⟩
  | power => cases h

/-- The tree of a derivation is well formed, provided that the trees of its atoms are, and that
those of the atoms that are bases of powers bind strongly enough for that. -/
theorem toExpr_wellFormed {atomExpr : α → Expr} {p : α → Prop}
    (hatom : ∀ a, (atomExpr a).BindsAtLeast .signed ∧ (atomExpr a).WellFormed)
    (hbase : ∀ a, p a → (atomExpr a).BindsAtLeast .primary) {n : Nonterminal}
    (d : Derivation α n) (h : d.BasesSatisfy p) : Suits n (d.toExpr atomExpr) := by
  induction d with
  | expr first rest ih1 ih2 => exact ih2 h.2 _ (ih1 h.1).2
  | noTerms => exact fun _ he ↦ he
  | moreTerms before op hop last ih1 ih2 =>
    exact fun e he ↦ wellFormed_additive hop (ih1 h.1 e he) (ih2 h.2)
  | term first rest ih1 ih2 =>
    obtain ⟨h1, h2⟩ := ih1 h.1
    exact ih2 h.2 _ (product_of_signed h1) h2
  | noFactors => exact fun _ hb he ↦ ⟨hb, he⟩
  | moreFactors before op hop last ih1 ih2 =>
    exact fun e hb he ↦ wellFormed_multiplicative hop (ih1 h.1 e hb he) (ih2 h.2)
  | signed sign operand ih => exact ⟨Nat.le_refl _, ih h⟩
  | unsigned operand ih => exact ih h
  | bare operand ih => exact ih h
  | raised base exponent ih1 ih2 =>
    have hprimary : (base.toExpr atomExpr : Expr).BindsAtLeast .primary := by
      cases base with
      | atom a => exact hbase a h.1
      | paren inner => exact Nat.le_refl _
    exact ⟨(by decide : Strength.signed.rank ≤ Strength.power.rank), hprimary, (ih1 h.2.1).2,
      ih2 h.2.2⟩
  | atom a => exact hatom a
  | paren inner ih => exact ⟨(by decide : Strength.signed.rank ≤ Strength.primary.rank), ih h⟩

end Derivation

/-! ## Sentences

In the arithmetic language the atoms are numbers. -/

/-- A derivation from `expr` in the grammar of the arithmetic language. -/
abbrev Sentence : Type := Derivation Float .expr

/-- The tokens that a sentence derives. -/
def Sentence.tokens (d : Sentence) : List Token := Derivation.tokens (fun x ↦ [.number x]) d

/-- The value of a sentence. -/
def Sentence.value (d : Sentence) : Float := Derivation.value (fun x ↦ x) d

/-- The expression tree of a sentence. -/
def Sentence.toExpr (d : Sentence) : Expr := Derivation.toExpr .number d

namespace Derivation

theorem number_wellFormed (x : Float) :
    (Expr.number x).BindsAtLeast .signed ∧ (Expr.number x).WellFormed :=
  ⟨(by decide : Strength.signed.rank ≤ Strength.primary.rank), True.intro⟩

/-- If every atom is a number, the tree suits the place of its nonterminal. -/
theorem suits_numbers {α : Type} (number : α → Float) {n : Nonterminal} (d : Derivation α n) :
    Suits n (d.toExpr fun a ↦ .number (number a)) :=
  toExpr_wellFormed (fun a ↦ number_wellFormed (number a)) (fun _ _ ↦ Nat.le_refl _) d
    (basesSatisfy_of_forall (fun _ ↦ True.intro) d)

theorem suits_number {n : Nonterminal} (d : Derivation Float n) : Suits n (d.toExpr .number) :=
  suits_numbers (fun x ↦ x) d

theorem strength_primary (d : Derivation Float .primary) :
    Expr.strength (d.toExpr .number) = .primary := by
  cases d <;> rfl

theorem power_le_strength (d : Derivation Float .power) :
    Expr.BindsAtLeast (d.toExpr .number) .power := by
  cases d with
  | bare operand =>
    show Strength.power.rank ≤ (Expr.strength (operand.toExpr .number)).rank
    rw [strength_primary]
    decide
  | raised base exponent => exact Nat.le_refl _

theorem not_power_of_signed (s : Sign) (e : Expr) : ¬ (Expr.signed s e).BindsAtLeast .power :=
  (by decide : ¬ Strength.power.rank ≤ Strength.signed.rank)

/-- Different derivations have different trees.  For repetitions this is so because the operand to
their left is not itself a node of the repetition's operators. -/
def TreeDetermines : (n : Nonterminal) → Derivation Float n → Prop
  | .terms, d => ∀ (d' : Derivation Float .terms) (e e' : Expr), e.BindsAtLeast .product →
      e'.BindsAtLeast .product → d.toExpr .number e = d'.toExpr .number e' → d = d' ∧ e = e'
  | .factors, d => ∀ (d' : Derivation Float .factors) (e e' : Expr), e.BindsAtLeast .signed →
      e'.BindsAtLeast .signed → d.toExpr .number e = d'.toExpr .number e' → d = d' ∧ e = e'
  | .expr, d => ∀ d' : Derivation Float .expr, d.toExpr .number = d'.toExpr .number → d = d'
  | .term, d => ∀ d' : Derivation Float .term, d.toExpr .number = d'.toExpr .number → d = d'
  | .unary, d => ∀ d' : Derivation Float .unary, d.toExpr .number = d'.toExpr .number → d = d'
  | .power, d => ∀ d' : Derivation Float .power, d.toExpr .number = d'.toExpr .number → d = d'
  | .primary, d =>
    ∀ d' : Derivation Float .primary, d.toExpr .number = d'.toExpr .number → d = d'

/-- A node is not an operand of a repetition of operators as weak as its own. -/
theorem not_bindsAtLeast {op : Operator} {s t : Strength} (hop : op.strength = s)
    (hst : s.rank < t.rank) {e l r : Expr} (h : Expr.binary op l r = e) :
    ¬ e.BindsAtLeast t := by
  subst h
  rw [Expr.BindsAtLeast, Expr.strength, hop]
  exact Nat.not_le_of_lt hst

theorem treeDetermines {n : Nonterminal} (d : Derivation Float n) : TreeDetermines n d := by
  induction d with
  | expr first rest ih1 ih2 =>
    intro d' h
    cases d' with
    | expr first' rest' =>
      obtain ⟨rfl, h1⟩ := ih2 rest' _ _ (suits_number first).1 (suits_number first').1 h
      rw [ih1 first' h1]
  | noTerms =>
    intro d' e e' he he' h
    cases d' with
    | noTerms => exact ⟨rfl, h⟩
    | moreTerms before op hop last => exact absurd he (not_bindsAtLeast hop (by decide) h.symm)
  | moreTerms before op hop last ih1 ih2 =>
    intro d' e e' he he' h
    cases d' with
    | noTerms => exact absurd he' (not_bindsAtLeast hop (by decide) h)
    | moreTerms before' op' hop' last' =>
      obtain ⟨rfl, h1, h2⟩ := Expr.binary.inj h
      obtain ⟨rfl, h3⟩ := ih1 before' e e' he he' h1
      exact ⟨by rw [ih2 last' h2], h3⟩
  | term first rest ih1 ih2 =>
    intro d' h
    cases d' with
    | term first' rest' =>
      obtain ⟨rfl, h1⟩ := ih2 rest' _ _ (suits_number first).1 (suits_number first').1 h
      rw [ih1 first' h1]
  | noFactors =>
    intro d' e e' he he' h
    cases d' with
    | noFactors => exact ⟨rfl, h⟩
    | moreFactors before op hop last => exact absurd he (not_bindsAtLeast hop (by decide) h.symm)
  | moreFactors before op hop last ih1 ih2 =>
    intro d' e e' he he' h
    cases d' with
    | noFactors => exact absurd he' (not_bindsAtLeast hop (by decide) h)
    | moreFactors before' op' hop' last' =>
      obtain ⟨rfl, h1, h2⟩ := Expr.binary.inj h
      obtain ⟨rfl, h3⟩ := ih1 before' e e' he he' h1
      exact ⟨by rw [ih2 last' h2], h3⟩
  | signed sign operand ih =>
    intro d' h
    cases d' with
    | signed sign' operand' =>
      obtain ⟨rfl, h1⟩ := Expr.signed.inj h
      rw [ih operand' h1]
    | unsigned operand' =>
      have hpower := power_le_strength operand'
      rw [← show Expr.signed sign (operand.toExpr .number) = operand'.toExpr .number from h]
        at hpower
      exact absurd hpower (not_power_of_signed _ _)
  | unsigned operand ih =>
    intro d' h
    cases d' with
    | signed sign' operand' =>
      have hpower := power_le_strength operand
      rw [show operand.toExpr .number = Expr.signed sign' (operand'.toExpr .number) from h]
        at hpower
      exact absurd hpower (not_power_of_signed _ _)
    | unsigned operand' => rw [ih operand' h]
  | bare operand ih =>
    intro d' h
    cases d' with
    | bare operand' => rw [ih operand' h]
    | raised base exponent =>
      have hprimary := strength_primary operand
      rw [show operand.toExpr .number = Expr.binary .power (base.toExpr .number)
        (exponent.toExpr .number) from h] at hprimary
      cases hprimary
  | raised base exponent ih1 ih2 =>
    intro d' h
    cases d' with
    | bare operand =>
      have hprimary := strength_primary operand
      rw [← show Expr.binary .power (base.toExpr .number) (exponent.toExpr .number)
        = operand.toExpr .number from h] at hprimary
      cases hprimary
    | raised base' exponent' =>
      obtain ⟨-, h1, h2⟩ := Expr.binary.inj h
      rw [ih1 base' h1, ih2 exponent' h2]
  | atom x =>
    intro d' h
    cases d' with
    | atom y => rw [Expr.number.inj h]
    | paren inner => cases h
  | paren inner ih =>
    intro d' h
    cases d' with
    | atom y => cases h
    | paren inner' => rw [ih inner' (Expr.paren.inj h)]

end Derivation

namespace Sentence

theorem toExpr_injective {d d' : Sentence} (h : d.toExpr = d'.toExpr) : d = d' :=
  Derivation.treeDetermines d d' h

theorem toExpr_tokens (d : Sentence) : d.toExpr.tokens = d.tokens :=
  Derivation.tokens_toExpr .number d

theorem toExpr_value (d : Sentence) : d.toExpr.value = d.value :=
  Derivation.value_toExpr .number d

theorem wellFormed_toExpr (d : Sentence) : d.toExpr.WellFormed := Derivation.suits_number d

end Sentence

/-! ## The derivation of a tree -/

/-- Some derivation from the nonterminal has this tree. -/
def HasDerivation (n : Nonterminal) (e : n.Meaning Expr) : Prop :=
  ∃ d : Derivation Float n, d.toExpr .number = e

namespace HasDerivation

variable {e : Expr}

theorem power (h : HasDerivation .primary e) : HasDerivation .power e :=
  h.elim fun d hd ↦ ⟨.bare d, hd⟩

theorem unary (h : HasDerivation .power e) : HasDerivation .unary e :=
  h.elim fun d hd ↦ ⟨.unsigned d, hd⟩

theorem term (h : HasDerivation .unary e) : HasDerivation .term e :=
  h.elim fun d hd ↦ ⟨.term d .noFactors, hd⟩

theorem expr (h : HasDerivation .term e) : HasDerivation .expr e :=
  h.elim fun d hd ↦ ⟨.expr d .noTerms, hd⟩

/-- One more operand at the end of a sum. -/
theorem additive {op : Operator} (hop : op.strength = .sum) {l r : Expr}
    (hl : HasDerivation .expr l) (hr : HasDerivation .term r) :
    HasDerivation .expr (.binary op l r) := by
  obtain ⟨d, rfl⟩ := hl
  obtain ⟨last, rfl⟩ := hr
  cases d with
  | expr first rest => exact ⟨.expr first (.moreTerms rest op hop last), rfl⟩

/-- One more operand at the end of a product. -/
theorem multiplicative {op : Operator} (hop : op.strength = .product) {l r : Expr}
    (hl : HasDerivation .term l) (hr : HasDerivation .unary r) :
    HasDerivation .term (.binary op l r) := by
  obtain ⟨d, rfl⟩ := hl
  obtain ⟨last, rfl⟩ := hr
  cases d with
  | term first rest => exact ⟨.term first (.moreFactors rest op hop last), rfl⟩

theorem raised {l r : Expr} (hl : HasDerivation .primary l) (hr : HasDerivation .unary r) :
    HasDerivation .power (.binary .power l r) := by
  obtain ⟨base, rfl⟩ := hl
  obtain ⟨exponent, rfl⟩ := hr
  exact ⟨.raised base exponent, rfl⟩

/-- A well-formed tree can be derived from every nonterminal that it binds strongly enough for. -/
structure AtEveryPlace (e : Expr) : Prop where
  expr : HasDerivation .expr e
  term : e.BindsAtLeast .product → HasDerivation .term e
  unary : e.BindsAtLeast .signed → HasDerivation .unary e
  primary : e.BindsAtLeast .primary → HasDerivation .primary e

theorem atEveryPlace_of_primary (h : HasDerivation .primary e) : AtEveryPlace e where
  expr := h.power.unary.term.expr
  term _ := h.power.unary.term
  unary _ := h.power.unary
  primary _ := h

theorem atEveryPlace_additive {op : Operator} (hop : op.strength = .sum) {l r : Expr}
    (hl : AtEveryPlace l) (hr : HasDerivation .term r) : AtEveryPlace (.binary op l r) where
  expr := additive hop hl.expr hr
  term h := absurd h (Derivation.not_bindsAtLeast hop (by decide) rfl)
  unary h := absurd h (Derivation.not_bindsAtLeast hop (by decide) rfl)
  primary h := absurd h (Derivation.not_bindsAtLeast hop (by decide) rfl)

theorem atEveryPlace_multiplicative {op : Operator} (hop : op.strength = .product) {l r : Expr}
    (hl : HasDerivation .term l) (hr : HasDerivation .unary r) :
    AtEveryPlace (.binary op l r) where
  expr := (multiplicative hop hl hr).expr
  term _ := multiplicative hop hl hr
  unary h := absurd h (Derivation.not_bindsAtLeast hop (by decide) rfl)
  primary h := absurd h (Derivation.not_bindsAtLeast hop (by decide) rfl)

theorem atEveryPlace {e : Expr} (he : e.WellFormed) : AtEveryPlace e := by
  induction e with
  | number x => exact atEveryPlace_of_primary ⟨.atom x, rfl⟩
  | paren inner ih =>
    obtain ⟨d, rfl⟩ := (ih he).expr
    exact atEveryPlace_of_primary ⟨.paren d, rfl⟩
  | signed s operand ih =>
    obtain ⟨d, rfl⟩ := (ih he.2).unary he.1
    have h : HasDerivation .unary (.signed s (d.toExpr .number)) := ⟨.signed s d, rfl⟩
    exact ⟨h.term.expr, fun _ ↦ h.term, fun _ ↦ h,
      fun hp ↦ absurd hp (by decide : ¬ Strength.primary.rank ≤ Strength.signed.rank)⟩
  | binary op l r ihl ihr =>
    obtain ⟨hl, hlw, hr, hrw⟩ := he
    have hleft := ihl hlw
    have hright := ihr hrw
    cases op with
    | add => exact atEveryPlace_additive rfl hleft (hright.term hr)
    | subtract => exact atEveryPlace_additive rfl hleft (hright.term hr)
    | multiply => exact atEveryPlace_multiplicative rfl (hleft.term hl) (hright.unary hr)
    | divide => exact atEveryPlace_multiplicative rfl (hleft.term hl) (hright.unary hr)
    | power =>
      have h := raised (hleft.primary hl) (hright.unary hr)
      exact ⟨h.unary.term.expr, fun _ ↦ h.unary.term, fun _ ↦ h.unary,
        fun hp ↦ absurd hp (by decide : ¬ Strength.primary.rank ≤ Strength.power.rank)⟩

end HasDerivation

/-! ## The parser and the grammar -/

/-- The parser finds the tree of the one derivation there is. -/
theorem parse_eq_ok_iff_sentence {ts : List Token} {e : Expr} :
    parse ts = .ok e ↔ ∃ d : Sentence, d.tokens = ts ∧ d.toExpr = e := by
  rw [parse_eq_ok_iff]
  constructor
  · rintro ⟨he, rfl⟩
    obtain ⟨d, hd⟩ := (HasDerivation.atEveryPlace he).expr
    have htree : Sentence.toExpr d = e := hd
    exact ⟨d, by rw [← Sentence.toExpr_tokens, htree], htree⟩
  · rintro ⟨d, rfl, rfl⟩
    exact ⟨d.wellFormed_toExpr, d.toExpr_tokens⟩

/-- Tokens have at most one derivation. -/
theorem Sentence.eq_of_tokens_eq {d d' : Sentence} (h : d.tokens = d'.tokens) : d = d' := by
  apply toExpr_injective
  apply Expr.eq_of_tokens_eq d.wellFormed_toExpr d'.wellFormed_toExpr
  rw [toExpr_tokens, toExpr_tokens, h]

/-- The value of a text with tokens is that of their tree. -/
theorem evaluateArithmetic_of_tokenize {s : List Char} {ts : List Token}
    (hs : tokenize s = .ok ts) (hne : ts ≠ []) :
    evaluateArithmetic s = (parse ts).map Expr.value := by
  rw [evaluateArithmetic, hs]
  cases ts with
  | nil => exact absurd rfl hne
  | cons t ts => rfl

/-- **The arithmetic language is its grammar.**  A text with tokens has the value `v` exactly when
its tokens have a derivation whose value is `v`, and they never have two derivations. -/
theorem evaluateArithmetic_eq_ok_iff_derivation {s : List Char} {ts : List Token}
    (hs : tokenize s = .ok ts) (hne : ts ≠ []) :
    (∀ v : Float, evaluateArithmetic s = .ok v ↔
        ∃ d : Sentence, d.tokens = ts ∧ d.value = v) ∧
      ∀ d d' : Sentence, d.tokens = ts → d'.tokens = ts → d = d' := by
  refine ⟨fun v ↦ ?_, fun d d' h h' ↦ Sentence.eq_of_tokens_eq (h.trans h'.symm)⟩
  rw [evaluateArithmetic_of_tokenize hs hne]
  constructor
  · intro h
    rcases hparse : parse ts with cause | e
    · rw [hparse] at h
      cases h
    · obtain ⟨d, hd, rfl⟩ := parse_eq_ok_iff_sentence.mp hparse
      rw [hparse] at h
      exact ⟨d, hd, d.toExpr_value ▸ Except.ok.inj h⟩
  · rintro ⟨d, hd, rfl⟩
    rw [parse_eq_ok_iff_sentence.mpr ⟨d, hd, rfl⟩, ← d.toExpr_value]
    rfl

theorem evaluateArithmetic_sign_before_power :
    tokenize ['-', '2', '*', '*', '-', '1'] = .ok [.minus, .number 2, .power, .minus, .number 1] ∧
      (∀ v : Float, evaluateArithmetic ['-', '2', '*', '*', '-', '1'] = .ok v ↔
        ∃ d : Sentence,
          d.tokens = [.minus, .number 2, .power, .minus, .number 1] ∧ d.value = v) ∧
      ∀ d d' : Sentence, d.tokens = [.minus, .number 2, .power, .minus, .number 1] →
        d'.tokens = [.minus, .number 2, .power, .minus, .number 1] → d = d' := by
  have htokens : tokenize ['-', '2', '*', '*', '-', '1']
      = .ok [.minus, .number 2, .power, .minus, .number 1] := by decide +kernel
  exact ⟨htokens, evaluateArithmetic_eq_ok_iff_derivation htokens (List.cons_ne_nil _ _)⟩

end Calculator

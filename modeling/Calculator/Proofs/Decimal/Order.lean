import Calculator.Proofs.Decimal.Bits
import Calculator.Proofs.Decimal.ReadBack

/-!
# The order of the doubles

Two doubles are compared in their unpacked form: by their signs, then by their exponents, and then
by their significands.  A magnitude has its exponent above its significand, so for finite doubles
all this comes to comparing two whole numbers, the magnitudes with a minus in front where the
doubles have one (`le_iff`).

Whatever keeps the order of the magnitudes therefore keeps that of the doubles, with the signs in
front (`withSign_le_withSign`).  `Double.exact` is the number that a finite double stands for.
-/

set_option autoImplicit false

namespace Calculator

/-- The number with a minus in front, if asked for. -/
def withSign {α : Type} [Neg α] (negative : Bool) (a : α) : α := if negative then -a else a

@[simp] theorem withSign_zero (negative : Bool) : withSign negative (0 : ℚ) = 0 := by
  cases negative with
  | false => rfl
  | true => exact neg_zero

/-- What keeps the order of the magnitudes keeps it with the signs in front, too. -/
theorem withSign_le_withSign {φ : Nat → ℚ} (hφ : Monotone φ) (hzero : φ 0 = 0) {a b : Bool}
    {m n : Nat} (h : withSign a (m : Int) ≤ withSign b (n : Int)) :
    withSign a (φ m) ≤ withSign b (φ n) := by
  have hnonneg : ∀ k, 0 ≤ φ k := fun k ↦ hzero ▸ hφ (Nat.zero_le k)
  cases a with
  | false =>
    cases b with
    | false => exact hφ (Int.ofNat_le.mp h)
    | true =>
      change (m : Int) ≤ -(n : Int) at h
      obtain ⟨rfl, rfl⟩ : m = 0 ∧ n = 0 := by omega
      rw [hzero, withSign_zero, withSign_zero]
  | true =>
    cases b with
    | false => exact (neg_nonpos.mpr (hnonneg m)).trans (hnonneg n)
    | true => exact neg_le_neg (hφ (Int.ofNat_le.mp (Int.neg_le_neg_iff.mp h)))

namespace Double

open Float.Model

/-! ## Exponent and significand -/

variable {s t f g : Nat}

/-- The unpacked form of a double in a binade. -/
theorem unpacked_binade (sgn : UnpackedFloat.Sign) (hf : f < 0x20000000000000)
    (hs : s = 0 ∨ 0x10000000000000 ≤ f) (hpos : 0 < f)
    (hfinite : s * 0x10000000000000 + f < infinity) :
    unpacked sgn (s * 0x10000000000000 + f) = .finite sgn f (s - 1074) hpos := by
  rw [unpacked, if_neg (Nat.lt_asymm hfinite), if_neg (Nat.ne_of_lt hfinite), dif_neg (by omega)]
  split
  · exact finite_congr (by omega) (by omega) _ _
  · exact finite_congr (by omega) (by omega) _ _

/-- Comparing the exponents and then the significands is comparing the magnitudes. -/
theorem compare_binade (hf : f < 0x20000000000000) (hs : s = 0 ∨ 0x10000000000000 ≤ f)
    (hg : g < 0x20000000000000) (ht : t = 0 ∨ 0x10000000000000 ≤ g) :
    (compare ((s : Int) - 1074) (t - 1074)).then (compare f g)
      = compare (s * 0x10000000000000 + f) (t * 0x10000000000000 + g) := by
  rcases Nat.lt_trichotomy s t with h | rfl | h
  · have hlt : s * 0x10000000000000 + f < t * 0x10000000000000 + g := by omega
    rw [Int.compare_eq_lt.mpr (by omega), Nat.compare_eq_lt.mpr hlt]
    rfl
  · rw [Int.compare_eq_eq.mpr rfl]
    show compare f g = _
    rcases Nat.lt_trichotomy f g with h | rfl | h
    · rw [Nat.compare_eq_lt.mpr h, Nat.compare_eq_lt.mpr (Nat.add_lt_add_left h _)]
    · rw [Nat.compare_eq_eq.mpr rfl, Nat.compare_eq_eq.mpr rfl]
    · rw [Nat.compare_eq_gt.mpr h, Nat.compare_eq_gt.mpr (Nat.add_lt_add_left h _)]
  · have hlt : t * 0x10000000000000 + g < s * 0x10000000000000 + f := by omega
    rw [Int.compare_eq_gt.mpr (by omega), Nat.compare_eq_gt.mpr hlt]
    rfl

/-! ## Order -/

variable {m n : Nat}

/-- A magnitude other than zero has a significand. -/
theorem exists_unpacked_eq (hpos : 0 < m) (hm : m < infinity) :
    ∃ s f, m = s * 0x10000000000000 + f ∧ f < 0x20000000000000 ∧
      (s = 0 ∨ 0x10000000000000 ≤ f) ∧
      ∃ hf : 0 < f, ∀ sgn, unpacked sgn m = .finite sgn f (s - 1074) hf := by
  obtain ⟨s, f, rfl, hf, hs⟩ := exists_binade m
  have hfpos : 0 < f := by omega
  exact ⟨s, f, rfl, hf, hs, hfpos, fun sgn ↦ unpacked_binade sgn hf hs hfpos hm⟩

/-- **Unpacked forms** are in the order of the magnitudes with their signs. -/
theorem le_unpacked (a b : Bool) (hm : m < infinity) (hn : n < infinity) :
    (unpacked (sign a) m).le (unpacked (sign b) n) = true
      ↔ withSign a (m : Int) ≤ withSign b (n : Int) := by
  have hzero : ∀ c : Bool, unpacked (sign c) 0 = .zero (sign c) := fun _ ↦ rfl
  rw [UnpackedFloat.le]
  rcases Nat.eq_zero_or_pos m with rfl | hmpos <;> rcases Nat.eq_zero_or_pos n with rfl | hnpos
  · rw [hzero, hzero]
    cases a <;> cases b <;> decide
  · obtain ⟨t, g, -, -, -, hg, hn⟩ := exists_unpacked_eq hnpos hn
    rw [hzero, hn]
    cases a <;> cases b <;> simp [withSign, sign, UnpackedFloat.compare] <;> omega
  · obtain ⟨s, f, -, -, -, hf, hm⟩ := exists_unpacked_eq hmpos hm
    rw [hzero, hm]
    cases a <;> cases b <;> simp [withSign, sign, UnpackedFloat.compare] <;> omega
  · obtain ⟨s, f, hms, hf, hs, hfpos, hm⟩ := exists_unpacked_eq hmpos hm
    obtain ⟨t, g, hnt, hg, ht, hgpos, hn⟩ := exists_unpacked_eq hnpos hn
    have hcompare := compare_binade hf hs hg ht
    rw [← hms, ← hnt] at hcompare
    rw [hm, hn]
    cases a <;> cases b <;>
      simp [withSign, sign, UnpackedFloat.compare, hcompare, Nat.isLE_compare, Nat.isGE_compare]
    omega

/-- **The order of the finite doubles** is that of their magnitudes with their signs. -/
theorem le_iff {x y : Float} (hx : x.isFinite = true) (hy : y.isFinite = true) :
    x ≤ y ↔ withSign (isNegative x) (magnitude x : Int)
      ≤ withSign (isNegative y) (magnitude y : Int) := by
  have hle := le_unpacked (isNegative x) (isNegative y) (isFinite_iff.mp hx) (isFinite_iff.mp hy)
  rw [← unpack_eq_unpacked, ← unpack_eq_unpacked] at hle
  rw [← hle]
  show Float.le x y = true ↔ _
  rw [Float.le, decide_eq_true_iff]
  rfl

/-! ## Exact values -/

/-- The number that the double without sign of this magnitude stands for. -/
def amount (m : Nat) : ℚ := units m / unitsPerOne

/-- The number that a finite double stands for. -/
def exact (x : Float) : ℚ := withSign (isNegative x) (amount (magnitude x))

theorem unitsPerOne_cast_pos : (0 : ℚ) < unitsPerOne := Nat.cast_pos.mpr unitsPerOne_pos

theorem amount_nonneg (m : Nat) : 0 ≤ amount m :=
  div_nonneg (Nat.cast_nonneg _) (Nat.cast_nonneg _)

/-- A larger magnitude stands for a larger number. -/
theorem amount_strictMono : StrictMono amount := fun _ _ h ↦
  div_lt_div_of_pos_right (Nat.cast_lt.mpr (units_lt_units h)) unitsPerOne_cast_pos

end Double

end Calculator

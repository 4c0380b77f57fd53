import Calculator.Decimal.Shortest

/-!
# What is written reads back

`Double.ReadsBack` is a condition on whole numbers: a point of the finest decimal grid lies in the
rounding interval of a double.  This file shows that the condition does what its name says.  Reading
the point as a quotient gives the double again (`nearest_of_readsBack`), and so does reading the
shortest decimal of the double (`nearest_shortest`).

A double is `f` units of `2 ^ s`, where `f` is its significand (`units_binade`), and its neighbours
are one such unit away; only below a significand of `2 ^ 52` the unit is half as large.  A point in
the interval is therefore rounded with the double's own unit, or with half of it if it lies below
such a double.  Either way the double is what `roundHalfEven` gives, because the ends of the
interval belong to it only where a tie goes to it (`roundHalfEven_eq`).
-/

set_option autoImplicit false

namespace Calculator

/-! ## Rounding -/

/-- What the nearest whole number is: at most half a unit away, and even if it is half a unit. -/
theorem roundHalfEven_eq {num den r : Nat} (hden : 0 < den)
    (hlow : 2 * (r * den) ≤ 2 * num + den) (hhigh : 2 * num ≤ 2 * (r * den) + den)
    (htie : r % 2 = 0 ∨ 2 * (r * den) < 2 * num + den ∧ 2 * num < 2 * (r * den) + den) :
    roundHalfEven num den = r := by
  have hd : num / den * den + num % den = num := by rw [Nat.mul_comm]; exact Nat.div_add_mod num den
  have hm := Nat.mod_lt num hden
  have hone : (num / den + 1) * den = num / den * den + den := Nat.succ_mul _ _
  simp only [roundHalfEven]
  rcases Nat.lt_trichotomy r (num / den) with hlt | rfl | hgt
  · have hr : (r + 1) * den ≤ num / den * den := Nat.mul_le_mul_right den hlt
    rw [Nat.succ_mul] at hr
    omega
  · split
    · rfl
    · split <;> omega
  · rcases Nat.eq_or_lt_of_le hgt with rfl | hgt2
    · have htwo : (num / den).succ = num / den + 1 := rfl
      rw [htwo] at hlow hhigh htie ⊢
      split
      · omega
      · split <;> omega
    · have hr : (num / den + 2) * den ≤ r * den := Nat.mul_le_mul_right den hgt2
      rw [Nat.add_mul] at hr
      omega

/-- Only the quotient matters. -/
theorem roundHalfEven_scale {num den k : Nat} (hk : 0 < k) :
    roundHalfEven (num * k) (den * k) = roundHalfEven num den := by
  have hlt : 2 * (num % den * k) < den * k ↔ 2 * (num % den) < den := by
    rw [← Nat.mul_assoc]
    exact Nat.mul_lt_mul_right hk
  have hgt : den * k < 2 * (num % den * k) ↔ den < 2 * (num % den) := by
    rw [← Nat.mul_assoc]
    exact Nat.mul_lt_mul_right hk
  simp only [roundHalfEven, Nat.mul_div_mul_right _ _ hk, Nat.mul_mod_mul_right, hlt, hgt]

namespace Double

/-! ## Binades -/

/-- A double is its significand times a power of two. -/
theorem units_binade {s f : Nat} (hf : f < 0x20000000000000) (hs : s = 0 ∨ 0x10000000000000 ≤ f) :
    units (s * 0x10000000000000 + f) = f * Nat.pow 2 s := by
  rw [units]
  split
  · obtain rfl : s = 0 := by omega
    rw [Nat.zero_mul, Nat.zero_add]
    exact (Nat.mul_one f).symm
  · have hquot : (s * 0x10000000000000 + f) / 0x10000000000000 - 1 = s := by omega
    have hrem : 0x10000000000000 + (s * 0x10000000000000 + f) % 0x10000000000000 = f := by omega
    rw [hquot, hrem]

theorem pow_succ_two (s : Nat) : Nat.pow 2 (s + 1) = 2 * Nat.pow 2 s := Nat.pow_succ'

/-- The next double is one unit of the binade away. -/
theorem units_binade_succ {s f : Nat} (hf : f < 0x20000000000000)
    (hs : s = 0 ∨ 0x10000000000000 ≤ f) :
    units (s * 0x10000000000000 + f + 1) = (f + 1) * Nat.pow 2 s := by
  rcases Nat.lt_or_ge (f + 1) 0x20000000000000 with h | h
  · rw [Nat.add_assoc]
    exact units_binade h (hs.imp_right fun hle ↦ Nat.le_succ_of_le hle)
  · obtain rfl : f = 0x1FFFFFFFFFFFFF := by omega
    have hnext : s * 0x10000000000000 + 0x1FFFFFFFFFFFFF + 1
        = (s + 1) * 0x10000000000000 + 0x10000000000000 := by omega
    rw [hnext, units_binade (by decide) (Or.inr (by decide)), pow_succ_two, ← Nat.mul_assoc]

/-- The double before it is one unit away, except at the lower end of the binade. -/
theorem units_binade_pred {s f : Nat} (hf : f + 1 < 0x20000000000000)
    (hs : s = 0 ∨ 0x10000000000000 ≤ f) :
    units (s * 0x10000000000000 + (f + 1) - 1) = f * Nat.pow 2 s := by
  have hpred : s * 0x10000000000000 + (f + 1) - 1 = s * 0x10000000000000 + f := by omega
  rw [hpred]
  exact units_binade (by omega) hs

/-- At the lower end of a binade, the double before it is half a unit away. -/
theorem units_binade_lower (s : Nat) :
    units ((s + 1) * 0x10000000000000 + 0x10000000000000 - 1) = 0x1FFFFFFFFFFFFF * Nat.pow 2 s := by
  have hpred : (s + 1) * 0x10000000000000 + 0x10000000000000 - 1
      = s * 0x10000000000000 + 0x1FFFFFFFFFFFFF := by omega
  rw [hpred]
  exact units_binade (by decide) (Or.inr (by decide))

theorem exists_binade (m : Nat) :
    ∃ s f, m = s * 0x10000000000000 + f ∧ f < 0x20000000000000 ∧
      (s = 0 ∨ 0x10000000000000 ≤ f) := by
  rcases Nat.lt_or_ge m 0x10000000000000 with h | h
  · exact ⟨0, m, by omega, by omega, Or.inl rfl⟩
  · exact ⟨m / 0x10000000000000 - 1, m % 0x10000000000000 + 0x10000000000000, by omega, by omega,
      Or.inr (by omega)⟩

/-! ## Reading a point of the grid -/

theorem gridUnit_pos : 0 < Nat.pow 5 unitExponent := Nat.pow_pos (by decide)

theorem pow_ten_unitExponent : Nat.pow 10 unitExponent = Nat.pow 5 unitExponent * unitsPerOne :=
  Nat.mul_pow 5 2 unitExponent

/-- Only the quotient matters to the nearest double. -/
theorem nearest_scale {num den k : Nat} (hk : 0 < k) :
    nearest (num * k) (den * k) = nearest num den := by
  have hnum : num * k * unitsPerOne = num * unitsPerOne * k := Nat.mul_right_comm _ _ _
  have hden : ∀ p, den * k * p = den * p * k := fun p ↦ Nat.mul_right_comm _ _ _
  simp only [nearest, hnum, Nat.mul_div_mul_right _ _ hk, hden, roundHalfEven_scale hk]

/-- The distance of the doubles in a binade, in steps of the grid. -/
def binadeUnit (s : Nat) : Nat := Nat.pow 2 s * Nat.pow 5 unitExponent

theorem binadeUnit_pos (s : Nat) : 0 < binadeUnit s := Nat.mul_pos (Nat.two_pow_pos s) gridUnit_pos

theorem binadeUnit_succ (s : Nat) : binadeUnit (s + 1) = 2 * binadeUnit s := by
  rw [binadeUnit, pow_succ_two, Nat.mul_assoc]
  rfl

theorem mul_binadeUnit (f s : Nat) :
    f * Nat.pow 2 s * Nat.pow 5 unitExponent = f * binadeUnit s := Nat.mul_assoc _ _ _

/-- A quotient is rounded with the unit of the binade it lies in, or with the smallest unit. -/
theorem nearest_binade {num den s : Nat} (hden : 0 < den)
    (hlow : s = 0 ∨ 0x10000000000000 * Nat.pow 2 s * den ≤ num * unitsPerOne)
    (hhigh : num * unitsPerOne < 0x20000000000000 * Nat.pow 2 s * den) :
    nearest num den
      = min infinity
          (s * 0x10000000000000 + roundHalfEven (num * unitsPerOne) (den * Nat.pow 2 s)) := by
  have hlt : num * unitsPerOne / den < 2 ^ (53 + s) := by
    rw [Nat.div_lt_iff_lt_mul hden, Nat.pow_add]
    exact hhigh
  have hshift : (num * unitsPerOne / den).log2 - 52 = s := by
    have hle : (num * unitsPerOne / den).log2 < 53 + s := by
      rcases Nat.eq_zero_or_pos (num * unitsPerOne / den) with h | h
      · rw [h, Nat.log2_zero]
        omega
      · exact (Nat.log2_lt (Nat.ne_of_gt h)).mpr hlt
    rcases hlow with rfl | hlow
    · omega
    · have hge : 2 ^ (52 + s) ≤ num * unitsPerOne / den := by
        rw [Nat.le_div_iff_mul_le hden, Nat.pow_add]
        exact hlow
      have hpos : num * unitsPerOne / den ≠ 0 :=
        Nat.ne_of_gt (Nat.lt_of_lt_of_le (Nat.two_pow_pos _) hge)
      have hlog := (Nat.le_log2 hpos).mpr hge
      omega
  simp only [nearest, hshift]

/-- A point of the grid is rounded with the distance of the doubles around it. -/
theorem nearest_grid {x s : Nat} (hlow : s = 0 ∨ 0x10000000000000 * binadeUnit s ≤ x)
    (hhigh : x < 0x20000000000000 * binadeUnit s) :
    nearest x (Nat.pow 10 unitExponent)
      = min infinity (s * 0x10000000000000 + roundHalfEven x (binadeUnit s)) := by
  have hden : Nat.pow 10 unitExponent * Nat.pow 2 s = binadeUnit s * unitsPerOne := by
    rw [pow_ten_unitExponent, Nat.mul_right_comm, Nat.mul_comm (Nat.pow 5 unitExponent)]
    rfl
  have hbound : ∀ k, k * Nat.pow 2 s * Nat.pow 10 unitExponent
      = k * binadeUnit s * unitsPerOne := by
    intro k
    rw [Nat.mul_assoc, Nat.mul_comm (Nat.pow 2 s), hden, ← Nat.mul_assoc]
  have hten : 0 < Nat.pow 10 unitExponent := Nat.pow_pos (by decide)
  have hgrid := nearest_binade hten
    (hlow.imp_right fun h ↦ hbound _ ▸ Nat.mul_le_mul_right unitsPerOne h)
    (hbound _ ▸ Nat.mul_lt_mul_of_pos_right hhigh unitsPerOne_pos)
  exact hgrid.trans (by rw [hden, roundHalfEven_scale unitsPerOne_pos])

/-- The ends of a rounding interval belong to it where ties end even. -/
theorem readsBack_iff {m x : Nat} :
    ReadsBack m x ↔
      (units m + units (m - 1)) * Nat.pow 5 unitExponent ≤ 2 * x ∧
        2 * x ≤ (units m + units (m + 1)) * Nat.pow 5 unitExponent ∧
        (m % 2 = 0 ∨ (units m + units (m - 1)) * Nat.pow 5 unitExponent < 2 * x ∧
          2 * x < (units m + units (m + 1)) * Nat.pow 5 unitExponent) := by
  simp only [ReadsBack]
  split
  · rename_i h
    constructor
    · rintro ⟨h1, h2⟩
      exact ⟨h1, h2, Or.inl h⟩
    · rintro ⟨h1, h2, -⟩
      exact ⟨h1, h2⟩
  · rename_i h
    constructor
    · rintro ⟨h1, h2⟩
      exact ⟨Nat.le_of_lt h1, Nat.le_of_lt h2, Or.inr ⟨h1, h2⟩⟩
    · rintro ⟨-, -, h1 | h1⟩
      · exact absurd h1 h
      · exact h1

/-- Around a double whose neighbours are both one unit away, the point is rounded with that unit. -/
theorem nearest_inner {s g x : Nat} (hg : g + 1 < 0x20000000000000)
    (hs : s = 0 ∨ 0x10000000000000 ≤ g)
    (h : ReadsBack (s * 0x10000000000000 + (g + 1)) x) :
    nearest x (Nat.pow 10 unitExponent) = min infinity (s * 0x10000000000000 + (g + 1)) := by
  have hs' : s = 0 ∨ 0x10000000000000 ≤ g + 1 := hs.imp_right fun hle ↦ Nat.le_succ_of_le hle
  have heven : (s * 0x10000000000000 + (g + 1)) % 2 = (g + 1) % 2 := by omega
  rw [readsBack_iff, units_binade_succ hg hs', units_binade_pred hg hs, units_binade hg hs',
    ← Nat.add_mul, ← Nat.add_mul, mul_binadeUnit, mul_binadeUnit, heven] at h
  have hunit := binadeUnit_pos s
  have hself : (g + 1) * binadeUnit s = g * binadeUnit s + binadeUnit s := Nat.succ_mul _ _
  have hbefore : (g + 1 + g) * binadeUnit s = 2 * (g * binadeUnit s) + binadeUnit s := by
    rw [Nat.add_mul, hself]
    omega
  have hafter : (g + 1 + (g + 1 + 1)) * binadeUnit s
      = 2 * (g * binadeUnit s) + 3 * binadeUnit s := by
    rw [Nat.add_mul, Nat.add_mul (g + 1), hself]
    omega
  have hmax : (g + 1 + 1) * binadeUnit s ≤ 0x20000000000000 * binadeUnit s :=
    Nat.mul_le_mul_right _ hg
  have hmin : s = 0 ∨ 0x10000000000000 * binadeUnit s ≤ g * binadeUnit s :=
    hs.imp_right fun hle ↦ Nat.mul_le_mul_right _ hle
  rw [Nat.succ_mul, hself] at hmax
  rw [hbefore, hafter] at h
  have hround : roundHalfEven x (binadeUnit s) = g + 1 := by
    apply roundHalfEven_eq hunit <;> rw [hself] <;> omega
  rw [nearest_grid (s := s) (by omega) (by omega), hround]

/-- At the lower end of a binade, a point below the double is rounded with half of its unit. -/
theorem nearest_lower {s x : Nat}
    (h : ReadsBack ((s + 1) * 0x10000000000000 + 0x10000000000000) x) :
    nearest x (Nat.pow 10 unitExponent)
      = min infinity ((s + 1) * 0x10000000000000 + 0x10000000000000) := by
  have hself : units ((s + 1) * 0x10000000000000 + 0x10000000000000)
      = 0x10000000000000 * Nat.pow 2 (s + 1) := units_binade (by decide) (Or.inr (by decide))
  have hafter : units ((s + 1) * 0x10000000000000 + 0x10000000000000 + 1)
      = 0x10000000000001 * Nat.pow 2 (s + 1) := units_binade_succ (by decide) (Or.inr (by decide))
  rw [readsBack_iff, hafter, units_binade_lower, hself, Nat.add_mul, Nat.add_mul, mul_binadeUnit,
    mul_binadeUnit, mul_binadeUnit, binadeUnit_succ] at h
  have hunit := binadeUnit_pos s
  rcases Nat.lt_or_ge x (0x20000000000000 * binadeUnit s) with hx | hx
  · have hround : roundHalfEven x (binadeUnit s) = 0x20000000000000 :=
      roundHalfEven_eq hunit (by omega) (by omega) (Or.inl (by decide))
    rw [nearest_grid (Or.inr (by omega)) hx, hround]
    omega
  · have hround : roundHalfEven x (binadeUnit (s + 1)) = 0x10000000000000 := by
      rw [binadeUnit_succ]
      exact roundHalfEven_eq (by omega) (by omega) (by omega) (Or.inl (by decide))
    rw [nearest_grid (s := s + 1) (Or.inr (by rw [binadeUnit_succ]; omega))
      (by rw [binadeUnit_succ]; omega), hround]

/-- **A point that reads back** as a double has the double for its nearest one. -/
theorem nearest_of_readsBack {m x : Nat} (hpos : 0 < m) (hm : m ≤ infinity) (h : ReadsBack m x) :
    nearest x (Nat.pow 10 unitExponent) = m := by
  obtain ⟨s, f, rfl, hf, hs⟩ := exists_binade m
  have hmin := Nat.min_eq_right hm
  rcases Nat.eq_zero_or_pos f with rfl | hfpos
  · omega
  · obtain ⟨g, rfl⟩ : ∃ g, f = g + 1 := ⟨f - 1, by omega⟩
    by_cases hinner : s = 0 ∨ 0x10000000000000 ≤ g
    · rw [nearest_inner hf hinner h, hmin]
    · obtain ⟨t, rfl⟩ : ∃ t, s = t + 1 := ⟨s - 1, by omega⟩
      obtain rfl : g = 0xFFFFFFFFFFFFF := by omega
      rw [nearest_lower h, hmin]

/-- **The shortest decimal** of a double reads back as the double. -/
theorem nearest_shortest {m : Nat} (hpos : 0 < m) (hm : m ≤ infinity) :
    nearest (shortest m).coefficient (Nat.pow 10 (shortest m).places) = m := by
  have hspec := Decimal.scaled_spec (search m (startExponent m)).1 (search m (startExponent m)).2
    unitExponent
  have hten : ∀ k, 0 < Nat.pow 10 k := fun k ↦ Nat.pow_pos (by decide)
  rw [← nearest_scale (hten unitExponent), shortest, hspec,
    Nat.mul_comm (Nat.pow 10 _) (Nat.pow 10 unitExponent), nearest_scale (hten _)]
  exact nearest_of_readsBack hpos hm (readsBack_search hpos _)

end Double

end Calculator

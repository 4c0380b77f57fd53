import Calculator.Proofs.Decimal.ReadBack

/-!
# The shortest decimal of a whole number

Below `2 ^ 53` the doubles are at most one apart, so a whole number there is the only whole number
in its rounding interval (`eq_of_readsBack`).

The search for the shortest decimal walks down the powers of ten.  It starts at one that is beyond
the number (`unitExponent_le_startExponent`) and comes no further than `10 ^ 0`, because every whole
number is a multiple of that (`unitExponent_le_search`).  So it finds a whole number, and below
`2 ^ 53` that is the number itself (`shortest_whole`).
-/

set_option autoImplicit false

namespace Calculator.Double

variable {n q : Nat}

/-! ## Neighbours -/

/-- The double before another one is at most one unit of the binade away. -/
theorem units_le_pred_add {s f : Nat} (hf : f < 0x20000000000000)
    (hs : s = 0 ∨ 0x10000000000000 ≤ f) :
    units (s * 0x10000000000000 + f) ≤ units (s * 0x10000000000000 + f - 1) + Nat.pow 2 s := by
  rw [units_binade hf hs]
  rcases Nat.eq_zero_or_pos f with rfl | hpos
  · omega
  · obtain ⟨g, rfl⟩ : ∃ g, f = g + 1 := ⟨f - 1, by omega⟩
    by_cases hinner : s = 0 ∨ 0x10000000000000 ≤ g
    · rw [units_binade_pred hf hinner]
      exact Nat.le_of_eq (Nat.succ_mul _ _)
    · obtain ⟨t, rfl⟩ : ∃ t, s = t + 1 := ⟨s - 1, by omega⟩
      obtain rfl : g = 0xFFFFFFFFFFFFF := by omega
      have hlower : units ((t + 1) * 0x10000000000000 + (0xFFFFFFFFFFFFF + 1) - 1) = _ :=
        units_binade_lower t
      rw [hlower, pow_succ_two]
      omega

/-- Whole numbers of at most 53 bits lie in binades whose unit is at most one. -/
theorem binade_le_one {s f : Nat} (hs : s = 0 ∨ 0x10000000000000 ≤ f)
    (hq : q < 0x20000000000000) (h : f * Nat.pow 2 s = q * unitsPerOne) :
    Nat.pow 2 s ≤ unitsPerOne := by
  refine Nat.pow_le_pow_right (by decide) ?_
  rcases hs with rfl | hs
  · exact Nat.zero_le _
  · have hlow : 0x10000000000000 * Nat.pow 2 s ≤ f * Nat.pow 2 s := Nat.mul_le_mul_right _ hs
    have hhigh : q * unitsPerOne < 0x20000000000000 * unitsPerOne :=
      Nat.mul_lt_mul_of_pos_right hq unitsPerOne_pos
    have hlt : Nat.pow 2 s < Nat.pow 2 (unitExponent + 1) := by
      rw [pow_succ_two]
      show Nat.pow 2 s < 2 * unitsPerOne
      omega
    exact Nat.le_of_lt_succ ((Nat.pow_lt_pow_iff_right (by decide)).mp hlt)

/-- The doubles next to a whole number are at most one away. -/
theorem neighbours_whole (hq : q < 0x20000000000000) (hn : units n = q * unitsPerOne) :
    units (n + 1) ≤ (q + 1) * unitsPerOne ∧ q * unitsPerOne ≤ units (n - 1) + unitsPerOne := by
  obtain ⟨s, f, rfl, hf, hs⟩ := exists_binade n
  have hpred := units_le_pred_add hf hs
  rw [hn] at hpred
  rw [units_binade hf hs] at hn
  have hunit := binade_le_one hs hq hn
  rw [units_binade_succ hf hs, Nat.succ_mul, Nat.succ_mul, hn]
  exact ⟨Nat.add_le_add_left hunit _, Nat.le_trans hpred (Nat.add_le_add_left hunit _)⟩

/-! ## Whole numbers on the grid -/

theorem onGrid_whole (hn : units n = q * unitsPerOne) : onGrid n = q * Nat.pow 10 unitExponent := by
  rw [onGrid, hn, pow_ten_unitExponent, Nat.mul_comm (Nat.pow 5 _), Nat.mul_assoc]

/-- No other whole number reads back as a whole number of 53 bits. -/
theorem eq_of_readsBack (hq : q < 0x20000000000000) (hn : units n = q * unitsPerOne) {x : Nat}
    (h : ReadsBack n (x * Nat.pow 10 unitExponent)) : x = q := by
  obtain ⟨hnext, hprev⟩ := neighbours_whole hq hn
  obtain ⟨hlow, hhigh, -⟩ := readsBack_iff.mp h
  have hgrid : ∀ k, k * Nat.pow 10 unitExponent = k * unitsPerOne * Nat.pow 5 unitExponent := by
    intro k
    rw [pow_ten_unitExponent, Nat.mul_comm (Nat.pow 5 _), Nat.mul_assoc]
  rw [hgrid, ← Nat.mul_assoc] at hlow hhigh
  replace hlow := Nat.le_of_mul_le_mul_right hlow gridUnit_pos
  replace hhigh := Nat.le_of_mul_le_mul_right hhigh gridUnit_pos
  have hbelow : (2 * q - 1) * unitsPerOne ≤ 2 * x * unitsPerOne := by
    rw [Nat.sub_mul, Nat.mul_assoc, Nat.mul_assoc]
    omega
  have habove : 2 * x * unitsPerOne ≤ (2 * q + 1) * unitsPerOne := by
    rw [Nat.add_mul, Nat.mul_assoc, Nat.mul_assoc]
    rw [Nat.succ_mul] at hnext
    omega
  have hge := Nat.le_of_mul_le_mul_right hbelow unitsPerOne_pos
  have hle := Nat.le_of_mul_le_mul_right habove unitsPerOne_pos
  omega

/-! ## The search -/

/-- A step of which the double is a multiple is one at which the search stops. -/
theorem pick_ne_none {step c : Nat} (hpos : 0 < n) (hstep : 0 < step) (h : onGrid n = c * step) :
    pick n step ≠ none := by
  have hself := readsBack_onGrid hpos
  rw [h] at hself
  simp only [pick, h, Nat.mul_div_cancel c hstep, if_pos hself]
  split <;> exact Option.some_ne_none _

/-- From a power of ten that is at least one, the search for a whole number comes no further down
than to one. -/
theorem unitExponent_le_search (hpos : 0 < n) (hn : units n = q * unitsPerOne) {exponent : Nat}
    (h : unitExponent ≤ exponent) : unitExponent ≤ (search n exponent).2 := by
  fun_induction search n exponent with
  | case1 => exact h
  | case2 exponent c hc => exact h
  | case3 exponent hnone ih =>
    have hstop := pick_ne_none hpos (Nat.pow_pos (by decide)) (onGrid_whole hn)
    have hne : unitExponent ≠ exponent + 1 := fun heq ↦ hstop (heq ▸ hnone)
    exact ih (Nat.le_of_lt_succ (Nat.lt_of_le_of_ne h hne))

/-- What it finds is the number itself, if that has at most 53 bits. -/
theorem search_whole (hpos : 0 < n) (hq : q < 0x20000000000000)
    (hn : units n = q * unitsPerOne) {exponent : Nat} (h : unitExponent ≤ exponent) :
    (search n exponent).1 * Nat.pow 10 (search n exponent).2 = q * Nat.pow 10 unitExponent := by
  have hle := unitExponent_le_search hpos hn h
  have hreads := readsBack_search hpos exponent
  generalize search n exponent = found at hle hreads
  have hsplit : found.1 * Nat.pow 10 found.2
      = found.1 * Nat.pow 10 (found.2 - unitExponent) * Nat.pow 10 unitExponent := by
    rw [Nat.mul_assoc]
    exact congrArg (found.1 * ·) (Nat.pow_sub_mul_pow 10 hle).symm
  rw [hsplit] at hreads ⊢
  rw [eq_of_readsBack hq hn hreads]

/-- The search starts beyond the double. -/
theorem onGrid_lt_startExponent (n : Nat) : onGrid n < Nat.pow 10 (startExponent n) := by
  have hlog : (onGrid n).log2 < 13 * (((onGrid n).log2 + 1) / 13 + 1) := by omega
  calc onGrid n < 2 ^ (13 * (((onGrid n).log2 + 1) / 13 + 1)) := by
        rcases Nat.eq_zero_or_pos (onGrid n) with h | h
        · rw [h]
          exact Nat.two_pow_pos _
        · exact (Nat.log2_lt (Nat.ne_of_gt h)).mp hlog
    _ = (2 ^ 13) ^ (((onGrid n).log2 + 1) / 13 + 1) := Nat.pow_mul ..
    _ ≤ (10 ^ 4) ^ (((onGrid n).log2 + 1) / 13 + 1) := Nat.pow_le_pow_left (by decide) _
    _ = Nat.pow 10 (startExponent n) := (Nat.pow_mul ..).symm

theorem unitExponent_le_startExponent (hq : 0 < q) (hn : units n = q * unitsPerOne) :
    unitExponent ≤ startExponent n := by
  have hlt := onGrid_lt_startExponent n
  rw [onGrid_whole hn] at hlt
  have hle : Nat.pow 10 unitExponent ≤ q * Nat.pow 10 unitExponent := Nat.le_mul_of_pos_left _ hq
  exact Nat.le_of_lt ((Nat.pow_lt_pow_iff_right (by decide)).mp (Nat.lt_of_le_of_lt hle hlt))

theorem pos_of_whole (hq : 0 < q) (hn : units n = q * unitsPerOne) : 0 < n := by
  refine Nat.pos_of_ne_zero fun h ↦ ?_
  have hzero := units_eq_zero_iff.mpr h
  have hone := Nat.mul_pos hq unitsPerOne_pos
  omega

/-- **The shortest decimal of a whole number** has no places. -/
theorem places_shortest_of_whole (hq : 0 < q) (hn : units n = q * unitsPerOne) :
    (shortest n).places = 0 :=
  Nat.sub_eq_zero_of_le
    (unitExponent_le_search (pos_of_whole hq hn) hn (unitExponent_le_startExponent hq hn))

/-- **A whole number of at most 53 bits** has its own digits for its shortest decimal. -/
theorem shortest_whole (hq : 0 < q) (hlt : q < 0x20000000000000)
    (hn : units n = q * unitsPerOne) : shortest n = ⟨q, 0⟩ := by
  have hpos := pos_of_whole hq hn
  have hstart := unitExponent_le_startExponent hq hn
  have hle := unitExponent_le_search hpos hn hstart
  have heq := search_whole hpos hlt hn hstart
  have hsplit := Nat.pow_sub_mul_pow 10 hle
  simp only [Nat.pow_eq] at heq
  rw [← hsplit, ← Nat.mul_assoc] at heq
  have hdigits := Nat.eq_of_mul_eq_mul_right (Nat.pow_pos (by decide)) heq
  rw [shortest, Decimal.scaled, Nat.sub_eq_zero_of_le hle]
  exact congrArg (Decimal.mk · 0) hdigits

end Calculator.Double

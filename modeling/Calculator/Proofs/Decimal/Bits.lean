import Calculator.Decimal.Double
import Mathlib

/-!
# Sign and magnitude of a double

Doubles are computed with in an unpacked form, with a significand and an exponent, and kept as 64
bits.  `Double.magnitude` and `Double.isNegative` look at the bits.  This file connects the two:
`unpacked s m` is the unpacked form of the double with sign `s` and magnitude `m`, unpacking the
bits of a double gives exactly that (`unpack_eq_unpacked`), and packing it again gives the bits
(`toNat_pack_unpacked`).

What follows is that a double is determined by its sign and its magnitude, that it is finite exactly
below `Double.infinity`, that negation changes the sign alone, and that a product of doubles without
sign has no sign either.  None of it needs to know how a product is rounded.
-/

set_option autoImplicit false

namespace Calculator.Double

open Float.Model

/-! ## The parts of 64 bits -/

theorem toNat_append {v w : Nat} (x : BitVec v) (y : BitVec w) :
    (x ++ y).toNat = x.toNat * Nat.pow 2 w + y.toNat := by
  rw [BitVec.toNat_append, ← Nat.shiftLeft_add_eq_or_of_lt y.isLt, Nat.shiftLeft_eq]
  rfl

theorem toNat_packComponents (s : UnpackedFloat.Sign) (e : BitVec 11) (f : BitVec 52) :
    (UnpackedFloat.packComponents Format.binary64 s e f).toNat
      = s.toBitVec.toNat * 0x8000000000000000 + e.toNat * 0x10000000000000 + f.toNat := by
  have h1 : (s.toBitVec ++ e).toNat = s.toBitVec.toNat * 0x800 + e.toNat := toNat_append _ _
  have h2 : (s.toBitVec ++ e ++ f).toNat
      = (s.toBitVec ++ e).toNat * 0x10000000000000 + f.toNat := toNat_append _ _
  rw [UnpackedFloat.packComponents]
  refine h2.trans ?_
  rw [h1]
  omega

section

variable (b : BitVec Format.binary64.numBits)

theorem toNat_unpackMantissa :
    (UnpackedFloat.unpackMantissa b).toNat = b.toNat % 0x10000000000000 := by
  simp [UnpackedFloat.unpackMantissa]

theorem toNat_unpackExponent :
    (UnpackedFloat.unpackExponent b).toNat = b.toNat / 0x10000000000000 % 2048 := by
  simp [UnpackedFloat.unpackExponent, Nat.shiftRight_eq_div_pow]

theorem toNat_unpackSign :
    (UnpackedFloat.unpackSign b).toNat = b.toNat / 0x8000000000000000 := by
  have hb : b.toNat < 0x10000000000000000 := b.isLt
  simp only [UnpackedFloat.unpackSign, BitVec.extractLsb, BitVec.toNat_cast,
    BitVec.extractLsb'_toNat, Nat.shiftRight_eq_div_pow]
  omega

end

/-! ## The unpacked form -/

/-- The unpacked form of the double with this sign and magnitude. -/
def unpacked (s : UnpackedFloat.Sign) (m : Nat) : UnpackedFloat :=
  if infinity < m then .notANumber
  else if m = infinity then .infinity s
  else if h : m = 0 then .zero s
  else if m < 0x10000000000000 then .finite s m (-1074) (Nat.pos_of_ne_zero h)
  else
    .finite s (0x10000000000000 + m % 0x10000000000000) (m / 0x10000000000000 - 1075) (by omega)

theorem finite_congr {s : UnpackedFloat.Sign} {m m' : Nat} {e e' : Int} (hm : m = m')
    (he : e = e') (h : 0 < m) (h' : 0 < m') :
    UnpackedFloat.finite s m e h = .finite s m' e' h' := by
  subst hm he
  rfl

theorem unpack_eq (b : BitVec Format.binary64.numBits) :
    UnpackedFloat.unpack Format.binary64 b
      = unpacked (.ofBitVec (UnpackedFloat.unpackSign b)) (b.toNat % 0x8000000000000000) := by
  have hm := toNat_unpackMantissa b
  have he := toNat_unpackExponent b
  have hb : b.toNat < 0x10000000000000000 := b.isLt
  have hbias : Format.exponentBias Format.binary64 = 1023 := rfl
  have happ : (1#1 ++ UnpackedFloat.unpackMantissa b).toNat
      = 1 * 0x10000000000000 + (UnpackedFloat.unpackMantissa b).toNat := toNat_append _ _
  unfold UnpackedFloat.unpack unpacked
  simp only [← BitVec.toNat_inj, he, hm, hbias, infinity, BitVec.reduceNeg, BitVec.toNat_ofNat,
    Format.binary64, Nat.reduceMod, Nat.reducePow, Nat.zero_mod]
  split
  · split
    · rw [if_neg (by omega), if_pos (by omega)]
    · rw [if_pos (by omega)]
  · split
    · split
      · rw [if_neg (by omega), if_neg (by omega), dif_pos (by omega)]
      · rw [if_neg (by omega), if_neg (by omega), dif_neg (by omega), if_pos (by omega)]
        exact finite_congr (by omega) (by omega) _ _
    · rw [if_neg (by omega), if_neg (by omega), dif_neg (by omega), if_neg (by omega)]
      rw [hm] at happ
      refine finite_congr (happ.trans ?_) ?_ _ _ <;> omega

theorem log2_significand {f : Nat} (h : f < 0x10000000000000) :
    (0x10000000000000 + f).log2 = 52 := by
  refine Nat.le_antisymm ?_ ?_
  · exact Nat.le_of_lt_succ ((Nat.log2_lt (by omega)).mpr (by omega))
  · exact (Nat.le_log2 (by omega)).mpr (by omega)

/-- Packing gives the bits of the sign and of the magnitude. -/
theorem toNat_pack_unpacked (s : UnpackedFloat.Sign) {m : Nat} (h : m ≤ infinity) :
    (UnpackedFloat.pack Format.binary64 (unpacked s m)).toNat
      = s.toBitVec.toNat * 0x8000000000000000 + m := by
  have hbias : Format.exponentBias Format.binary64 = 1023 := rfl
  have hbits : Format.mantissaBits Format.binary64 = 53 := rfl
  have hnan : ¬ infinity < m := Nat.not_lt.mpr h
  rcases Nat.eq_or_lt_of_le h with rfl | hfinite
  · rw [unpacked, if_neg hnan, if_pos rfl]
    refine (toNat_packComponents s _ _).trans ?_
    rw [Nat.add_assoc]
    exact congrArg (s.toBitVec.toNat * 0x8000000000000000 + ·) (by decide)
  · have hinf : m ≠ infinity := Nat.ne_of_lt hfinite
    simp only [infinity] at hfinite
    rcases Nat.eq_zero_or_pos m with rfl | hpos
    · refine (toNat_packComponents s _ _).trans ?_
      rw [Nat.add_assoc]
      exact congrArg (s.toBitVec.toNat * 0x8000000000000000 + ·) (by decide)
    · have hzero : m ≠ 0 := Nat.ne_of_gt hpos
      by_cases hsmall : m < 0x10000000000000
      · have hlog : ¬ m.log2 + 1 = 53 := by
          have hlt : m.log2 < 52 := (Nat.log2_lt hzero).mpr hsmall
          omega
        rw [unpacked, if_neg hnan, if_neg hinf, dif_neg hzero, if_pos hsmall]
        simp only [UnpackedFloat.pack, hbias, hbits, if_neg hlog]
        rw [if_neg (by decide)]
        refine (toNat_packComponents s _ _).trans ?_
        rw [BitVec.toNat_ofNat, BitVec.toNat_ofNat]
        omega
      · have hlog := log2_significand (Nat.mod_lt m (by decide : 0 < 0x10000000000000))
        rw [unpacked, if_neg hnan, if_neg hinf, dif_neg hzero, if_neg hsmall]
        simp only [UnpackedFloat.pack, hbias, hbits, hlog]
        rw [if_neg (by omega), if_pos trivial]
        refine (toNat_packComponents s _ _).trans ?_
        rw [BitVec.toNat_ofNat, BitVec.toNat_ofNat]
        omega

/-! ## Doubles -/

/-- The sign that is set or not. -/
def sign (negative : Bool) : UnpackedFloat.Sign := if negative then .negative else .positive

theorem neg_sign (negative : Bool) : -sign negative = sign (!negative) := by
  cases negative <;> rfl

/-- The double of an unpacked form. -/
def packed (u : UnpackedFloat) : Float := Float.ofModel (Float.Model.pack u)

theorem toNat_bits_packed (u : UnpackedFloat) :
    (packed u).toBits.toNat = (UnpackedFloat.pack Format.binary64 u).toNat := rfl

theorem toNat_sign (negative : Bool) : (sign negative).toBitVec.toNat = negative.toNat := by
  cases negative <;> rfl

theorem magnitude_packed (negative : Bool) {m : Nat} (h : m ≤ infinity) :
    magnitude (packed (unpacked (sign negative) m)) = m := by
  rw [magnitude, toNat_bits_packed, toNat_pack_unpacked _ h, toNat_sign]
  simp only [infinity] at h
  omega

theorem isNegative_packed (negative : Bool) {m : Nat} (h : m ≤ infinity) :
    isNegative (packed (unpacked (sign negative) m)) = negative := by
  rw [isNegative, toNat_bits_packed, toNat_pack_unpacked _ h, toNat_sign]
  simp only [infinity] at h
  cases negative
  · exact decide_eq_false (by rw [Bool.toNat_false]; omega)
  · exact decide_eq_true (by rw [Bool.toNat_true]; omega)

theorem toNat_bits (x : Float) :
    x.toBits.toNat = (isNegative x).toNat * 0x8000000000000000 + magnitude x := by
  have hx : x.toBits.toNat < 0x10000000000000000 := x.toBits.toNat_lt
  rw [magnitude, isNegative]
  by_cases h : 0x8000000000000000 ≤ x.toBits.toNat
  · rw [decide_eq_true h, Bool.toNat_true]
    omega
  · rw [decide_eq_false h, Bool.toNat_false]
    omega

/-- **A double is its sign and its magnitude.** -/
theorem eq_of_magnitude {x y : Float} (hsign : isNegative x = isNegative y)
    (hm : magnitude x = magnitude y) : x = y := by
  rw [← Float.toBits_inj, ← UInt64.toNat_inj, toNat_bits, toNat_bits, hsign, hm]

theorem ofBitVec_unpackSign (b : BitVec Format.binary64.numBits) :
    UnpackedFloat.Sign.ofBitVec (UnpackedFloat.unpackSign b)
      = sign (0x8000000000000000 ≤ b.toNat) := by
  have hs := toNat_unpackSign b
  have hzero : UnpackedFloat.unpackSign b = 0#1 ↔ ¬ 0x8000000000000000 ≤ b.toNat := by
    rw [← BitVec.toNat_inj, hs, BitVec.toNat_ofNat]
    omega
  by_cases h : 0x8000000000000000 ≤ b.toNat
  · rw [UnpackedFloat.Sign.ofBitVec, if_neg (fun h0 ↦ hzero.mp h0 h), decide_eq_true h]
    rfl
  · rw [UnpackedFloat.Sign.ofBitVec, if_pos (hzero.mpr h), decide_eq_false h]
    rfl

/-- **Unpacking a double** gives the form that belongs to its sign and its magnitude. -/
theorem unpack_eq_unpacked (x : Float) :
    x.toModel.unpack = unpacked (sign (isNegative x)) (magnitude x) :=
  (unpack_eq _).trans (congrArg (unpacked · (magnitude x)) (ofBitVec_unpackSign _))

theorem isFinite_unpacked (s : UnpackedFloat.Sign) (m : Nat) :
    (unpacked s m).isFinite = decide (m < infinity) := by
  rw [unpacked]
  split
  · exact (decide_eq_false (by omega)).symm
  · split
    · exact (decide_eq_false (by omega)).symm
    · have hm : m < infinity := by omega
      rw [decide_eq_true hm]
      split
      · rfl
      · split <;> rfl

/-- The finite doubles are those below infinity. -/
theorem isFinite_eq (x : Float) : x.isFinite = decide (magnitude x < infinity) := by
  rw [← isFinite_unpacked (sign (isNegative x)), ← unpack_eq_unpacked]
  rfl

theorem isFinite_iff {x : Float} : x.isFinite = true ↔ magnitude x < infinity := by
  rw [isFinite_eq, decide_eq_true_eq]

/-! ## Without and with a minus -/

theorem ofMagnitude_eq {m : Nat} (h : m ≤ infinity) :
    ofMagnitude m = packed (unpacked (sign false) m) := by
  have hm : (UInt64.ofNat m).toNat = m := by
    simp only [infinity] at h
    rw [UInt64.toNat_ofNat']
    omega
  have hsign : sign (0x8000000000000000 ≤ (UInt64.ofNat m).toNat) = sign false := by
    simp only [infinity] at h
    rw [hm, decide_eq_false (by omega)]
  have hbits : (UInt64.ofNat m).toNat % 0x8000000000000000 = m := by
    simp only [infinity] at h
    omega
  have hunpack := unpack_eq (UInt64.ofNat m).toBitVec
  rw [ofBitVec_unpackSign] at hunpack
  refine congrArg packed (hunpack.trans ?_)
  exact (congrArg (unpacked · _) hsign).trans (congrArg (unpacked (sign false)) hbits)

theorem magnitude_ofMagnitude {m : Nat} (h : m ≤ infinity) : magnitude (ofMagnitude m) = m := by
  rw [ofMagnitude_eq h, magnitude_packed false h]

theorem isNegative_ofMagnitude {m : Nat} (h : m ≤ infinity) :
    isNegative (ofMagnitude m) = false := by
  rw [ofMagnitude_eq h, isNegative_packed false h]

theorem neg_eq {x : Float} (h : magnitude x ≤ infinity) :
    -x = packed (unpacked (sign (!isNegative x)) (magnitude x)) := by
  show packed x.toModel.unpack.neg = _
  rw [unpack_eq_unpacked, ← neg_sign]
  apply congrArg packed
  rw [unpacked, unpacked]
  rw [if_neg (Nat.not_lt.mpr h), if_neg (Nat.not_lt.mpr h)]
  split
  · rfl
  · split
    · rfl
    · split <;> rfl

theorem magnitude_neg {x : Float} (h : magnitude x ≤ infinity) :
    magnitude (-x) = magnitude x := by
  rw [neg_eq h, magnitude_packed _ h]

theorem isNegative_neg {x : Float} (h : magnitude x ≤ infinity) :
    isNegative (-x) = !isNegative x := by
  rw [neg_eq h, isNegative_packed _ h]

/-- The negation of a finite double is finite. -/
theorem isFinite_neg {x : Float} (h : x.isFinite = true) : (-x).isFinite = true := by
  rw [isFinite_iff] at h ⊢
  rwa [magnitude_neg (Nat.le_of_lt h)]

/-- **A double that is a number** is that of its magnitude, or the negation of it. -/
theorem eq_ofMagnitude {x : Float} (h : magnitude x ≤ infinity) :
    x = if isNegative x then -ofMagnitude (magnitude x) else ofMagnitude (magnitude x) := by
  have hm := magnitude_ofMagnitude h
  have hneg := isNegative_ofMagnitude h
  split
  · rename_i hx
    apply eq_of_magnitude
    · rw [isNegative_neg (hm.symm ▸ h), hneg, hx, Bool.not_false]
    · rw [magnitude_neg (hm.symm ▸ h), hm]
  · rename_i hx
    apply eq_of_magnitude
    · rw [hneg, Bool.eq_false_iff.mpr hx]
    · rw [hm]

/-- Every magnitude up to that of infinity comes with both signs. -/
theorem exists_float (negative : Bool) {m : Nat} (h : m ≤ infinity) :
    ∃ x : Float, isNegative x = negative ∧ magnitude x = m := by
  have hm := magnitude_ofMagnitude h
  have hneg := isNegative_ofMagnitude h
  cases negative with
  | false => exact ⟨ofMagnitude m, hneg, hm⟩
  | true =>
    refine ⟨-ofMagnitude m, ?_, ?_⟩
    · rw [isNegative_neg (hm.symm ▸ h), hneg, Bool.not_false]
    · rw [magnitude_neg (hm.symm ▸ h), hm]

theorem magnitude_zero : isNegative 0 = false ∧ magnitude 0 = 0 := by decide +kernel

/-- Negating twice changes nothing. -/
theorem neg_neg (x : Float) : -(-x) = x := by
  rcases Nat.lt_or_ge infinity (magnitude x) with h | h
  · have hunpack : x.toModel.unpack = .notANumber := by
      rw [unpack_eq_unpacked, unpacked, if_pos h]
    have hneg : -x = x := by
      refine (congrArg packed ?_).trans (Float.ofBits_toBits x)
      rw [hunpack]
      exact hunpack.symm
    rw [hneg, hneg]
  · have hm := magnitude_neg h
    apply eq_of_magnitude
    · rw [isNegative_neg (hm.symm ▸ h), isNegative_neg h, Bool.not_not]
    · rw [magnitude_neg (hm.symm ▸ h), hm]

/-! ## Products -/

/-- What is not a number has no minus. -/
def hasMinus : UnpackedFloat → Bool
  | .notANumber => false
  | .infinity s => s == .negative
  | .zero s => s == .negative
  | .finite s _ _ _ => s == .negative

theorem hasMinus_unpacked (m : Nat) : hasMinus (unpacked .positive m) = false := by
  rw [unpacked]
  split
  · rfl
  · split
    · rfl
    · split
      · rfl
      · split <;> rfl

/-- Rounding keeps the sign. -/
theorem hasMinus_round (m : Nat) (e : Int) (a : UnpackedFloat.Accuracy) :
    hasMinus (UnpackedFloat.roundWithAccuracy Format.binary64 .positive m e a) = false := by
  unfold UnpackedFloat.roundWithAccuracy
  dsimp only
  split <;> rfl

theorem eq_positive {s : UnpackedFloat.Sign} (h : (s == .negative) = false) : s = .positive := by
  cases s with
  | negative => cases h
  | positive => rfl

theorem hasMinus_mul {u v : UnpackedFloat} (hu : hasMinus u = false) (hv : hasMinus v = false) :
    hasMinus (UnpackedFloat.mul Format.binary64 u v) = false := by
  cases u with
  | notANumber => rfl
  | infinity s =>
    obtain rfl := eq_positive hu
    cases v with
    | notANumber => rfl
    | infinity t => obtain rfl := eq_positive hv; rfl
    | zero t => rfl
    | finite t m e hm => obtain rfl := eq_positive hv; rfl
  | zero s =>
    obtain rfl := eq_positive hu
    cases v with
    | notANumber => rfl
    | infinity t => rfl
    | zero t => obtain rfl := eq_positive hv; rfl
    | finite t m e hm => obtain rfl := eq_positive hv; rfl
  | finite s m e hm =>
    obtain rfl := eq_positive hu
    cases v with
    | notANumber => rfl
    | infinity t => obtain rfl := eq_positive hv; rfl
    | zero t => obtain rfl := eq_positive hv; rfl
    | finite t m' e' hm' => obtain rfl := eq_positive hv; exact hasMinus_round _ _ _

theorem isNegative_of_hasMinus {u : UnpackedFloat} (h : hasMinus u = false) :
    isNegative (packed u) = false := by
  have hpositive : ∀ (e : BitVec 11) (f : BitVec 52),
      (UnpackedFloat.packComponents Format.binary64 .positive e f).toNat
        < 0x8000000000000000 := by
    intro e f
    have htoNat : UnpackedFloat.Sign.positive.toBitVec.toNat = 0 := rfl
    rw [toNat_packComponents, htoNat]
    omega
  refine decide_eq_false (Nat.not_le.mpr ?_)
  rw [toNat_bits_packed]
  cases u with
  | notANumber => exact hpositive _ _
  | infinity s => obtain rfl := eq_positive h; exact hpositive _ _
  | zero s => obtain rfl := eq_positive h; exact hpositive _ _
  | finite s m e hm =>
    obtain rfl := eq_positive h
    simp only [UnpackedFloat.pack]
    split
    · exact hpositive _ _
    · split <;> exact hpositive _ _

/-- A product of numbers without a minus has none. -/
theorem isNegative_mul {x y : Float} (hx : isNegative x = false) (hy : isNegative y = false) :
    isNegative (x * y) = false := by
  have hu : hasMinus x.toModel.unpack = false := by
    rw [unpack_eq_unpacked, hx]
    exact hasMinus_unpacked _
  have hv : hasMinus y.toModel.unpack = false := by
    rw [unpack_eq_unpacked, hy]
    exact hasMinus_unpacked _
  exact isNegative_of_hasMinus (hasMinus_mul hu hv)

theorem hasMinus_ofNat (n : Nat) : hasMinus (UnpackedFloat.ofNat Format.binary64 n) = false := by
  rw [UnpackedFloat.ofNat, UnpackedFloat.ofInt, UnpackedFloat.normalize]
  split
  · rename_i h
    rw [Int.compare_eq_lt] at h
    omega
  · rfl
  · exact hasMinus_round _ _ _

/-- A whole number has no minus, whichever way it is converted. -/
theorem isNegative_ofNat (n : Nat) : isNegative (Float.ofNat n) = false := by
  show isNegative (Float.ofScientific n false 0) = false
  rw [Float.ofScientific]
  split
  · have hone : isNegative (Float.ofBits 0x3FF0000000000000) = false := by decide +kernel
    exact isNegative_mul (isNegative_of_hasMinus (hasMinus_ofNat _)) hone
  · have hwhole : hasMinus (UnpackedFloat.ofScientific Format.binary64 n 0) = false := by
      rw [UnpackedFloat.ofScientific]
      split
      · rfl
      · split
        · rfl
        · split
          · rfl
          · rw [if_pos (Int.le_refl 0), UnpackedFloat.mul]
            exact hasMinus_round _ _ _
    exact isNegative_of_hasMinus hwhole

theorem isFinite_packed {u : UnpackedFloat} (h : u.isFinite = false) :
    (packed u).isFinite = false := by
  cases u with
  | notANumber => decide
  | infinity s => cases s <;> decide
  | zero s => cases h
  | finite s m e hm => cases h

theorem unpacked_mul_isFinite {u v : UnpackedFloat} (h : u.isFinite = false) :
    (UnpackedFloat.mul Format.binary64 u v).isFinite = false := by
  cases u with
  | notANumber => rfl
  | infinity s => cases v <;> rfl
  | zero s => cases h
  | finite s m e hm => cases h

/-- A product with something that is not finite is not finite. -/
theorem isFinite_mul {x : Float} (h : x.isFinite = false) (y : Float) :
    (x * y).isFinite = false :=
  isFinite_packed (unpacked_mul_isFinite h)

end Calculator.Double

import Mathlib

/-!
# Whole numbers that floating-point numbers hold

A positive whole number below `2 ^ 53` is a floating-point number itself, with a mantissa of 53
bits. What a larger one is rounded to has a larger exponent than all of these, or is no finite
number. So rounding never takes a whole number to another one that is below `2 ^ 53`.
-/

namespace Markup.Number

open Float.Model Float.Model.UnpackedFloat

variable {n m mantissa : Nat} {exponent : Int}

/-! ## Mantissas and exponents -/

/-- Whether a mantissa and an exponent make a whole number. -/
def Makes (mantissa : Nat) (exponent : Int) (n : Nat) : Prop :=
  (n : ℚ) = mantissa * 2 ^ exponent

theorem log2_mul_two_pow (positive : 0 < n) (k : Nat) : (n * 2 ^ k).log2 = n.log2 + k := by
  induction k with
  | zero => simp
  | succ k ih =>
    rw [Nat.log2_eq_log_two, Nat.log2_eq_log_two] at *
    rw [pow_succ, ← mul_assoc, Nat.log_mul_base (by decide) (by positivity), ih, Nat.add_assoc]

theorem log2_add_le (positive : 0 < n) (positive' : 0 < m) : n.log2 + m.log2 ≤ (n * m).log2 := by
  rw [Nat.le_log2 (by positivity), pow_add]
  exact Nat.mul_le_mul (Nat.log2_self_le (by omega)) (Nat.log2_self_le (by omega))

theorem log2_lt (positive : 0 < n) (small : n < 2 ^ 53) : n.log2 < 53 :=
  (Nat.log2_lt (by omega)).mpr small

namespace Makes

theorem mantissa_eq (makes : Makes mantissa exponent n) (small : exponent ≤ 0) :
    mantissa = n * 2 ^ (-exponent).toNat := by
  have value : (n : ℚ) = mantissa * 2 ^ exponent := makes
  have scaled : (mantissa : ℚ) = n * 2 ^ (-exponent).toNat := by
    rw [value, ← zpow_natCast, Int.toNat_of_nonneg (by omega), mul_assoc,
      ← zpow_add₀ (by norm_num)]
    simp
  exact_mod_cast scaled

theorem number_eq (makes : Makes mantissa exponent n) (large : 0 ≤ exponent) :
    n = mantissa * 2 ^ exponent.toNat := by
  have value : (n : ℚ) = mantissa * 2 ^ exponent := makes
  rw [← Int.toNat_of_nonneg large, zpow_natCast] at value
  exact_mod_cast value

theorem log2_eq (makes : Makes mantissa exponent n) (positive : 0 < n) :
    (n.log2 : Int) = mantissa.log2 + exponent := by
  rcases le_total exponent 0 with small | large
  · rw [makes.mantissa_eq small, log2_mul_two_pow positive]
    omega
  · have same := makes.number_eq large
    have positive' : 0 < mantissa := Nat.pos_of_mul_pos_right (same ▸ positive)
    rw [same, log2_mul_two_pow positive']
    omega

theorem mul {mantissa' : Nat} {exponent' : Int} (makes : Makes mantissa exponent n)
    (makes' : Makes mantissa' exponent' m) :
    Makes (mantissa * mantissa') (exponent + exponent') (n * m) := by
  have left : (n : ℚ) = mantissa * 2 ^ exponent := makes
  have right : (m : ℚ) = mantissa' * 2 ^ exponent' := makes'
  rw [Makes, zpow_add₀ (by norm_num)]
  push_cast
  rw [left, right]
  ring

/-- The mantissa of a whole number below `2 ^ 53`, filled up to 53 bits. -/
theorem filled (positive : 0 < n) (small : n < 2 ^ 53) :
    Makes (n * 2 ^ (52 - n.log2)) (n.log2 - 52) n := by
  have bits := log2_lt positive small
  have exponent : (n.log2 : Int) - 52 = -((52 - n.log2 : Nat) : Int) := by omega
  rw [Makes, exponent, zpow_neg, zpow_natCast]
  push_cast
  field_simp

end Makes

/-! ## Rounding -/

/-- A positive whole number below `2 ^ 53` as a floating-point number. -/
def exactly (n : Nat) (positive : 0 < n) : UnpackedFloat :=
  .finite .positive (n * 2 ^ (52 - n.log2)) (n.log2 - 52) (by positivity)

theorem shiftRight_exact (mantissa k : Nat) :
    (⟨mantissa * 2 ^ k, false, false⟩ : ExtendedMantissa) >>> k = ⟨mantissa, false, false⟩ := by
  induction k generalizing mantissa with
  | zero => simp [HShiftRight.hShiftRight, Nat.repeat]
  | succ k ih =>
    change ((⟨mantissa * 2 ^ (k + 1), false, false⟩ : ExtendedMantissa) >>> k).shiftRightOne = _
    rw [pow_succ', ← mul_assoc, ih]
    simp [ExtendedMantissa.shiftRightOne]

theorem shiftToExponent_exact (mantissa k : Nat) (exponent : Int) :
    shiftToExponent (mantissa * 2 ^ k) exponent .exact (exponent + k) =
      ((⟨mantissa, false, false⟩ : ExtendedMantissa), exponent + k) := by
  have amount : (exponent + k - exponent).toNat = k := by omega
  rw [shiftToExponent]
  simp only [amount, ExtendedMantissa.ofMantissaAndAccuracy]
  rw [shiftRight_exact]

theorem targetExponent_eq (normal : -1022 ≤ (mantissa.log2 : Int) + exponent) :
    Format.binary64.targetExponent (totalExponent mantissa exponent) =
      mantissa.log2 + exponent - 52 := by
  simp only [Format.targetExponent, totalExponent, Format.mantissaBits, Format.minExponent]
  norm_num
  omega

/-- A mantissa is shifted to 53 bits without loss if the number has no more. -/
theorem shiftToTargetExponent_small (makes : Makes mantissa exponent n) (positive : 0 < n)
    (small : n < 2 ^ 53) (long : exponent ≤ n.log2 - 52) :
    shiftToTargetExponent .binary64 mantissa exponent .exact =
      ((⟨n * 2 ^ (52 - n.log2), false, false⟩ : ExtendedMantissa), (n.log2 : Int) - 52) := by
  have bits := log2_lt positive small
  have place := makes.log2_eq positive
  obtain ⟨k, further⟩ : ∃ k : Nat, (n.log2 : Int) - 52 = exponent + k :=
    ⟨(n.log2 - 52 - exponent).toNat, by omega⟩
  have split : (-exponent).toNat = 52 - n.log2 + k := by omega
  have target : Format.binary64.targetExponent (totalExponent mantissa exponent) =
      mantissa.log2 + exponent - 52 := targetExponent_eq (by omega)
  rw [shiftToTargetExponent, target, ← place, further, makes.mantissa_eq (by omega), split,
    pow_add, ← mul_assoc]
  exact shiftToExponent_exact _ k exponent

theorem round_small (makes : Makes mantissa exponent n) (positive : 0 < n) (small : n < 2 ^ 53)
    (long : exponent ≤ n.log2 - 52) :
    roundWithAccuracy .binary64 .positive mantissa exponent .exact = exactly n positive := by
  have again := Makes.filled positive small
  have kept (mantissa : Nat) :
      (⟨mantissa, false, false⟩ : ExtendedMantissa).roundedMantissa = mantissa := rfl
  unfold roundWithAccuracy
  rw [shiftToTargetExponent_small makes positive small long]
  dsimp only
  rw [kept, shiftToTargetExponent_small again positive small (by omega)]
  dsimp only
  rw [dif_neg (by positivity)]
  rfl

/-- Shifting never makes an exponent smaller. -/
theorem le_shiftToTargetExponent (mantissa : Nat) (exponent : Int) (accuracy : Accuracy) :
    exponent ≤ (shiftToTargetExponent .binary64 mantissa exponent accuracy).2 := by
  simp only [shiftToTargetExponent, shiftToExponent]
  omega

/-- What a number of more than 53 bits is rounded to has a positive exponent. -/
theorem round_large (makes : Makes mantissa exponent n) (large : 2 ^ 53 ≤ n) {x : UnpackedFloat}
    (rounded : roundWithAccuracy .binary64 .positive mantissa exponent .exact = x) :
    x = .zero .positive ∨ ∃ mantissa exponent positive,
      x = .finite .positive mantissa exponent positive ∧ 0 < exponent := by
  have bits : 53 ≤ n.log2 := (Nat.le_log2 (by omega)).mpr large
  have place := makes.log2_eq (by omega)
  have first : 0 < (shiftToTargetExponent .binary64 mantissa exponent .exact).2 := by
    rw [shiftToTargetExponent, targetExponent_eq (by omega), shiftToExponent]
    dsimp only
    omega
  subst rounded
  unfold roundWithAccuracy
  dsimp only
  split
  · exact .inl rfl
  · next found =>
    exact .inr ⟨_, _, Nat.pos_of_ne_zero found, rfl, first.trans_le (le_shiftToTargetExponent ..)⟩

/-! ## Bits -/

@[simp] theorem unpackSign_packComponents {spec : Format} {sign : Sign}
    {exponent : BitVec spec.exponentBits} {mantissa : BitVec spec.mantissaBitsWithoutImplicit} :
    unpackSign (packComponents spec sign exponent mantissa) = sign.toBitVec := by
  ext i small
  obtain rfl : i = 0 := by omega
  simp [unpackSign, packComponents, BitVec.getLsbD_eq_getElem, BitVec.getLsbD_append,
    BitVec.getElem_append]

@[simp] theorem ofBitVec_toBitVec (sign : Sign) : Sign.ofBitVec sign.toBitVec = sign := by
  cases sign <;> rfl

theorem exponentBias_eq : (Format.binary64.exponentBias : Int) = 1023 := rfl

/-- A normal number is taken apart as it was put together. -/
theorem unpack_pack_normal (sign : Sign) (positive : 0 < mantissa) (length : mantissa.log2 = 52)
    (low : -1075 < exponent) (high : exponent < 972) :
    (Float.Model.pack (.finite sign mantissa exponent positive)).unpack =
      .finite sign mantissa exponent positive := by
  have least : 2 ^ 52 ≤ mantissa := (Nat.le_log2 (by omega)).mp length.ge
  have most : mantissa < 2 ^ 53 := (Nat.log2_lt (by omega)).mp (by omega)
  have biased : (BitVec.ofNat 11 (exponent + 1023 + 52).toNat).toNat =
      (exponent + 1023 + 52).toNat := by
    rw [BitVec.toNat_ofNat]
    omega
  have notTop : BitVec.ofNat 11 (exponent + 1023 + 52).toNat ≠ -1#11 := by
    intro same
    have equal := congrArg BitVec.toNat same
    rw [biased] at equal
    simp at equal
    omega
  have notZero : BitVec.ofNat 11 (exponent + 1023 + 52).toNat ≠ 0#11 := by
    intro same
    have equal := congrArg BitVec.toNat same
    rw [biased] at equal
    simp at equal
    omega
  have whole : (1#1 ++ BitVec.ofNat 52 mantissa).toNat = mantissa := by
    rw [BitVec.toNat_append, ← Nat.shiftLeft_add_eq_or_of_lt (BitVec.isLt _), Nat.shiftLeft_eq]
    simp only [BitVec.toNat_ofNat]
    omega
  unfold Float.Model.unpack Float.Model.pack
  simp only [UnpackedFloat.pack, Format.exponentBias, Format.mantissaBits, length]
  norm_num
  rw [if_neg (by omega)]
  simp only [UnpackedFloat.unpack, unpackExponent_packComponents, unpackMantissa_packComponents,
    unpackSign_packComponents]
  rw [if_neg notTop, if_neg notZero]
  simp only [biased, whole, ofBitVec_toBitVec, exponentBias_eq]
  congr 1
  omega

theorem unpack_pack_exactly (positive : 0 < n) (small : n < 2 ^ 53) :
    (Float.Model.pack (exactly n positive)).unpack = exactly n positive := by
  have bits := log2_lt positive small
  refine unpack_pack_normal _ _ ?_ (by omega) (by omega)
  rw [log2_mul_two_pow positive]
  omega

/-- Whether a floating-point number has an exponent that a positive whole number below `2 ^ 53`
has. -/
def IsNear : UnpackedFloat → Prop
  | .finite _ _ exponent _ => -52 ≤ exponent ∧ exponent ≤ 0
  | _ => False

/-- What is not normal is taken apart with the smallest exponent, if it is a finite number. -/
theorem not_isNear_unpack {sign : Sign} {exponent : BitVec 11} {mantissa : BitVec 52}
    (extreme : exponent = -1#11 ∨ exponent = 0#11) :
    ¬ IsNear (UnpackedFloat.unpack .binary64
      (packComponents .binary64 sign exponent mantissa)) := by
  simp only [UnpackedFloat.unpack, unpackExponent_packComponents, unpackMantissa_packComponents,
    unpackSign_packComponents]
  rcases extreme with rfl | rfl
  · rw [if_pos rfl]
    split <;> exact id
  · rw [if_neg (by decide), if_pos rfl]
    split
    · exact id
    · simp [IsNear, exponentBias_eq]

theorem not_isNear_pack (positive : 0 < mantissa) (sign : Sign) (above : 0 < exponent) :
    ¬ IsNear (Float.Model.pack (.finite sign mantissa exponent positive)).unpack := by
  by_cases normal : mantissa.log2 = 52 ∧ exponent < 972
  · rw [unpack_pack_normal sign positive normal.1 (by omega) normal.2, IsNear]
    omega
  · unfold Float.Model.unpack Float.Model.pack
    simp only [UnpackedFloat.pack, Format.exponentBias, Format.mantissaBits]
    norm_num
    split
    · exact not_isNear_unpack (.inl rfl)
    · rw [if_neg (by omega)]
      exact not_isNear_unpack (.inr rfl)

/-! ## What whole numbers are rounded to -/

/-- Whether a floating-point number is what a positive whole number is rounded to, as far as it can
be told from whole numbers below `2 ^ 53`. -/
structure Approximates (x : UnpackedFloat) (n : Nat) : Prop where
  small : ∀ positive : 0 < n, n < 2 ^ 53 → x = exactly n positive
  large : 2 ^ 53 ≤ n → ¬ IsNear x

theorem approximates_round (makes : Makes mantissa exponent n) (positive : 0 < n)
    (long : exponent ≤ n.log2 - 52) :
    Approximates (Float.Model.pack
      (roundWithAccuracy .binary64 .positive mantissa exponent .exact)).unpack n where
  small _ small := by rw [round_small makes positive small long, unpack_pack_exactly positive small]
  large large := by
    rcases round_large makes large rfl with zero | ⟨_, _, positive', finite, above⟩
    · rw [zero]
      exact id
    · rw [finite]
      exact not_isNear_pack positive' _ above

/-- What a whole number is rounded to is equal to no whole number below `2 ^ 53` but itself. -/
theorem Approximates.beq_iff {x : UnpackedFloat} (approximates : Approximates x n)
    (positive : 0 < n) (positive' : 0 < m) (small : m < 2 ^ 53) :
    x.beq (exactly m positive') = true ↔ n = m := by
  have bits := log2_lt positive' small
  rcases Nat.lt_or_ge n (2 ^ 53) with below | above
  · rw [approximates.small positive below]
    constructor
    · intro same
      simp only [UnpackedFloat.beq, exactly, UnpackedFloat.compare, beq_iff_eq, Option.some.injEq,
        Ordering.then_eq_eq, compare_eq_iff_eq, sub_left_inj, Nat.cast_inj] at same
      obtain ⟨exponents, mantissas⟩ := same
      rw [exponents] at mantissas
      exact Nat.eq_of_mul_eq_mul_right (by positivity) mantissas
    · rintro rfl
      simp [UnpackedFloat.beq, exactly, UnpackedFloat.compare]
  · have apart : n ≠ m := by omega
    have far := approximates.large above
    simp only [apart, iff_false, Bool.not_eq_true]
    cases x with
    | finite sign mantissa exponent positive =>
      cases sign with
      | positive =>
        have other : exponent ≠ m.log2 - 52 := by
          rw [IsNear] at far
          omega
        simp [UnpackedFloat.beq, exactly, UnpackedFloat.compare, other]
      | negative => rfl
    | infinity sign | zero sign => cases sign <;> rfl
    | notANumber => rfl

end Markup.Number

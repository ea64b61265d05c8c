import Mathlib
import Markup.Proofs.Number.Digits

/-!
# Floating-point numbers as counts

What is left of a number without the digits after the point is compared with a whole number below
`2 ^ 53` as the number itself is, because what a number was unpacked to is in canonical form: its
mantissa has 53 bits, unless the exponent is as small as it can be.
-/

namespace Markup.Number

open Float.Model Float.Model.UnpackedFloat

variable {x : Float} {n mantissa : Nat} {exponent : Int}

/-! ## Canonical form -/

/-- Whether a mantissa has 53 bits, or fewer where the exponent is the smallest. -/
def IsCanonical : UnpackedFloat → Prop
  | .finite _ mantissa exponent _ => mantissa < 2 ^ 53 ∧ (2 ^ 52 ≤ mantissa ∨ exponent = -1074)
  | _ => True

theorem isCanonical_unpack (x : Float.Model) : IsCanonical x.unpack := by
  rw [Float.Model.unpack, UnpackedFloat.unpack]
  generalize x.toBits.toBitVec = packed
  have bits : (@unpackMantissa .binary64 packed).toNat < 2 ^ 52 := BitVec.isLt _
  have whole : (1#1 ++ @unpackMantissa .binary64 packed).toNat =
      2 ^ 52 + (@unpackMantissa .binary64 packed).toNat := by
    rw [BitVec.toNat_append, ← Nat.shiftLeft_add_eq_or_of_lt (BitVec.isLt _)]
    rfl
  dsimp only
  split
  · split <;> trivial
  · split
    · next smallest =>
      split
      · trivial
      · refine ⟨by omega, .inr ?_⟩
        rw [smallest, exponentBias_eq]
        rfl
    · exact ⟨by omega, .inl (by omega)⟩

/-! ## What is before the point -/

theorem mantissa_shiftRight (extended : ExtendedMantissa) (k : Nat) :
    (extended >>> k).mantissa = extended.mantissa / 2 ^ k := by
  induction k with
  | zero => exact (Nat.div_one _).symm
  | succ k ih =>
    show (extended >>> k).mantissa / 2 = _
    rw [ih, Nat.div_div_eq_div_mul, pow_succ]

theorem roundToInt_eq (sign : Sign) (mantissa : Nat) (exponent : Int) :
    roundToInt sign mantissa exponent =
      sign.apply (mantissa * 2 ^ exponent.toNat / 2 ^ (-exponent).toNat : Nat) := by
  have left : (exponent - 0).toNat = exponent.toNat := by omega
  have right : (0 - (exponent - (exponent.toNat : Int))).toNat = (-exponent).toNat := by omega
  simp only [roundToInt, decreaseExponent, shiftToExponent, left, right, mantissa_shiftRight,
    ExtendedMantissa.ofMantissaAndAccuracy, Nat.shiftLeft_eq]

/-- The whole number that is left of an unpacked one without the digits after the point, from zero
to the largest of 64 bits. -/
def countOfUnpacked (x : UnpackedFloat) : Nat := min (x.toInt 0 (2 ^ 64 - 1)).toNat (2 ^ 64 - 1)

theorem toNat_toUInt64_eq : x.toUInt64.toNat = countOfUnpacked x.toModel.unpack := by
  rw [countOfUnpacked]
  show (UInt64.ofNatClamp (x.toModel.unpack.toInt 0 (2 ^ 64 - 1)).toNat).toNat = _
  generalize (x.toModel.unpack.toInt 0 (2 ^ 64 - 1)).toNat = whole
  rw [UInt64.ofNatClamp]
  split
  · next small =>
    have small : whole < 2 ^ 64 := small
    rw [UInt64.toNat_ofNatLT]
    omega
  · next large =>
    have large : ¬ whole < 2 ^ 64 := large
    rw [UInt64.toNat_ofNatLT, UInt64.size]
    omega

theorem countOfUnpacked_finite (positive : 0 < mantissa) :
    countOfUnpacked (.finite .positive mantissa exponent positive) =
      min (mantissa * 2 ^ exponent.toNat / 2 ^ (-exponent).toNat) (2 ^ 64 - 1) := by
  rw [countOfUnpacked, UnpackedFloat.toInt, roundToInt_eq]
  rfl

theorem countOfUnpacked_negative (positive : 0 < mantissa) :
    countOfUnpacked (.finite .negative mantissa exponent positive) = 0 := by
  rw [countOfUnpacked, UnpackedFloat.toInt, roundToInt_eq]
  generalize mantissa * 2 ^ exponent.toNat / 2 ^ (-exponent).toNat = whole
  have below : (Sign.negative.apply (whole : Int)).toNat = 0 := by
    simp only [Sign.apply]
    omega
  rw [below]
  rfl

/-! ## Whole numbers as bounds -/

theorem two_pow_le_filled (positive : 0 < n) (small : n < 2 ^ 53) :
    2 ^ 52 ≤ n * 2 ^ (52 - n.log2) := by
  have bits := log2_lt positive small
  calc 2 ^ 52 = 2 ^ n.log2 * 2 ^ (52 - n.log2) := by rw [← pow_add]; congr 1; omega
    _ ≤ n * 2 ^ (52 - n.log2) := Nat.mul_le_mul_right _ (Nat.log2_self_le (by omega))

theorem countOfUnpacked_exactly (positive : 0 < n) (small : n < 2 ^ 53) :
    countOfUnpacked (exactly n positive) = n := by
  have bits := log2_lt positive small
  have left : ((n.log2 : Int) - 52).toNat = 0 := by omega
  have right : (-((n.log2 : Int) - 52)).toNat = 52 - n.log2 := by omega
  rw [exactly, countOfUnpacked_finite, left, right, pow_zero, Nat.mul_one,
    Nat.mul_div_cancel _ (by positivity)]
  omega

/-- Exponents are compared first, and mantissas only if these are the same. -/
theorem le_exactly_iff (positive : 0 < n) (positive' : 0 < mantissa) :
    (UnpackedFloat.finite .positive mantissa exponent positive').le (exactly n positive) = true ↔
      exponent < n.log2 - 52 ∨
        exponent = n.log2 - 52 ∧ mantissa ≤ n * 2 ^ (52 - n.log2) := by
  simp [UnpackedFloat.le, UnpackedFloat.compare, exactly, Ordering.isLE_then_iff_or,
    Std.isLE_compare, compare_lt_iff_lt]

/-- What is at most a whole number counts at most as many. -/
theorem countOfUnpacked_le {x : UnpackedFloat} (canonical : IsCanonical x) (positive : 0 < n)
    (small : n < 2 ^ 53) (le : x.le (exactly n positive) = true) : countOfUnpacked x ≤ n := by
  have bits := log2_lt positive small
  cases x with
  | notANumber => exact absurd le Bool.false_ne_true
  | infinity sign =>
    cases sign with
    | positive => exact absurd le Bool.false_ne_true
    | negative => exact Nat.zero_le n
  | zero sign => exact Nat.zero_le n
  | finite sign mantissa exponent positive' =>
    cases sign with
    | negative => exact (countOfUnpacked_negative positive').trans_le (Nat.zero_le n)
    | positive =>
      have order := (le_exactly_iff positive positive').mp le
      have left : exponent.toNat = 0 := by omega
      rw [countOfUnpacked_finite, left, pow_zero, Nat.mul_one]
      refine (Nat.min_le_left _ _).trans (Nat.div_le_of_le_mul ?_)
      rw [Nat.mul_comm]
      rcases order with below | ⟨same, below⟩
      · have filled := two_pow_le_filled positive small
        calc mantissa ≤ n * 2 ^ (52 - n.log2) * 2 := by
              have short := canonical.1
              omega
          _ = n * 2 ^ (52 - n.log2 + 1) := by rw [pow_succ, Nat.mul_assoc]
          _ ≤ n * 2 ^ (-exponent).toNat :=
            Nat.mul_le_mul_left n (Nat.pow_le_pow_right (by decide) (by omega))
      · have place : (-exponent).toNat = 52 - n.log2 := by omega
        rwa [place]

/-- What is no number up to a whole number counts at least as many, if it is a number at all. -/
theorem le_countOfUnpacked {x : UnpackedFloat} (canonical : IsCanonical x) (positive : 0 < n)
    (small : n < 2 ^ 53) (number : x ≠ .notANumber) (above : x.le (exactly n positive) = false) :
    n ≤ countOfUnpacked x := by
  have bits := log2_lt positive small
  cases x with
  | notANumber => exact absurd rfl number
  | infinity sign =>
    cases sign with
    | positive =>
      have largest : countOfUnpacked (.infinity .positive) = 2 ^ 64 - 1 := rfl
      omega
    | negative => exact absurd above.symm Bool.false_ne_true
  | zero sign => exact absurd above.symm Bool.false_ne_true
  | finite sign mantissa exponent positive' =>
    cases sign with
    | negative => exact absurd above.symm Bool.false_ne_true
    | positive =>
      have order := mt (le_exactly_iff positive positive').mpr (Bool.not_eq_true _ ▸ above)
      rw [not_or, not_and, Int.not_lt] at order
      -- Only the smallest exponent has shorter mantissas, and it is below that of every whole number.
      have normal : 2 ^ 52 ≤ mantissa := by
        refine canonical.2.resolve_right fun smallest => ?_
        omega
      rw [countOfUnpacked_finite]
      refine Nat.le_min.mpr ⟨(Nat.le_div_iff_mul_le (by positivity)).mpr ?_, by omega⟩
      rcases order.1.eq_or_lt with same | beyond
      · have left : exponent.toNat = 0 := by omega
        have place : (-exponent).toNat = 52 - n.log2 := by omega
        rw [left, place, pow_zero, Nat.mul_one]
        exact (Nat.lt_of_not_le (order.2 same.symm)).le
      · have short : n < 2 ^ (n.log2 + 1) := Nat.lt_log2_self
        calc n * 2 ^ (-exponent).toNat ≤ 2 ^ (n.log2 + 1) * 2 ^ (-exponent).toNat :=
              Nat.mul_le_mul_right _ short.le
          _ = 2 ^ (n.log2 + 1 + (-exponent).toNat) := (pow_add ..).symm
          _ ≤ 2 ^ (52 + exponent.toNat) := Nat.pow_le_pow_right (by decide) (by omega)
          _ = 2 ^ 52 * 2 ^ exponent.toNat := pow_add ..
          _ ≤ mantissa * 2 ^ exponent.toNat := Nat.mul_le_mul_right _ normal

/-! ## Zero and the numbers after it -/

/-- A whole number below `2 ^ 53` as a floating-point number. -/
def ofWhole (n : Nat) : UnpackedFloat :=
  if positive : 0 < n then exactly n positive else .zero .positive

theorem ofWhole_eq (positive : 0 < n) : ofWhole n = exactly n positive := dif_pos positive

theorem unpack_pack_ofWhole (small : n < 2 ^ 53) : (Float.Model.pack (ofWhole n)).unpack =
    ofWhole n := by
  rcases Nat.eq_zero_or_pos n with rfl | positive
  · rfl
  · rw [ofWhole_eq positive, unpack_pack_exactly positive small]

theorem unpack_ofNat (small : n < 2 ^ 53) : (Float.ofNat n).toModel.unpack = ofWhole n := by
  rcases Nat.eq_zero_or_pos n with rfl | positive
  · rfl
  · rw [ofWhole_eq positive, (approximates_ofNat positive).small positive small]

/-- A whole number of units in the last place of one is rounded to itself. -/
theorem normalize_eq_ofWhole (small : n < 2 ^ 53) :
    UnpackedFloat.normalize .binary64 ((n * 2 ^ 52 : Nat) : Int) (-52) .positive = ofWhole n := by
  rcases Nat.eq_zero_or_pos n with rfl | positive
  · rfl
  · have bits := log2_lt positive small
    have above : compare ((n * 2 ^ 52 : Nat) : Int) 0 = .gt := by
      rw [compare_gt_iff_gt]
      omega
    have makes : Makes (n * 2 ^ 52) (-52) n := by
      rw [Makes, zpow_neg]
      push_cast
      field_simp
    have target : Format.binary64.targetExponent (totalExponent (n * 2 ^ 52) (-52)) =
        n.log2 - 52 := by
      rw [targetExponent_eq (by rw [log2_mul_two_pow positive]; omega),
        log2_mul_two_pow positive]
      omega
    have none : (-52 - ((n.log2 : Int) - 52)).toNat = 0 := by omega
    rw [UnpackedFloat.normalize, above]
    dsimp only
    rw [UnpackedFloat.round, Int.toNat_natCast, target, decreaseExponent]
    dsimp only
    rw [none, Nat.shiftLeft_zero, Int.natCast_zero, Int.sub_zero, ofWhole_eq positive]
    exact round_small makes positive small (by omega)

/-- A whole number in units of the last place of one. -/
theorem decreaseExponent_exactly (positive : 0 < n) (small : n < 2 ^ 53) :
    (decreaseExponent (n * 2 ^ (52 - n.log2)) (n.log2 - 52) (-52)).1 = n * 2 ^ 52 := by
  have bits := log2_lt positive small
  have shift : ((n.log2 : Int) - 52 - -52).toNat = n.log2 := by omega
  have whole : 52 - n.log2 + n.log2 = 52 := by omega
  rw [decreaseExponent, shift, Nat.shiftLeft_eq, Nat.mul_assoc, ← pow_add, whole]

theorem add_one_ofWhole (small : n + 1 < 2 ^ 53) :
    UnpackedFloat.add .binary64 (ofWhole n) (ofWhole 1) = ofWhole (n + 1) := by
  rcases Nat.eq_zero_or_pos n with rfl | positive
  · rfl
  · have one : (1 : Nat).log2 = 0 := rfl
    have least : min ((n.log2 : Int) - 52) (((1 : Nat).log2 : Int) - 52) = -52 := by omega
    have sum : ((n * 2 ^ 52 : Nat) : Int) + ((1 * 2 ^ 52 : Nat) : Int) =
        (((n + 1) * 2 ^ 52 : Nat) : Int) := by
      push_cast
      ring
    rw [← normalize_eq_ofWhole small, ← sum, ofWhole_eq positive, ofWhole_eq Nat.one_pos]
    simp only [UnpackedFloat.add, exactly, least,
      decreaseExponent_exactly positive (by omega : n < 2 ^ 53),
      decreaseExponent_exactly Nat.one_pos (by decide : 1 < 2 ^ 53), Sign.apply]

theorem sub_one_ofWhole (small : n + 1 < 2 ^ 53) :
    UnpackedFloat.sub .binary64 (ofWhole (n + 1)) (ofWhole 1) = ofWhole n := by
  have one : (1 : Nat).log2 = 0 := rfl
  have least : min (((n + 1).log2 : Int) - 52) (((1 : Nat).log2 : Int) - 52) = -52 := by omega
  have difference : (((n + 1) * 2 ^ 52 : Nat) : Int) - ((1 * 2 ^ 52 : Nat) : Int) =
      ((n * 2 ^ 52 : Nat) : Int) := by
    push_cast
    ring
  rw [← normalize_eq_ofWhole (by omega : n < 2 ^ 53), ← difference, ofWhole_eq n.succ_pos,
    ofWhole_eq Nat.one_pos]
  simp only [UnpackedFloat.sub, exactly, least, decreaseExponent_exactly n.succ_pos small,
    decreaseExponent_exactly Nat.one_pos (by decide : 1 < 2 ^ 53), Sign.apply]

/-! ## Numbers -/

theorem le_iff {y : Float} : x ≤ y ↔ x.toModel.unpack.le y.toModel.unpack = true :=
  decide_eq_true_iff

theorem isNaN_iff : x.isNaN = true ↔ x.toModel.unpack = .notANumber := by
  show x.toModel.unpack.isNaN = true ↔ _
  cases x.toModel.unpack <;> simp [UnpackedFloat.isNaN]

theorem toNat_toUInt64_ofNat (small : n < 2 ^ 53) : (Float.ofNat n).toUInt64.toNat = n := by
  rw [toNat_toUInt64_eq, unpack_ofNat small]
  rcases Nat.eq_zero_or_pos n with rfl | positive
  · rfl
  · rw [ofWhole_eq positive, countOfUnpacked_exactly positive small]

theorem isNaN_ofNat (small : n < 2 ^ 53) : (Float.ofNat n).isNaN = false := by
  rw [← Bool.not_eq_true, isNaN_iff, unpack_ofNat small, ofWhole]
  split <;> rintro ⟨⟩

/-- What is no number, or less than zero, counts nothing. -/
theorem toNat_toUInt64_of_not_le (below : ¬ (0 : Float) ≤ x) : x.toUInt64.toNat = 0 := by
  have zero : (0 : Float).toModel.unpack = .zero .positive := rfl
  rw [le_iff, zero] at below
  rw [toNat_toUInt64_eq]
  cases unpacked : x.toModel.unpack with
  | notANumber => rfl
  | infinity sign =>
    cases sign with
    | positive => exact absurd (unpacked ▸ rfl) below
    | negative => rfl
  | zero sign => rfl
  | finite sign mantissa exponent positive =>
    cases sign with
    | positive => exact absurd (unpacked ▸ rfl) below
    | negative => exact countOfUnpacked_negative positive

theorem toNat_toUInt64_le (small : n < 2 ^ 53) (le : x ≤ Float.ofNat n) :
    x.toUInt64.toNat ≤ n := by
  rw [toNat_toUInt64_eq]
  rw [le_iff, unpack_ofNat small] at le
  rcases Nat.eq_zero_or_pos n with rfl | positive
  · cases unpacked : x.toModel.unpack with
    | finite sign mantissa exponent positive =>
      rw [unpacked] at le
      cases sign with
      | positive => exact absurd le Bool.false_ne_true
      | negative => exact (countOfUnpacked_negative positive).le
    | infinity sign =>
      rw [unpacked] at le
      cases sign with
      | positive => exact absurd le Bool.false_ne_true
      | negative => exact Nat.le_refl 0
    | zero | notANumber => exact Nat.le_refl 0
  · exact countOfUnpacked_le (isCanonical_unpack _) positive small (ofWhole_eq positive ▸ le)

theorem le_toNat_toUInt64 (small : n < 2 ^ 53) (number : x.isNaN = false)
    (above : ¬ x ≤ Float.ofNat n) : n ≤ x.toUInt64.toNat := by
  rcases Nat.eq_zero_or_pos n with rfl | positive
  · exact Nat.zero_le _
  · rw [toNat_toUInt64_eq]
    rw [le_iff, unpack_ofNat small, ofWhole_eq positive, Bool.not_eq_true] at above
    refine le_countOfUnpacked (isCanonical_unpack _) positive small (fun other => ?_) above
    exact Bool.false_ne_true (number.symm.trans (isNaN_iff.mpr other))

/-! ## Numbers less one -/

theorem unpack_ne_notANumber {sign : Sign} {exponent : BitVec 11} {mantissa : BitVec 52}
    (finite : exponent ≠ -1#11) :
    UnpackedFloat.unpack .binary64 (packComponents .binary64 sign exponent mantissa) ≠
      .notANumber := by
  simp only [UnpackedFloat.unpack, unpackExponent_packComponents, unpackMantissa_packComponents,
    if_neg finite]
  split
  · split <;> nofun
  · nofun

/-- What is packed stays a number. -/
theorem unpack_pack_ne_notANumber {x : UnpackedFloat} (number : x ≠ .notANumber) :
    (Float.Model.pack x).unpack ≠ .notANumber := by
  cases x with
  | notANumber => exact absurd rfl number
  | infinity sign => cases sign <;> nofun
  | zero sign => cases sign <;> nofun
  | finite sign mantissa exponent positive =>
    show UnpackedFloat.unpack .binary64 (UnpackedFloat.pack .binary64 _) ≠ _
    simp only [UnpackedFloat.pack]
    split
    · cases sign <;> nofun
    · next inside =>
      split
      · refine unpack_ne_notANumber fun same => ?_
        have equal := congrArg BitVec.toNat same
        have bounded : (exponent + (Format.binary64.exponentBias : Int) + 52).toNat < 2047 := by
          omega
        rw [BitVec.toNat_ofNat, Nat.mod_eq_of_lt (by omega)] at equal
        exact bounded.ne equal
      · exact unpack_ne_notANumber (by decide)

theorem normalize_ne_notANumber (mantissa : Int) (exponent : Int) (sign : Sign) :
    UnpackedFloat.normalize .binary64 mantissa exponent sign ≠ .notANumber := by
  have rounded (sign : Sign) (mantissa : Nat) :
      UnpackedFloat.round .binary64 sign mantissa exponent ≠ .notANumber := by
    simp only [UnpackedFloat.round, roundWithAccuracy]
    split <;> rintro ⟨⟩
  rw [UnpackedFloat.normalize]
  split
  · exact rounded _ _
  · rintro ⟨⟩
  · exact rounded _ _

/-- Less one, a number is a number still, and nothing else becomes one. -/
theorem isNaN_sub_one : (x - 1).isNaN = x.isNaN := by
  have packed : (x - 1).toModel.unpack = (Float.Model.pack
    (UnpackedFloat.sub .binary64 x.toModel.unpack (ofWhole 1))).unpack := rfl
  rw [Bool.eq_iff_iff, isNaN_iff, isNaN_iff, packed]
  cases x.toModel.unpack with
  | notANumber => exact iff_of_true rfl rfl
  | infinity sign | zero sign => exact iff_of_false (unpack_pack_ne_notANumber nofun) nofun
  | finite =>
    exact iff_of_false (unpack_pack_ne_notANumber (normalize_ne_notANumber _ _ _)) nofun

theorem unpack_ofNat_add_one (small : n + 1 < 2 ^ 53) :
    (Float.ofNat n + 1).toModel.unpack = ofWhole (n + 1) := by
  show (Float.Model.pack (UnpackedFloat.add .binary64 (Float.ofNat n).toModel.unpack
    (ofWhole 1))).unpack = _
  rw [unpack_ofNat (by omega), add_one_ofWhole small, unpack_pack_ofWhole small]

theorem isNaN_ofNat_add_one (small : n + 1 < 2 ^ 53) : (Float.ofNat n + 1).isNaN = false := by
  rw [← Bool.not_eq_true, isNaN_iff, unpack_ofNat_add_one small, ofWhole_eq n.succ_pos]
  nofun

/-- One more and one less leave a whole number as it is. -/
theorem toNat_toUInt64_add_sub_one (small : n + 1 < 2 ^ 53) :
    (Float.ofNat n + 1 - 1).toUInt64.toNat = n := by
  have unpacked : (Float.ofNat n + 1 - 1).toModel.unpack = ofWhole n := by
    show (Float.Model.pack (UnpackedFloat.sub .binary64 (Float.ofNat n + 1).toModel.unpack
      (ofWhole 1))).unpack = _
    rw [unpack_ofNat_add_one small, sub_one_ofWhole small, unpack_pack_ofWhole (by omega)]
  rw [toNat_toUInt64_eq, unpacked, ← unpack_ofNat (by omega), ← toNat_toUInt64_eq,
    toNat_toUInt64_ofNat (by omega)]

theorem toNat_toUInt64_of_isNaN (other : x.isNaN = true) : x.toUInt64.toNat = 0 := by
  rw [toNat_toUInt64_eq, isNaN_iff.mp other]
  rfl

end Markup.Number

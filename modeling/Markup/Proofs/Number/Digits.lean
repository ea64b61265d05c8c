import Mathlib
import Markup.Number.Reading
import Markup.Proofs.Number.Exact

/-!
# Whole numbers written with digits

A number is read from its digits with a scale that leaves out the zeros at its end, and rounded
once. As far as whole numbers below `2 ^ 53` can tell, it is the whole number that the digits write.
-/

namespace Markup.Number

open Float.Model Float.Model.UnpackedFloat

variable {n m e : Nat}

/-! ## Scaling by powers of ten -/

theorem unpack_toFloat (positive : 0 < n) (small : n < 2 ^ 53) :
    n.toUInt64.toFloat.toModel.unpack = exactly n positive := by
  have bits := log2_lt positive small
  have value : n.toUInt64.toNat = n := by
    show n % 2 ^ 64 = n
    omega
  have above : compare (n : Int) 0 = .gt := by
    rw [compare_gt_iff_gt]
    omega
  have target : Format.binary64.targetExponent (totalExponent n 0) = n.log2 - 52 := by
    rw [targetExponent_eq (by omega)]
    omega
  have shift : (0 - ((n.log2 : Int) - 52)).toNat = 52 - n.log2 := by omega
  have exponent : (0 : Int) - (52 - n.log2 : Nat) = n.log2 - 52 := by omega
  show (Float.Model.pack (UnpackedFloat.ofUInt64 .binary64 n.toUInt64)).unpack = _
  rw [UnpackedFloat.ofUInt64, UnpackedFloat.ofNat, UnpackedFloat.ofInt, UnpackedFloat.normalize,
    value, above]
  dsimp only
  rw [UnpackedFloat.round, Int.toNat_natCast, target, decreaseExponent]
  dsimp only
  rw [shift, exponent, Nat.shiftLeft_eq]
  exact (approximates_round (.filled positive small) positive (Int.le_refl _)).small positive small

theorem positive_powerOfTen : ∀ e : Fin 23, 0 < 10 ^ e.val * 2 ^ 52 / 2 ^ (10 ^ e.val).log2 := by
  decide

/-- The powers of ten up to the 22nd are floating-point numbers. -/
theorem unpack_powerOfTen (e : Fin Float.exactlyRepresentablePowersOfTen.size) :
    (Float.exactlyRepresentablePowersOfTen[e]).toModel.unpack =
      .finite .positive (10 ^ e.val * 2 ^ 52 / 2 ^ (10 ^ e.val).log2) ((10 ^ e.val).log2 - 52)
        (positive_powerOfTen e) := by
  change Fin 23 at e
  fin_cases e <;> rfl

theorem makes_powerOfTen (e : Fin 23) :
    Makes (10 ^ e.val * 2 ^ 52 / 2 ^ (10 ^ e.val).log2) ((10 ^ e.val).log2 - 52) (10 ^ e.val) := by
  have value : ∀ e : Fin 23, 10 ^ e.val * 2 ^ 52 =
      10 ^ e.val * 2 ^ 52 / 2 ^ (10 ^ e.val).log2 * 2 ^ (10 ^ e.val).log2 := by decide
  rw [Makes, zpow_sub₀ (by norm_num), zpow_natCast, ← mul_div_assoc, eq_div_iff (by norm_num)]
  exact_mod_cast value e

/-- Small numbers are scaled by a product of floating-point numbers, others by one of mantissas. -/
theorem approximates_ofScientific (positive : 0 < m) (bounded : e ≤ 2048) :
    Approximates (Float.ofScientific m false e).toModel.unpack (m * 10 ^ e) := by
  have positive' : 0 < m * 10 ^ e := by positivity
  rw [Float.ofScientific]
  split
  · next quick =>
    have inside : e < 23 := by omega
    have power := unpack_powerOfTen ⟨e, inside⟩
    have makes : Makes _ ((10 ^ e).log2 - 52) (10 ^ e) := makes_powerOfTen ⟨e, inside⟩
    have scaled := (Makes.filled positive quick.1).mul makes
    have further := log2_add_le positive (m := 10 ^ e) (by positivity)
    have bits := log2_lt positive quick.1
    have rounded := approximates_round scaled positive' (by omega)
    show Approximates (Float.Model.pack
      (UnpackedFloat.mul .binary64 m.toUInt64.toFloat.toModel.unpack _)).unpack _
    rw [unpack_toFloat positive quick.1]
    exact power ▸ rounded
  · have scaled : Makes (m <<< 53 * 10 ^ e) (-53 + 0) (m * 10 ^ e) := by
      rw [Makes, Nat.shiftLeft_eq]
      push_cast
      norm_num
      ring
    have rounded := approximates_round scaled positive' (by omega)
    show Approximates (Float.Model.pack
      (UnpackedFloat.ofScientific .binary64 m (e : Int))).unpack _
    rw [UnpackedFloat.ofScientific, dif_neg (by omega), if_neg (by norm_num; omega),
      if_neg (by norm_num; omega), if_pos (by omega)]
    exact rounded

theorem approximates_of_exponent (value : n = m * 10 ^ e) (positive : 0 < n) (bounded : e ≤ 2048)
    {exponent : Int} (same : exponent = e) :
    Approximates (Float.ofScientific m (exponent < 0) exponent.natAbs).toModel.unpack n := by
  subst value same
  have above : decide ((e : Int) < 0) = false := decide_eq_false (by omega)
  rw [above, Int.natAbs_natCast]
  exact approximates_ofScientific (Nat.pos_of_mul_pos_right positive) bounded

theorem approximates_ofNat (positive : 0 < n) : Approximates (Float.ofNat n).toModel.unpack n := by
  have scaled := approximates_ofScientific (e := 0) positive (by decide)
  rwa [pow_zero, Nat.mul_one] at scaled

/-- A number that a whole number was rounded to is a whole number below `2 ^ 53` only if that is the
same. -/
theorem beq_ofNat_iff {x : Float} (approximates : Approximates x.toModel.unpack n)
    (positive : 0 < n) (positive' : 0 < m) (small : m < 2 ^ 53) :
    (x == Float.ofNat m) = true ↔ n = m := by
  rw [← approximates.beq_iff positive positive' small,
    ← (approximates_ofNat positive').small positive' small]
  rfl

/-! ## Digits -/

theorem digitsValue_append (base : Nat) (left right : List Char) :
    Text.digitsValue base (left ++ right) =
      Text.digitsValue base left * base ^ right.length + Text.digitsValue base right := by
  induction right using List.reverseRecOn with
  | nil => simp [Text.digitsValue]
  | append_singleton right c ih =>
    rw [← List.append_assoc]
    simp only [Text.digitsValue, List.foldl_append, List.foldl_cons, List.foldl_nil] at ih ⊢
    rw [← List.foldl_append, List.foldl_append, ih, List.length_append, pow_add]
    simp only [List.length_cons, List.length_nil]
    ring

theorem digitsValue_zeros {zeros : List Char} (all : ∀ c ∈ zeros, (c == '0') = true) :
    Text.digitsValue 10 zeros = 0 := by
  induction zeros with
  | nil => rfl
  | cons c rest ih =>
    obtain ⟨zero, others⟩ := List.forall_mem_cons.mp all
    rw [← List.singleton_append, digitsValue_append, ih others, beq_iff_eq.mp zero]
    simp [Text.digitsValue, Text.digitValue?]

theorem digitsValue_dropWhile (digits : List Char) :
    Text.digitsValue 10 (digits.dropWhile (· == '0')) = Text.digitsValue 10 digits := by
  conv_rhs => rw [← List.takeWhile_append_dropWhile (p := (· == '0')) (l := digits)]
  rw [digitsValue_append, digitsValue_zeros fun _ => List.mem_takeWhile_imp]
  simp

/-- Each zero at the end of a number makes it ten times larger. -/
theorem digitsValue_kept {digits kept : List Char}
    (same : (digits.reverse.dropWhile (· == '0')).reverse = kept) :
    Text.digitsValue 10 digits =
      Text.digitsValue 10 kept * 10 ^ (digits.length - kept.length) := by
  have split : digits = kept ++ (digits.reverse.takeWhile (· == '0')).reverse := by
    rw [← same, ← List.reverse_append, List.takeWhile_append_dropWhile, List.reverse_reverse]
  have zeros : Text.digitsValue 10 (digits.reverse.takeWhile (· == '0')).reverse = 0 :=
    digitsValue_zeros fun _ member =>
      List.mem_takeWhile_imp (p := (· == '0')) (List.mem_reverse.mp member)
  conv_lhs => rw [split, digitsValue_append, zeros]
  have length := congrArg List.length split
  rw [List.length_append] at length
  rw [Nat.add_zero, length]
  simp

/-- A first digit that is not zero tells how large a number is at least. -/
theorem pow_le_digitsValue {first : Char} {rest : List Char} (digit : first.isDigit = true)
    (other : first ≠ '0') : 10 ^ rest.length ≤ Text.digitsValue 10 (first :: rest) := by
  rw [← List.singleton_append, digitsValue_append]
  have least : 1 ≤ Text.digitsValue 10 [first] := by
    have above : '0'.toNat < first.toNat := by
      simp only [Char.isDigit, Bool.and_eq_true, decide_eq_true_eq] at digit
      exact lt_of_le_of_ne (UInt32.le_iff_toNat_le.mp digit.1) fun same =>
        other (Char.toNat_inj.mp same.symm)
    simp only [Text.digitsValue, Text.digitValue?, digit, if_true, List.foldl_cons, List.foldl_nil,
      Option.getD_some]
    omega
  exact (Nat.le_mul_of_pos_left _ least).trans (Nat.le_add_right _ _)

theorem unpack_infinite : infinite.toModel.unpack = .infinity .positive := rfl

/-- Digits are read as the whole number that they write. -/
theorem approximates_ofDigits {digits : List Char} (numeric : digits.all Char.isDigit = true)
    (positive : 0 < Text.digitsValue 10 digits) :
    Approximates (ofDigits false digits []).toModel.unpack (Text.digitsValue 10 digits) := by
  have front := List.head?_dropWhile_not (· == '0') digits
  have numeric' : (digits.dropWhile (· == '0')).all Char.isDigit = true := by
    rw [List.all_eq_true] at numeric ⊢
    exact fun c member => numeric c ((List.dropWhile_sublist _).mem member)
  rw [ofDigits, signed, if_neg (by decide), ofDecimal, List.append_nil]
  dsimp only
  rw [← digitsValue_dropWhile digits] at positive ⊢
  generalize digits.dropWhile (· == '0') = digits at *
  cases digits with
  | nil => exact absurd positive (by decide)
  | cons first rest =>
    have least : 10 ^ rest.length ≤ Text.digitsValue 10 (first :: rest) :=
      pow_le_digitsValue (List.all_eq_true.mp numeric' first (by simp)) (by simpa using front)
    rw [if_neg (by simp; omega)]
    split
    · next long =>
      -- So many digits write a number that is far above `2 ^ 53`.
      have large : 2 ^ 53 ≤ Text.digitsValue 10 (first :: rest) := by
        have power : 10 ^ 53 ≤ 10 ^ rest.length :=
          Nat.pow_le_pow_right (by decide) (by simp at long; omega)
        exact (show 2 ^ 53 ≤ 10 ^ 53 by decide).trans (power.trans least)
      exact ⟨fun _ small => absurd large (Nat.not_le.mpr small), fun _ => unpack_infinite ▸ id⟩
    · next short =>
      generalize same : ((first :: rest).reverse.dropWhile (· == '0')).reverse = kept
      have value := digitsValue_kept same
      have fewer : kept.length ≤ (first :: rest).length := by
        rw [← same, List.length_reverse]
        exact (List.dropWhile_sublist _).length_le.trans_eq List.length_reverse
      rw [List.length_nil] at short ⊢
      refine approximates_of_exponent value positive ?_ ?_ <;> omega

end Markup.Number

/-
# Whole numbers in single precision

Single precision numbers hold the whole numbers below `2 ^ 24` exactly. Sums, products and
negations of whole numbers are exact as long as they stay below that bound, whole numbers compare
as integers do, and decoding them gives the integer back. Zero has two signs, which no comparison
tells apart.

## Main definitions

* `IsWhole`: a single precision number is a whole number below the bound.

## Main results

* `IsWhole.add`, `IsWhole.sub`, `IsWhole.mul`, `IsWhole.neg`: exact arithmetic.
* `IsWhole.lt_iff`, `IsWhole.beq_iff`: comparisons.
* `IsWhole.toInt?_eq`, `IsWhole.of_toInt?`: decoding.
-/

import Mathlib
import UnitCalc.Number.Double

namespace UnitCalc.Number

open Float.Model
open Float.Model.UnpackedFloat (Sign ExtendedMantissa shiftToExponent shiftToTargetExponent
  roundWithAccuracy decreaseExponent)

/-! ## Rounding -/

/-- How far a whole number is moved so that it fills the significand. -/
def room (n : ℕ) : ℕ :=
  23 - n.log2

variable {n k j : ℕ} {e : ℤ}

theorem log2_le (small : n < 2 ^ 24) : n.log2 ≤ 23 := by
  rcases Nat.eq_zero_or_pos n with rfl | positive
  · decide
  · exact Nat.le_of_lt_succ ((Nat.log2_lt positive.ne').2 small)

theorem log2_mul_two_pow (positive : 0 < n) (k : ℕ) : (n * 2 ^ k).log2 = n.log2 + k := by
  have nonzero : n * 2 ^ k ≠ 0 := (Nat.mul_pos positive (Nat.two_pow_pos k)).ne'
  rw [Nat.log2_eq_iff nonzero]
  constructor
  · rw [Nat.pow_add]
    exact Nat.mul_le_mul_right _ (Nat.log2_self_le positive.ne')
  · rw [Nat.add_right_comm, Nat.pow_add]
    exact Nat.mul_lt_mul_of_pos_right Nat.lt_log2_self (Nat.two_pow_pos k)

/-- Digits that are zero are shifted out without a trace. -/
theorem shiftRight_exact (n k : ℕ) :
    (⟨n * 2 ^ k, false, false⟩ : ExtendedMantissa) >>> k = ⟨n, false, false⟩ := by
  show Nat.repeat ExtendedMantissa.shiftRightOne k ⟨n * 2 ^ k, false, false⟩ = _
  induction k generalizing n with
  | zero => rw [Nat.repeat, Nat.pow_zero, Nat.mul_one]
  | succ k ih =>
    have last := ih (n * 2)
    rw [Nat.mul_assoc, ← Nat.pow_succ'] at last
    rw [Nat.repeat, last, ExtendedMantissa.shiftRightOne]
    simp

theorem shiftToExponent_exact (n k : ℕ) (e : ℤ) :
    shiftToExponent (n * 2 ^ k) e .exact (e + k) = (⟨n, false, false⟩, e + k) := by
  have amount : (e + k - e).toNat = k := by omega
  rw [shiftToExponent, amount, ExtendedMantissa.ofMantissaAndAccuracy, shiftRight_exact]

/-- The exponent that the significand of a whole number is filled with. -/
theorem targetExponent_whole (positive : 0 < n) (small : n < 2 ^ 24) (k : ℕ) :
    Format.binary32.targetExponent (totalExponent (n * 2 ^ k) (-k)) = -(room n : ℤ) := by
  have := log2_le small
  simp only [Format.targetExponent, totalExponent, log2_mul_two_pow positive, Format.mantissaBits,
    Format.minExponent, room]
  omega

theorem filled_pos (positive : 0 < n) : 0 < n * 2 ^ room n :=
  Nat.mul_pos positive (Nat.two_pow_pos _)

/-- A whole number with zeros behind it is rounded to itself. -/
theorem roundWithAccuracy_whole (s : Sign) (positive : 0 < n) (small : n < 2 ^ 24)
    (enough : room n ≤ k) :
    roundWithAccuracy .binary32 s (n * 2 ^ k) (-k) .exact =
      .finite s (n * 2 ^ room n) (-(room n : ℤ)) (filled_pos positive) := by
  obtain ⟨j, rfl⟩ := Nat.exists_eq_add_of_le enough
  have first : shiftToTargetExponent .binary32 (n * 2 ^ (room n + j)) (-(room n + j : ℕ)) .exact =
      (⟨n * 2 ^ room n, false, false⟩, -(room n : ℤ)) := by
    have place : -((room n + j : ℕ) : ℤ) + j = -room n := by omega
    rw [shiftToTargetExponent, targetExponent_whole positive small, ← place, Nat.pow_add,
      ← Nat.mul_assoc]
    exact shiftToExponent_exact _ _ _
  have second : shiftToTargetExponent .binary32 (n * 2 ^ room n) (-(room n : ℤ)) .exact =
      (⟨n * 2 ^ room n, false, false⟩, -(room n : ℤ)) := by
    have exact := shiftToExponent_exact (n * 2 ^ room n) 0 (-(room n : ℤ))
    rw [Nat.pow_zero, Nat.mul_one, Nat.cast_zero, Int.add_zero] at exact
    rw [shiftToTargetExponent, targetExponent_whole positive small, exact]
  have nonzero := (filled_pos positive).ne'
  simp only [roundWithAccuracy, first, ExtendedMantissa.roundedMantissa, ExtendedMantissa.accuracy,
    UnpackedFloat.Accuracy.roundToNearestEven, second]
  rw [dif_neg nonzero]

theorem round_whole (s : Sign) (positive : 0 < n) (small : n < 2 ^ 24) (k : ℕ) :
    UnpackedFloat.round .binary32 s (n * 2 ^ k) (-k) =
      .finite s (n * 2 ^ room n) (-(room n : ℤ)) (filled_pos positive) := by
  rw [UnpackedFloat.round, targetExponent_whole positive small, decreaseExponent]
  rcases le_total (room n) k with enough | few
  -- The significand is full already, or it is filled with zeros.
  · have amount : (-(k : ℤ) - -(room n : ℤ)).toNat = 0 := by omega
    rw [amount, Nat.shiftLeft_zero, Nat.cast_zero, Int.sub_zero]
    exact roundWithAccuracy_whole s positive small enough
  · have amount : (-(k : ℤ) - -(room n : ℤ)).toNat = room n - k := by omega
    have exponent : -(k : ℤ) - ((room n - k : ℕ) : ℤ) = -(room n : ℤ) := by omega
    have significand : (n * 2 ^ k) <<< (room n - k) = n * 2 ^ room n := by
      rw [Nat.shiftLeft_eq, Nat.mul_assoc, ← Nat.pow_add, Nat.add_sub_cancel' few]
    rw [amount, exponent, significand]
    exact roundWithAccuracy_whole s positive small (Nat.le_refl _)

theorem round_zero (s : Sign) (e : ℤ) :
    UnpackedFloat.round .binary32 s 0 e = .zero s := by
  have shifted (e e' : ℤ) : (shiftToExponent 0 e .exact e').1 = ⟨0, false, false⟩ := by
    have exact := shiftRight_exact 0 (e' - e).toNat
    rw [Nat.zero_mul] at exact
    rw [shiftToExponent, ExtendedMantissa.ofMantissaAndAccuracy, exact]
  simp [UnpackedFloat.round, decreaseExponent, roundWithAccuracy, shiftToTargetExponent, shifted,
    ExtendedMantissa.roundedMantissa, ExtendedMantissa.accuracy,
    UnpackedFloat.Accuracy.roundToNearestEven]

/-! ## Whole numbers -/

/-- A number is whole: a zero of either sign, or a whole number that fills the significand. -/
inductive Holds : UnpackedFloat → ℤ → Prop
  | zero (s : Sign) : Holds (.zero s) 0
  | finite (s : Sign) {n : ℕ} (positive : 0 < n) (small : n < 2 ^ 24) :
      Holds (.finite s (n * 2 ^ room n) (-(room n : ℤ)) (filled_pos positive)) (s.apply n)

variable {u v : UnpackedFloat} {a b c : ℤ}

theorem apply_mul (s : Sign) (a b : ℤ) : s.apply (a * b) = s.apply a * b := by
  cases s
  · exact (neg_mul a b).symm
  · rfl

theorem natAbs_apply (s : Sign) (n : ℕ) : (s.apply n).natAbs = n := by
  cases s
  · exact Int.natAbs_neg n
  · rfl

theorem neg_apply (s : Sign) (a : ℤ) : (-s).apply a = -s.apply a := by
  cases s
  · exact (neg_neg a).symm
  · rfl

theorem mul_apply (s t : Sign) (a b : ℤ) : (s * t).apply (a * b) = s.apply a * t.apply b := by
  cases s <;> cases t
  · exact (neg_mul_neg a b).symm
  · exact (neg_mul a b).symm
  · exact (mul_neg a b).symm
  · rfl

theorem Holds.natAbs_lt (holds : Holds u a) : a.natAbs < 2 ^ 24 := by
  cases holds with
  | zero => decide
  | finite s _ small => rwa [natAbs_apply]

/-- Only zero is whole in two ways. -/
theorem Holds.unique (left : Holds u a) (right : Holds v a) (nonzero : a ≠ 0) : u = v := by
  cases left with
  | zero => exact absurd rfl nonzero
  | @finite s m positive small =>
    generalize same : s.apply (m : ℤ) = b at right
    cases right with
    | zero t =>
      have size := natAbs_apply s m
      rw [same] at size
      exact absurd size positive.ne
    | @finite t n positive' small' =>
      obtain rfl : m = n := by
        rw [← natAbs_apply s m, same, natAbs_apply]
      cases s <;> cases t <;> first | rfl | (simp only [Sign.apply] at same; omega)

/-- A whole number with zeros behind it is normalized to itself. -/
theorem normalize_whole (small : c.natAbs < 2 ^ 24) (k : ℕ) :
    Holds (UnpackedFloat.normalize .binary32 (c * 2 ^ k) (-k) .positive) c := by
  have power : (0 : ℤ) < 2 ^ k := by positivity
  rw [UnpackedFloat.normalize]
  rcases lt_trichotomy c 0 with negative | rfl | positive
  · obtain ⟨n, rfl⟩ : ∃ n : ℕ, c = -n := ⟨c.natAbs, by omega⟩
    have below : -(n : ℤ) * 2 ^ k < 0 := mul_neg_of_neg_of_pos negative power
    have digits : (-(-(n : ℤ) * 2 ^ k)).toNat = n * 2 ^ k := by
      rw [neg_mul, neg_neg]
      exact_mod_cast Int.toNat_natCast (n * 2 ^ k)
    rw [compare_lt_iff_lt.2 below]
    show Holds (UnpackedFloat.round .binary32 .negative (-(-(n : ℤ) * 2 ^ k)).toNat (-k)) (-n)
    rw [digits, round_whole .negative (by omega) (by omega)]
    exact .finite .negative (by omega) (by omega)
  · rw [zero_mul]
    exact .zero .positive
  · obtain ⟨n, rfl⟩ : ∃ n : ℕ, c = n := ⟨c.natAbs, by omega⟩
    have above : (n : ℤ) * 2 ^ k > 0 := mul_pos positive power
    have digits : ((n : ℤ) * 2 ^ k).toNat = n * 2 ^ k := by
      exact_mod_cast Int.toNat_natCast (n * 2 ^ k)
    rw [compare_gt_iff_gt.2 above]
    show Holds (UnpackedFloat.round .binary32 .positive ((n : ℤ) * 2 ^ k).toNat (-k)) n
    rw [digits, round_whole .positive (by omega) (by omega)]
    exact .finite .positive (by omega) (by omega)

/-- The sign of a whole number is turned around. -/
theorem Holds.neg (holds : Holds u a) : Holds u.neg (-a) := by
  cases holds with
  | zero s => exact .zero (-s)
  | finite s positive small =>
    rw [← neg_apply]
    exact .finite (-s) positive small

/-- Sums below the bound are exact. -/
theorem Holds.add (left : Holds u a) (right : Holds v b) (small : (a + b).natAbs < 2 ^ 24) :
    Holds (UnpackedFloat.add .binary32 u v) (a + b) := by
  cases left with
  | zero s =>
    rw [zero_add]
    cases right with
    | zero t => cases s <;> cases t <;> exact .zero _
    | finite t positive small' => exact .finite t positive small'
  | @finite s m positive small' =>
    cases right with
    | zero t =>
      rw [add_zero]
      exact .finite s positive small'
    | @finite t n positive' small'' =>
      -- Both significands are brought to the smaller one of the two exponents.
      have least : min (-(room m : ℤ)) (-(room n : ℤ)) = -((max (room m) (room n) : ℕ) : ℤ) := by
        omega
      have moved (l : ℕ) (le : room l ≤ max (room m) (room n)) :
          decreaseExponent (l * 2 ^ room l) (-(room l : ℤ)) (-((max (room m) (room n) : ℕ) : ℤ)) =
            (l * 2 ^ max (room m) (room n), -((max (room m) (room n) : ℕ) : ℤ)) := by
        have amount : (-(room l : ℤ) - -((max (room m) (room n) : ℕ) : ℤ)).toNat =
            max (room m) (room n) - room l := by omega
        rw [decreaseExponent, amount, Nat.shiftLeft_eq, Nat.mul_assoc, ← Nat.pow_add,
          Nat.add_sub_cancel' le]
        congr 1
        omega
      simp only [UnpackedFloat.add, least, moved m (le_max_left _ _), moved n (le_max_right _ _)]
      push_cast [apply_mul]
      rw [← add_mul]
      exact_mod_cast normalize_whole small _

/-- Differences below the bound are exact. -/
theorem Holds.sub (left : Holds u a) (right : Holds v b) (small : (a - b).natAbs < 2 ^ 24) :
    Holds (UnpackedFloat.sub .binary32 u v) (a - b) := by
  have same : UnpackedFloat.sub .binary32 u v = UnpackedFloat.add .binary32 u v.neg := by
    cases u <;> cases v <;>
      grind [UnpackedFloat.sub, UnpackedFloat.add, UnpackedFloat.neg, neg_apply]
  rw [same, sub_eq_add_neg]
  exact left.add right.neg (by rwa [← sub_eq_add_neg])

/-- Products below the bound are exact. -/
theorem Holds.mul (left : Holds u a) (right : Holds v b) (small : (a * b).natAbs < 2 ^ 24) :
    Holds (UnpackedFloat.mul .binary32 u v) (a * b) := by
  cases left with
  | zero s =>
    rw [zero_mul]
    cases right <;> exact .zero _
  | @finite s m positive small' =>
    cases right with
    | zero t =>
      rw [mul_zero]
      exact .zero _
    | @finite t n positive' small'' =>
      have signs : s.apply m * t.apply n = (s * t).apply (m * n : ℕ) := by
        rw [Nat.cast_mul, mul_apply]
      have below : m * n < 2 ^ 24 := by
        rwa [signs, natAbs_apply] at small
      have least : m.log2 + n.log2 ≤ (m * n).log2 := by
        rw [Nat.le_log2 (Nat.mul_pos positive positive').ne', Nat.pow_add]
        exact Nat.mul_le_mul (Nat.log2_self_le positive.ne') (Nat.log2_self_le positive'.ne')
      have enough : room (m * n) ≤ room m + room n := by
        unfold room
        omega
      have digits : m * 2 ^ room m * (n * 2 ^ room n) = m * n * 2 ^ (room m + room n) := by
        rw [Nat.pow_add]
        ring
      have exponent : -(room m : ℤ) + -(room n : ℤ) = -((room m + room n : ℕ) : ℤ) := by
        omega
      rw [UnpackedFloat.mul, digits, exponent,
        roundWithAccuracy_whole _ (Nat.mul_pos positive positive') below enough, signs]
      exact .finite _ (Nat.mul_pos positive positive') below

/-- Whole numbers compare as integers. -/
theorem Holds.compare_eq (left : Holds u a) (right : Holds v b) :
    u.compare v = some (compare a b) := by
  have filled {m n : ℕ} (positive : 0 < m) (positive' : 0 < n) (small : m < 2 ^ 24)
      (small' : n < 2 ^ 24) :
      (compare (-(room m : ℤ)) (-(room n : ℤ))).then
        (compare (m * 2 ^ room m) (n * 2 ^ room n)) = compare m n := by
    have bound := log2_le small
    have bound' := log2_le small'
    rcases lt_trichotomy m.log2 n.log2 with less | same | more
    · have below : m < n := lt_of_lt_of_le Nat.lt_log2_self
        (le_trans (Nat.pow_le_pow_right (by decide) less) (Nat.log2_self_le positive'.ne'))
      have exponents : -(room m : ℤ) < -(room n : ℤ) := by unfold room; omega
      rw [compare_lt_iff_lt.2 exponents, compare_lt_iff_lt.2 below]
      rfl
    · have exponents : room m = room n := by rw [room, same, room]
      rw [exponents, compare_eq_iff_eq.2 rfl]
      show compare (m * 2 ^ room n) (n * 2 ^ room n) = compare m n
      have power : 0 < 2 ^ room n := Nat.two_pow_pos _
      rcases lt_trichotomy m n with less | rfl | more
      · rw [compare_lt_iff_lt.2 less, compare_lt_iff_lt.2 (Nat.mul_lt_mul_of_pos_right less power)]
      · rw [compare_eq_iff_eq.2 rfl, compare_eq_iff_eq.2 rfl]
      · rw [compare_gt_iff_gt.2 more, compare_gt_iff_gt.2 (Nat.mul_lt_mul_of_pos_right more power)]
    · have above : n < m := lt_of_lt_of_le Nat.lt_log2_self
        (le_trans (Nat.pow_le_pow_right (by decide) more) (Nat.log2_self_le positive.ne'))
      have exponents : -(room n : ℤ) < -(room m : ℤ) := by unfold room; omega
      rw [compare_gt_iff_gt.2 exponents, compare_gt_iff_gt.2 above]
      rfl
  cases left with
  | zero s =>
    cases right with
    | zero t => rfl
    | @finite t n positive small =>
      cases t
      · exact congrArg some (compare_gt_iff_gt.2 (show -(n : ℤ) < 0 by omega)).symm
      · exact congrArg some (compare_lt_iff_lt.2 (show (0 : ℤ) < n by omega)).symm
  | @finite s m positive small =>
    cases right with
    | zero t =>
      cases s
      · exact congrArg some (compare_lt_iff_lt.2 (show -(m : ℤ) < 0 by omega)).symm
      · exact congrArg some (compare_gt_iff_gt.2 (show (0 : ℤ) < m by omega)).symm
    | @finite t n positive' small' =>
      cases s <;> cases t
      · show some (Ordering.swap _) = some (compare (-(m : ℤ)) (-(n : ℤ)))
        rw [filled positive positive' small small']
        rcases lt_trichotomy m n with less | rfl | more
        · rw [compare_lt_iff_lt.2 less, compare_gt_iff_gt.2 (show -(m : ℤ) > -(n : ℤ) by omega)]
          rfl
        · rw [compare_eq_iff_eq.2 rfl, compare_eq_iff_eq.2 rfl]
          rfl
        · rw [compare_gt_iff_gt.2 more, compare_lt_iff_lt.2 (show -(m : ℤ) < -(n : ℤ) by omega)]
          rfl
      · exact congrArg some (compare_lt_iff_lt.2 (show -(m : ℤ) < n by omega)).symm
      · exact congrArg some (compare_gt_iff_gt.2 (show -(n : ℤ) < m by omega)).symm
      · show some _ = some (compare (m : ℤ) (n : ℤ))
        rw [filled positive positive' small small']
        rcases lt_trichotomy m n with less | rfl | more
        · rw [compare_lt_iff_lt.2 less, compare_lt_iff_lt.2 (show (m : ℤ) < n by omega)]
        · rw [compare_eq_iff_eq.2 rfl, compare_eq_iff_eq.2 rfl]
        · rw [compare_gt_iff_gt.2 more, compare_gt_iff_gt.2 (show (m : ℤ) > n by omega)]

/-! ## Bits -/

theorem unpackSign_packComponents (s : Sign) (e : BitVec 8) (m : BitVec 23) :
    Sign.ofBitVec (UnpackedFloat.unpackSign (UnpackedFloat.packComponents .binary32 s e m)) = s := by
  simp only [UnpackedFloat.unpackSign, UnpackedFloat.packComponents, BitVec.extractLsb]
  rw [BitVec.extractLsb'_append_eq_of_le (by omega), BitVec.extractLsb'_append_eq_of_le (by omega)]
  cases s <;> rfl

/-- The bit that is not stored is put in front of the others. -/
theorem toNat_append_mantissa (m : BitVec 23) : (1#1 ++ m).toNat = 2 ^ 23 + m.toNat := by
  rw [BitVec.toNat_append, ← Nat.shiftLeft_add_eq_or_of_lt m.isLt]
  rfl

/-- Whole numbers are packed without loss. -/
theorem Holds.unpack_pack (holds : Holds u a) :
    UnpackedFloat.unpack .binary32 (UnpackedFloat.pack .binary32 u) = u := by
  cases holds with
  | zero s => cases s <;> rfl
  | @finite s n positive small =>
    have bound := log2_le small
    have log : (n * 2 ^ room n).log2 = 23 := by
      rw [log2_mul_two_pow positive, room]
      omega
    have low : 2 ^ 23 ≤ n * 2 ^ room n := by
      rw [← log]
      exact Nat.log2_self_le (filled_pos positive).ne'
    have high : n * 2 ^ room n < 2 ^ 24 := by
      have := Nat.lt_log2_self (n := n * 2 ^ room n)
      rwa [log] at this
    have place : room n ≤ 23 := Nat.sub_le _ _
    have biased : (-(room n : ℤ) + Format.binary32.exponentBias +
        Format.binary32.mantissaBitsWithoutImplicit).toNat = 150 - room n := by
      show (-(room n : ℤ) + (2 ^ (8 - 1) - 1 : ℕ) + (23 : ℕ)).toNat = _
      omega
    have stored : (BitVec.ofNat 8 (150 - room n)).toNat = 150 - room n := by
      rw [BitVec.toNat_ofNat, Nat.mod_eq_of_lt (by omega)]
    have notTop : BitVec.ofNat 8 (150 - room n) ≠ -1#8 := by
      intro top
      have := congrArg BitVec.toNat top
      rw [stored] at this
      revert this
      simp
      omega
    have notBottom : BitVec.ofNat 8 (150 - room n) ≠ 0#8 := by
      intro bottom
      have := congrArg BitVec.toNat bottom
      rw [stored, BitVec.toNat_ofNat] at this
      omega
    have significand : (1#1 ++ BitVec.ofNat 23 (n * 2 ^ room n)).toNat = n * 2 ^ room n := by
      rw [toNat_append_mantissa, BitVec.toNat_ofNat]
      omega
    simp only [UnpackedFloat.pack, log, biased]
    rw [if_neg (by omega), if_pos (by rfl)]
    simp only [UnpackedFloat.unpack, UnpackedFloat.unpackMantissa_packComponents,
      UnpackedFloat.unpackExponent_packComponents, unpackSign_packComponents]
    rw [if_neg notTop, if_neg notBottom, UnpackedFloat.finite.injEq]
    refine ⟨rfl, significand, ?_⟩
    rw [stored]
    show ((150 - room n : ℕ) : ℤ) - ((2 ^ (8 - 1) - 1 : ℕ) + (23 : ℕ)) = _
    omega

/-- Decoding the bits of a number gives its sign, its significand and its exponent. -/
def decoded : UnpackedFloat → Decoded
  | .notANumber => .nan
  | .infinity s => .infinite (s == .negative)
  | .zero s => .finite ⟨s == .negative, 0, single.minExponent⟩
  | .finite s m e _ => .finite ⟨s == .negative, m, e⟩

theorem decode_eq (b : BitVec 32) :
    single.decode b.toNat = decoded (UnpackedFloat.unpack .binary32 b) := by
  have fraction : (@UnpackedFloat.unpackMantissa .binary32 b).toNat = b.toNat % 2 ^ 23 := by
    simp [UnpackedFloat.unpackMantissa]
  have exponent : (@UnpackedFloat.unpackExponent .binary32 b).toNat =
      b.toNat / 2 ^ 23 % 2 ^ 8 := by
    simp [UnpackedFloat.unpackExponent, Nat.shiftRight_eq_div_pow]
  have sign : (Sign.ofBitVec (@UnpackedFloat.unpackSign .binary32 b) == .negative) =
      (b.toNat / 2 ^ 23 / 2 ^ 8 % 2 == 1) := by
    have bit : (@UnpackedFloat.unpackSign .binary32 b).toNat =
        b.toNat / 2 ^ 23 / 2 ^ 8 % 2 := by
      simp [UnpackedFloat.unpackSign, Nat.shiftRight_eq_div_pow, Nat.div_div_eq_div_mul]
    rw [← bit]
    generalize @UnpackedFloat.unpackSign .binary32 b = v
    revert v
    decide
  have top : @UnpackedFloat.unpackExponent .binary32 b = -1#8 ↔
      b.toNat / 2 ^ 23 % 2 ^ 8 = 255 := by
    rw [← exponent, ← BitVec.toNat_inj]
    rfl
  have bottom : @UnpackedFloat.unpackExponent .binary32 b = 0#8 ↔
      b.toNat / 2 ^ 23 % 2 ^ 8 = 0 := by
    rw [← exponent, ← BitVec.toNat_inj]
    rfl
  have empty : @UnpackedFloat.unpackMantissa .binary32 b = 0#23 ↔
      b.toNat % 2 ^ 23 = 0 := by
    rw [← fraction, ← BitVec.toNat_inj]
    rfl
  rw [BinaryFormat.decode, UnpackedFloat.unpack]
  simp only [single, top, bottom, empty, Nat.pow_eq, beq_iff_eq]
  by_cases isTop : b.toNat / 2 ^ 23 % 2 ^ 8 = 255
  · rw [if_pos (by rw [isTop]), if_pos isTop]
    split_ifs
    · rw [decoded, sign]
    · rfl
  · rw [if_neg (by omega), if_neg isTop]
    split_ifs with isBottom isEmpty
    · rw [decoded, sign, isEmpty]
      rfl
    · rw [decoded, sign, fraction, exponent, isBottom]
      rfl
    · have bias : (Format.binary32.exponentBias : ℤ) + ((23 : ℕ) : ℤ) = 150 := rfl
      rw [decoded, sign, toNat_append_mantissa, fraction, exponent, bias]
      congr 2
      omega

/-- A whole number is decoded to the integer it is. -/
theorem Holds.toInt?_decoded (holds : Holds u a) :
    (match decoded u with
      | .finite b => b.toInt?
      | _ => none) = some a := by
  cases holds with
  | zero s => cases s <;> rfl
  | @finite s n positive small =>
    have value : (if (s == .negative) = true then -(n : ℤ) else n) = s.apply n := by
      cases s <;> rfl
    show (⟨s == .negative, n * 2 ^ room n, -(room n : ℤ)⟩ : Binary).toInt? = _
    rw [← value, Binary.toInt?, Binary.magnitude]
    rcases Nat.eq_zero_or_pos (room n) with full | short
    · simp [full, Nat.mod_one]
    · have negative : -(room n : ℤ) < 0 := by omega
      have amount : (- -(room n : ℤ)).toNat = room n := by omega
      have power : Nat.pow 2 (room n) = 2 ^ room n := rfl
      have quotient : ((n * 2 ^ room n : ℕ) : ℤ) / ((2 ^ room n : ℕ) : ℤ) = n := by
        rw [Nat.cast_mul]
        exact Int.mul_ediv_cancel _ (by positivity)
      simp only [negative, if_true, amount, power, Nat.mul_mod_left, beq_self_eq_true, quotient]

/-- A number of the format that is decoded to an integer below the bound is whole. -/
theorem Holds.of_toInt? {s : Sign} {m : ℕ} (positive : 0 < m) (fits : m < 2 ^ 24)
    (shape : 2 ^ 23 ≤ m ∨ e = -149)
    (value : (⟨s == .negative, m, e⟩ : Binary).toInt? = some a) (small : a.natAbs < 2 ^ 24) :
    Holds (.finite s m e positive) a := by
  have signed (n : ℕ) : (if (s == .negative) = true then -(n : ℤ) else n) = s.apply n := by
    cases s <;> rfl
  have full : 2 ^ 23 ≤ m → m.log2 = 23 := fun normal =>
    (Nat.log2_eq_iff positive.ne').2 ⟨normal, fits⟩
  rw [Binary.toInt?, Binary.magnitude] at value
  rcases lt_or_ge e 0 with negative | nonnegative
  -- The digits behind the point are zeros.
  · obtain ⟨k, rfl⟩ : ∃ k : ℕ, e = -k := ⟨e.natAbs, by omega⟩
    have amount : (- -(k : ℤ)).toNat = k := by omega
    have power : Nat.pow 2 k = 2 ^ k := rfl
    simp only [negative, if_true, amount, power, beq_iff_eq] at value
    split at value
    · next whole =>
      obtain ⟨n, rfl⟩ := Nat.dvd_of_mod_eq_zero whole
      have units : 0 < n := Nat.pos_of_mul_pos_left positive
      have power : (0 : ℤ) < (2 ^ k : ℕ) := by positivity
      rw [Nat.cast_mul, Int.mul_ediv_cancel_left _ power.ne', signed, Option.some.injEq] at value
      subst value
      rw [natAbs_apply] at small
      have normal : 2 ^ 23 ≤ 2 ^ k * n := by
        refine shape.resolve_right fun subnormal => ?_
        obtain rfl : k = 149 := by omega
        omega
      have digits : n.log2 + k = 23 := by
        rw [← log2_mul_two_pow units, Nat.mul_comm, full normal]
      obtain rfl : k = room n := by
        unfold room
        omega
      have holds := Holds.finite s units small
      simpa only [Nat.mul_comm] using holds
    · cases value
  -- Digits in front of the point are not made up, so there is none.
  · have normal : 2 ^ 23 ≤ m := shape.resolve_right (by omega)
    have amount : ¬ e < 0 := not_lt.2 nonnegative
    have power : Nat.pow 2 e.toNat = 2 ^ e.toNat := rfl
    simp only [amount, if_false, power, Nat.mod_one, beq_self_eq_true, if_true, Nat.cast_one,
      Int.ediv_one, signed, Option.some.injEq] at value
    subst value
    rw [natAbs_apply] at small
    obtain rfl : e = 0 := by
      by_contra moved
      have twice : 2 ^ 1 ≤ 2 ^ e.toNat := Nat.pow_le_pow_right (by decide) (by omega)
      have := Nat.mul_le_mul normal twice
      omega
    have filled : room m = 0 := by rw [room, full normal]
    have holds := Holds.finite s positive fits
    simpa [filled] using holds

/-- Unpacked significands are full, or the exponent is the least one. -/
theorem unpack_shape {b : BitVec 32} {s : Sign} {m : ℕ} {positive : 0 < m}
    (unpacked : UnpackedFloat.unpack .binary32 b = .finite s m e positive) :
    m < 2 ^ 24 ∧ (2 ^ 23 ≤ m ∨ e = -149) := by
  have stored : (@UnpackedFloat.unpackMantissa .binary32 b).toNat < 2 ^ 23 :=
    (@UnpackedFloat.unpackMantissa .binary32 b).isLt
  rw [UnpackedFloat.unpack] at unpacked
  split_ifs at unpacked with _ _ bottom
  · cases unpacked
    rw [bottom]
    exact ⟨by omega, .inr rfl⟩
  · simp only [UnpackedFloat.finite.injEq, toNat_append_mantissa] at unpacked
    omega

theorem Holds.of_decoded {b : BitVec 32}
    (value : (match decoded (UnpackedFloat.unpack .binary32 b) with
      | .finite c => c.toInt?
      | _ => none) = some a) (small : a.natAbs < 2 ^ 24) :
    Holds (UnpackedFloat.unpack .binary32 b) a := by
  cases unpacked : UnpackedFloat.unpack .binary32 b with
  | notANumber | infinity s =>
    rw [unpacked] at value
    cases value
  | zero s =>
    rw [unpacked] at value
    obtain rfl : a = 0 := by cases s <;> exact (Option.some.inj value).symm
    exact .zero s
  | finite s m e positive =>
    obtain ⟨fits, shape⟩ := unpack_shape unpacked
    rw [unpacked] at value
    exact .of_toInt? positive fits shape value small

/-! ## Single precision numbers -/

/-- A single precision number is a whole number below `2 ^ 24` in magnitude. -/
def IsWhole (x : Float32) (a : ℤ) : Prop :=
  Holds x.toModel.unpack a

namespace IsWhole

variable {x y : Float32}

theorem of_holds (holds : Holds u a) : IsWhole (.ofModel (.pack u)) a := by
  have same : (Float32.Model.pack u).unpack = u := holds.unpack_pack
  rw [IsWhole, same]
  exact holds

theorem natAbs_lt (whole : IsWhole x a) : a.natAbs < 2 ^ 24 :=
  Holds.natAbs_lt whole

theorem zero : IsWhole (Zero.zero : Float32) 0 := by
  have bits : (Zero.zero : Float32).toModel.unpack = .zero .positive := rfl
  rw [IsWhole, bits]
  exact .zero .positive

theorem one : IsWhole (One.one : Float32) 1 := by
  have bits : (One.one : Float32).toModel.unpack =
      .finite .positive (1 * 2 ^ room 1) (-(room 1 : ℤ)) (by decide) := by rfl
  rw [IsWhole, bits]
  exact .finite .positive (by decide) (by decide)

theorem neg (whole : IsWhole x a) : IsWhole (-x) (-a) :=
  of_holds (Holds.neg whole)

theorem add (left : IsWhole x a) (right : IsWhole y b) (small : (a + b).natAbs < 2 ^ 24) :
    IsWhole (x + y) (a + b) :=
  of_holds (Holds.add left right small)

theorem sub (left : IsWhole x a) (right : IsWhole y b) (small : (a - b).natAbs < 2 ^ 24) :
    IsWhole (x - y) (a - b) :=
  of_holds (Holds.sub left right small)

theorem mul (left : IsWhole x a) (right : IsWhole y b) (small : (a * b).natAbs < 2 ^ 24) :
    IsWhole (x * y) (a * b) :=
  of_holds (Holds.mul left right small)

/-- Factors that are the same whole number give the same product. -/
theorem mul_congr {z : Float32} (left : IsWhole y a) (right : IsWhole z a) (nonzero : a ≠ 0) :
    x * y = x * z := by
  have same := Holds.unique left right nonzero
  show Float32.ofModel (.pack (.mul .binary32 x.toModel.unpack y.toModel.unpack)) =
    Float32.ofModel (.pack (.mul .binary32 x.toModel.unpack z.toModel.unpack))
  rw [same]

theorem lt_iff (left : IsWhole x a) (right : IsWhole y b) : x < y ↔ a < b := by
  have compared : x.toModel.unpack.compare y.toModel.unpack = some (compare a b) :=
    Holds.compare_eq left right
  show decide ((x.toModel.unpack.compare y.toModel.unpack == some .lt) = true) = true ↔ _
  rw [compared, ← compare_lt_iff_lt]
  simp

theorem beq_iff (left : IsWhole x a) (right : IsWhole y b) : (x == y) = true ↔ a = b := by
  have compared : x.toModel.unpack.compare y.toModel.unpack = some (compare a b) :=
    Holds.compare_eq left right
  show (x.toModel.unpack.compare y.toModel.unpack == some .eq) = true ↔ _
  rw [compared, ← compare_eq_iff_eq]
  simp

theorem toInt?_eq (whole : IsWhole x a) : Exponent.toInt? x = some a := by
  have bits : decodeSingle x = decoded x.toModel.unpack := decode_eq x.toModel.toBits.toBitVec
  have value := Holds.toInt?_decoded whole
  rw [← bits] at value
  exact value

/-- Decoding tells whole numbers from others. -/
theorem of_toInt? (value : Exponent.toInt? x = some a) (small : a.natAbs < 2 ^ 24) :
    IsWhole x a := by
  have bits : decodeSingle x = decoded x.toModel.unpack := decode_eq x.toModel.toBits.toBitVec
  have decode : (match decodeSingle x with
      | .finite b => b.toInt?
      | _ => none) = some a := value
  rw [bits] at decode
  exact Holds.of_decoded decode small

end IsWhole

end UnitCalc.Number

/-
# Exponents from exact numbers

A real number is rounded to the nearest single precision number, a tie going to the even
significand. Whole numbers below `2 ^ 24` are not changed by it, and neither are they on the way
back. The decimal digits of a natural number are read as that number.

## Main definitions

* `toSingle` rounds a real number, and `ofSingle` is the real number that a single is.

## Main results

* `IsWhole.toSingle`, `IsWhole.ofSingle_eq`: whole numbers in both directions.
* `read_toString`: the digits of a natural number.
-/

import Mathlib
import UnitCalc.Proofs.Calculator.Exact
import UnitCalc.Proofs.Number.Single

noncomputable section

namespace UnitCalc.Number

open Float.Model
open Float.Model.UnpackedFloat (Sign)

/-! ## Rounding real numbers -/

/-- The natural number nearest to a number that is not negative; a half goes to the even one. -/
def nearestEven (x : ℝ) : ℕ :=
  if Int.fract x + Int.fract x < 1 ∨ Int.fract x + Int.fract x = 1 ∧ Even ⌊x⌋₊ then ⌊x⌋₊
  else ⌊x⌋₊ + 1

/-- The exponent of the last bit that a single of this size has. -/
def lastPlace (x : ℝ) : ℤ :=
  max (Int.log 2 |x| - 23) (-149)

/-- The single precision number nearest to a real number. -/
def toSingle (x : ℝ) : Float32 :=
  .ofModel (.pack (UnpackedFloat.round .binary32 (if x < 0 then .negative else .positive)
    (nearestEven (|x| / ((2 : ℕ) : ℝ) ^ lastPlace x)) (lastPlace x)))

/-- The real number that a decoded number is, if it is finite. -/
def valueOf : UnpackedFloat → ℝ
  | .finite s m e _ => (s.apply m : ℤ) * ((2 : ℕ) : ℝ) ^ e
  | _ => 0

/-- The real number that a single precision number is, if it is finite. -/
def ofSingle (x : Float32) : ℝ :=
  valueOf x.toModel.unpack

theorem nearestEven_natCast (n : ℕ) : nearestEven n = n := by
  rw [nearestEven, Int.fract_natCast, if_pos (.inl (by norm_num)), Nat.floor_natCast]

/-- The last bit that a whole number has in single precision. -/
theorem lastPlace_whole {x : ℝ} {n : ℕ} (size : |x| = n) (small : n < 2 ^ 24) :
    lastPlace x = -(room n : ℤ) := by
  have := log2_le small
  rw [lastPlace, size, Int.log_natCast, ← Nat.log2_eq_log_two, room]
  omega

/-- Whole numbers are rounded to themselves. -/
theorem IsWhole.toSingle {a : ℤ} (small : a.natAbs < 2 ^ 24) : IsWhole (toSingle a) a := by
  have size : |(a : ℝ)| = a.natAbs := by
    rw [Nat.cast_natAbs, Int.cast_abs]
  have scaled : |(a : ℝ)| / ((2 : ℕ) : ℝ) ^ lastPlace a = (a.natAbs * 2 ^ room a.natAbs : ℕ) := by
    rw [lastPlace_whole size small, size, zpow_neg, div_inv_eq_mul, zpow_natCast]
    push_cast
    rfl
  refine .of_holds ?_
  rw [scaled, nearestEven_natCast, lastPlace_whole size small]
  have whole (s : Sign) (positive : 0 < a.natAbs) (value : s.apply a.natAbs = a) :
      Holds (UnpackedFloat.round .binary32 s (a.natAbs * 2 ^ room a.natAbs) (-room a.natAbs)) a := by
    have holds := Holds.finite s positive small
    rwa [value, ← round_whole s positive small] at holds
  rcases lt_trichotomy a 0 with negative | rfl | positive
  · rw [if_pos (by exact_mod_cast negative)]
    refine whole .negative (by omega) ?_
    show -(a.natAbs : ℤ) = a
    omega
  · rw [Int.natAbs_zero, Nat.zero_mul, round_zero]
    exact .zero _
  · rw [if_neg (by exact_mod_cast positive.not_gt)]
    refine whole .positive (by omega) ?_
    show (a.natAbs : ℤ) = a
    omega

theorem Holds.valueOf_eq {u : UnpackedFloat} {a : ℤ} (holds : Holds u a) : valueOf u = a := by
  cases holds with
  | zero s => exact Int.cast_zero.symm
  | @finite s n positive small =>
    have power : ((2 : ℕ) : ℝ) ^ room n ≠ 0 := by positivity
    rw [valueOf, Nat.cast_mul, apply_mul, zpow_neg, zpow_natCast]
    push_cast at power ⊢
    rw [mul_assoc, mul_inv_cancel₀ power, mul_one]

/-- Whole numbers are the real numbers that they are. -/
theorem IsWhole.ofSingle_eq {x : Float32} {a : ℤ} (whole : IsWhole x a) : ofSingle x = a :=
  Holds.valueOf_eq whole

/-- Exponents in single precision, of exact scalars. -/
instance : Narrowing ℝ Float32 :=
  ⟨toSingle, ofSingle⟩

/-! ## Digits -/

/-- Digits have no other case. -/
theorem toLower_of_isDigit {c : Char} (digit : c.isDigit = true) : c.toLower = c := by
  simp only [Char.isDigit, Bool.and_eq_true, decide_eq_true_eq, UInt32.le_iff_toNat_le] at digit
  have noCapital : ¬ (c.val ≥ 65 ∧ c.val ≤ 90) := by
    simp only [ge_iff_le, UInt32.le_iff_toNat_le]
    rintro ⟨large, -⟩
    exact absurd (large.trans digit.2) (by decide)
  rw [Char.toLower]
  exact dif_neg noCapital

/-- The decimal digits of a natural number are read as the number. -/
theorem Literal.read_toString (n : ℕ) : Literal.read (toString n) = some (.decimal false n 0) := by
  have digits : ∀ c ∈ Nat.toDigits 10 n, c.isDigit = true := fun c within =>
    Nat.isDigit_of_mem_toDigits (by decide) (by decide) within
  have value : ofDigits (Nat.toDigits 10 n) = n :=
    Nat.ofDigitChars_eq_foldl.symm.trans Nat.ofDigitChars_ten_toDigits
  obtain ⟨c, cs, text⟩ := List.exists_cons_of_ne_nil (Nat.toDigits_ne_nil (n := n) (b := 10))
  have first : c.isDigit = true := digits c (text ▸ List.mem_cons_self)
  have unsigned : splitSign (Nat.toDigits 10 n) = (false, Nat.toDigits 10 n) := by
    rw [text, splitSign]
    all_goals
      rintro rest ⟨⟩
      exact absurd first (by decide)
  have lower : (Nat.toDigits 10 n).map Char.toLower = Nat.toDigits 10 n :=
    (List.map_congr_left fun c within => toLower_of_isDigit (digits c within)).trans
      (List.map_id _)
  have noWord (word : String) (letter : Char) (others : List Char)
      (spelled : word.toList = letter :: others) (noDigit : letter.isDigit = false) :
      (String.ofList (Nat.toDigits 10 n) == word) = false := by
    refine beq_false_of_ne ?_
    rintro rfl
    rw [String.toList_ofList, text] at spelled
    obtain ⟨rfl, -⟩ := List.cons.inj spelled
    rw [first] at noDigit
    cases noDigit
  have whole : readDecimal false (Nat.toDigits 10 n) = some (.decimal false n 0) := by
    have taken : (Nat.toDigits 10 n).span Char.isDigit = (Nat.toDigits 10 n, []) := by
      rw [List.span_eq_takeWhile_dropWhile, List.takeWhile_eq_self_iff.2 digits,
        List.dropWhile_eq_nil_iff.2 digits]
    simp only [readDecimal, taken, List.append_nil, value]
    rw [text]
    rfl
  simp only [Literal.read, Nat.toString_eq_ofList_toDigits, String.toList_ofList, unsigned, lower,
    noWord "inf" _ _ rfl rfl, noWord "infinity" _ _ rfl rfl, noWord "nan" _ _ rfl rfl, whole,
    Bool.or_false, Bool.false_eq_true, if_false]

/-- The exact number that decimal digits denote. -/
theorem read_toString (n : ℕ) : (Scalar.read (toString n) : Option ℝ) = some (n : ℝ) := by
  have exact : (OfScientific.ofScientific n false 0 : ℝ) = (n * 10 ^ 0 : ℕ) :=
    (Mathlib.Meta.NormNum.isNat_ofScientific_of_false ⟨rfl⟩ ⟨rfl⟩ rfl).out
  rw [Nat.pow_zero, Nat.mul_one] at exact
  rw [Scalar.read, Literal.read_toString]
  exact congrArg some exact

end UnitCalc.Number

end

/-
# Shortest decimals

The text of a number is the shortest decimal that rounds to it. The real numbers that round to a
binary number reach half way to its neighbours, and a point half way belongs to the neighbour with
the even significand, so no real number rounds to two of them. Seventeen digits are enough to meet
each of these intervals. So the text of a number tells it apart from all others.

## Main definitions

* `Binary.value`: the real number that a finite number is.
* `Binary.Fits`: the significand and the exponent are those of a format.
* `Binary.Rounds`: a real number rounds to a binary one.
* `ofDouble`: the real number that a double is.

## Main results

* `Binary.Fits.size_eq_of_rounds`: a real number rounds to one binary number.
* `Binary.Fits.rounds_shortest`: the shortest decimal rounds to the number.
* `DecimalForm.exists_readDecimal`: the text of a decimal reads back.
* `text_eq_text_iff`: positive doubles have the same text when they are the same.
-/

import Mathlib
import UnitCalc.Number.Double
import UnitCalc.Proofs.Calculator.Exact

noncomputable section

namespace UnitCalc.Number

variable {format : BinaryFormat} {b c : Binary} {x : ℝ}

namespace Binary

/-! ## Binary numbers as real numbers -/

/-- The last place of the significand. -/
def lastPlace (b : Binary) : ℝ :=
  ((2 : ℕ) : ℝ) ^ b.exponent

/-- The real number without its sign. -/
def size (b : Binary) : ℝ :=
  b.significand * b.lastPlace

/-- The real number that a finite number is. -/
def value (b : Binary) : ℝ :=
  if b.negative then -b.size else b.size

theorem lastPlace_eq (b : Binary) : b.lastPlace = 2 ^ b.exponent := by
  rw [lastPlace, Nat.cast_ofNat]

theorem lastPlace_pos (b : Binary) : 0 < b.lastPlace :=
  zpow_pos (Nat.cast_pos.2 two_pos) _

theorem size_nonneg (b : Binary) : 0 ≤ b.size :=
  mul_nonneg (Nat.cast_nonneg _) b.lastPlace_pos.le

theorem of_value_pos (positive : 0 < b.value) :
    b.negative = false ∧ 0 < b.significand ∧ b.value = b.size := by
  rw [value] at positive
  split_ifs at positive with negative
  · exact absurd b.size_nonneg (by linarith)
  · have plain := Bool.eq_false_iff.2 negative
    refine ⟨plain, Nat.pos_of_ne_zero fun zero => ?_, by rw [value, plain]; rfl⟩
    rw [size, zero, Nat.cast_zero, zero_mul] at positive
    exact lt_irrefl _ positive

/-- The significand fits the precision, and it is full unless the exponent is the least one. -/
structure Fits (format : BinaryFormat) (b : Binary) : Prop where
  precise : 0 < format.precision
  small : b.significand < 2 ^ format.precision
  least : format.minExponent ≤ b.exponent
  full : format.minExponent < b.exponent → 2 ^ (format.precision - 1) ≤ b.significand

end Binary

theorem BinaryFormat.two_pow_precision (precise : 0 < format.precision) :
    2 ^ format.precision = 2 * 2 ^ (format.precision - 1) := by
  rw [← Nat.pow_succ', Nat.succ_eq_add_one, Nat.sub_add_cancel precise]

/-- What is decoded fits its format. -/
theorem BinaryFormat.fits_of_decode {bits : ℕ} (precise : 0 < format.precision)
    (decoded : format.decode bits = .finite b) : b.Fits format := by
  have twice := two_pow_precision precise
  have fraction : bits % 2 ^ (format.precision - 1) < 2 ^ (format.precision - 1) :=
    Nat.mod_lt _ (Nat.two_pow_pos _)
  rw [decode] at decoded
  simp only [beq_iff_eq, Nat.pow_eq] at decoded
  split_ifs at decoded with top infinite subnormal
  · obtain rfl := Decoded.finite.inj decoded
    exact ⟨precise, by simp only [twice]; omega, le_refl _, fun larger => absurd larger (lt_irrefl _)⟩
  · obtain rfl := Decoded.finite.inj decoded
    exact ⟨precise, by simp only [twice]; omega, by simp only; omega, fun _ => Nat.le_add_right _ _⟩

namespace Binary

/-! ## Neighbours -/

/-- Below a full power of two the neighbours are twice as close. -/
def IsNarrow (format : BinaryFormat) (b : Binary) : Prop :=
  b.significand = 2 ^ (format.precision - 1) ∧ format.minExponent < b.exponent

open Classical in
/-- The distance to the next smaller number. -/
def gap (format : BinaryFormat) (b : Binary) : ℝ :=
  if b.IsNarrow format then b.lastPlace / (2 : ℕ) else b.lastPlace

theorem gap_pos (format : BinaryFormat) (b : Binary) : 0 < b.gap format := by
  rw [gap, Nat.cast_ofNat]
  split_ifs
  · exact half_pos b.lastPlace_pos
  · exact b.lastPlace_pos

/-- A number in last places of one with a smaller exponent. -/
theorem size_eq_mul {k : ℕ} (apart : c.exponent = b.exponent + k) :
    c.lastPlace = (2 ^ k : ℕ) * b.lastPlace ∧
      c.size = (c.significand * 2 ^ k : ℕ) * b.lastPlace := by
  have place : c.lastPlace = (2 ^ k : ℕ) * b.lastPlace := by
    rw [lastPlace_eq, lastPlace_eq, apart, zpow_add₀ two_ne_zero, zpow_natCast, mul_comm, Nat.cast_pow,
      Nat.cast_ofNat]
  refine ⟨place, ?_⟩
  rw [size, place, ← mul_assoc, Nat.cast_mul]

/-- Sizes are compared in last places of the smaller exponent. -/
theorem significand_lt_iff {k : ℕ} (apart : c.exponent = b.exponent + k) :
    b.size < c.size ↔ b.significand < c.significand * 2 ^ k := by
  rw [(size_eq_mul apart).2, size, mul_lt_mul_iff_of_pos_right b.lastPlace_pos, Nat.cast_lt]

namespace Fits

/-- A larger exponent belongs to a larger number. -/
theorem exponent_le (fits : b.Fits format) (fits' : c.Fits format) (less : b.size ≤ c.size) :
    b.exponent ≤ c.exponent := by
  by_contra larger
  obtain ⟨k, apart⟩ := Int.exists_add_of_le (Int.add_one_le_of_lt (not_le.1 larger))
  have full := fits.full (by have := fits'.least; omega)
  obtain ⟨-, scaled⟩ := size_eq_mul (b := c) (c := b) (k := k + 1) (by rw [apart]; push_cast; ring)
  rw [scaled, size, mul_le_mul_iff_of_pos_right c.lastPlace_pos, Nat.cast_le, Nat.pow_succ] at less
  have wide := Nat.mul_le_mul full (Nat.mul_le_mul_right 2 (Nat.one_le_two_pow (n := k)))
  have := fits'.small
  have := BinaryFormat.two_pow_precision fits.precise
  omega

/-- The exponents of two numbers, the smaller one first. -/
theorem exists_apart (fits : b.Fits format) (fits' : c.Fits format) (less : b.size ≤ c.size) :
    ∃ k : ℕ, c.exponent = b.exponent + k :=
  Int.exists_add_of_le (fits.exponent_le fits' less)

/-- The next larger number is at least one last place away. -/
theorem add_lastPlace_le (fits : b.Fits format) (fits' : c.Fits format) (less : b.size < c.size) :
    b.size + b.lastPlace ≤ c.size := by
  obtain ⟨k, apart⟩ := fits.exists_apart fits' less.le
  have steps := (significand_lt_iff apart).1 less
  rw [(size_eq_mul apart).2, size, ← add_one_mul, mul_le_mul_iff_of_pos_right b.lastPlace_pos]
  exact_mod_cast steps

/-- The next smaller number is at least the gap away. -/
theorem add_gap_le (fits : b.Fits format) (fits' : c.Fits format) (less : b.size < c.size) :
    b.size + c.gap format ≤ c.size := by
  obtain ⟨k, apart⟩ := fits.exists_apart fits' less.le
  obtain ⟨place, scaled⟩ := size_eq_mul apart
  have positive := b.lastPlace_pos
  have steps := (significand_lt_iff apart).1 less
  have small := fits.small
  rw [BinaryFormat.two_pow_precision fits.precise] at small
  rw [scaled, gap, Nat.cast_ofNat, place, size]
  split_ifs with narrow
  -- Next to a power of two there are half places, of which the smaller number has a whole number.
  · have halves : 2 * b.significand + 2 ^ k ≤ 2 * (c.significand * 2 ^ k) := by
      rw [narrow.1] at steps ⊢
      rcases k with - | k
      · omega
      · rw [Nat.pow_succ]
        nlinarith [Nat.one_le_two_pow (n := k), Nat.one_le_two_pow (n := format.precision - 1)]
    have halves : (2 * b.significand + (2 ^ k : ℕ) : ℝ) ≤ 2 * (c.significand * 2 ^ k : ℕ) := by
      exact_mod_cast halves
    nlinarith
  · have places : b.significand + 2 ^ k ≤ c.significand * 2 ^ k := by
      rcases k with - | k
      · omega
      · have larger : format.minExponent < c.exponent := by
          have := fits.least
          omega
        have above : 2 ^ (format.precision - 1) + 1 ≤ c.significand :=
          lt_of_le_of_ne (fits'.full larger) fun same => narrow ⟨same.symm, larger⟩
        rw [Nat.pow_succ]
        nlinarith [Nat.one_le_two_pow (n := k)]
    have places : (b.significand + (2 ^ k : ℕ) : ℝ) ≤ (c.significand * 2 ^ k : ℕ) := by
      exact_mod_cast places
    nlinarith

/-- Positive numbers of one size are the same. -/
theorem eq_of_value (fits : b.Fits format) (fits' : c.Fits format) (positive : 0 < b.value)
    (same : b.value = c.value) : b = c := by
  obtain ⟨plain, -, size⟩ := of_value_pos positive
  obtain ⟨plain', -, size'⟩ := of_value_pos (same ▸ positive)
  rw [size, size'] at same
  have exponent : b.exponent = c.exponent :=
    le_antisymm (fits.exponent_le fits' same.le) (fits'.exponent_le fits same.ge)
  have significand : b.significand = c.significand := by
    rw [Binary.size, Binary.size, lastPlace_eq, lastPlace_eq, exponent,
      mul_left_inj' (zpow_pos two_pos _).ne'] at same
    exact_mod_cast same
  cases b
  cases c
  simp_all only

end Fits

/-! ## Rounding -/

/-- Half way to the next smaller number. -/
def low (format : BinaryFormat) (b : Binary) : ℝ :=
  b.size - b.gap format / (2 : ℕ)

/-- Half way to the next larger number. -/
def high (b : Binary) : ℝ :=
  b.size + b.lastPlace / (2 : ℕ)

theorem low_eq (format : BinaryFormat) (b : Binary) : b.low format = b.size - b.gap format / 2 := by
  rw [low, Nat.cast_ofNat]

theorem high_eq (b : Binary) : b.high = b.size + b.lastPlace / 2 := by
  rw [high, Nat.cast_ofNat]

/-- A real number rounds to a binary one: it is at most half way from it to a neighbour, and it is
half way only if the significand is even. -/
structure Rounds (format : BinaryFormat) (b : Binary) (x : ℝ) : Prop where
  low_le : b.low format ≤ x
  le_high : x ≤ b.high
  even : x = b.low format ∨ x = b.high → Even b.significand

theorem low_lt_size (format : BinaryFormat) (b : Binary) : b.low format < b.size := by
  rw [low_eq]
  exact sub_lt_self _ (half_pos (b.gap_pos format))

theorem size_lt_high (b : Binary) : b.size < b.high := by
  rw [high_eq]
  exact lt_add_of_pos_right _ (half_pos b.lastPlace_pos)

/-- What lies between the ends rounds to the number. -/
theorem rounds_of_lt (above : b.low format < x) (below : x < b.high) : b.Rounds format x :=
  ⟨above.le, below.le, fun ends => ends.elim (absurd · above.ne') (absurd · below.ne)⟩

/-- A real number does not round to two numbers of different size. -/
private theorem Fits.not_rounds_of_lt (fits : b.Fits format) (fits' : c.Fits format)
    (less : b.size < c.size) (rounds : b.Rounds format x) : ¬ c.Rounds format x := by
  intro rounds'
  have next := fits.add_lastPlace_le fits' less
  have previous := fits.add_gap_le fits' less
  have upper := rounds.le_high
  have lower := rounds'.low_le
  rw [high_eq] at upper
  rw [low_eq] at lower
  -- The intervals meet in one point at most, which is half way between neighbours.
  have even := rounds.even (.inr (by rw [high_eq]; linarith))
  have even' := rounds'.even (.inl (by rw [low_eq]; linarith))
  obtain ⟨k, apart⟩ := fits.exists_apart fits' less.le
  have adjacent : c.size = (b.significand + 1 : ℕ) * b.lastPlace := by
    rw [Nat.cast_add_one, add_one_mul]
    exact le_antisymm (by rw [← size]; linarith) (by rw [← size]; exact next)
  rw [(size_eq_mul apart).2, mul_left_inj' b.lastPlace_pos.ne', Nat.cast_inj] at adjacent
  have successor : ¬ Even (b.significand + 1) := Nat.not_even_iff_odd.2 even.add_one
  rw [← adjacent] at successor
  exact successor (even'.mul_right _)

/-- A real number rounds to one binary number. -/
theorem Fits.size_eq_of_rounds (fits : b.Fits format) (fits' : c.Fits format)
    (rounds : b.Rounds format x) (rounds' : c.Rounds format x) : b.size = c.size := by
  rcases lt_trichotomy b.size c.size with less | same | more
  · exact absurd rounds' (fits.not_rounds_of_lt fits' less rounds)
  · exact same
  · exact absurd rounds (fits'.not_rounds_of_lt fits more rounds')

/-- Seventeen digits suffice: the numbers that round to a number of at most 53 bits are spread over
more than a unit of the seventeenth digit. -/
theorem Fits.size_lt (fits : b.Fits format) (printable : format.precision ≤ 53) :
    b.size < 10 ^ 16 * (b.high - b.low format) := by
  have positive := b.lastPlace_pos
  have width : b.high - b.low format = b.lastPlace / 2 + b.gap format / 2 := by
    rw [high_eq, low_eq]
    ring
  rw [width, gap, Nat.cast_ofNat, size]
  split_ifs with narrow
  · have small : (b.significand : ℝ) ≤ 2 ^ 52 := by
      rw [narrow.1]
      exact_mod_cast Nat.pow_le_pow_right two_pos (by omega)
    nlinarith
  · have small : (b.significand : ℝ) < 2 ^ 53 := by
      exact_mod_cast fits.small.trans_le (Nat.pow_le_pow_right two_pos printable)
    nlinarith

end Binary

/-! ## The grids of decimals -/

namespace DecimalForm

/-- The real number that a decimal is. -/
def value (d : DecimalForm) : ℝ :=
  d.coefficient * ((10 : ℕ) : ℝ) ^ d.exponent

theorem value_eq (d : DecimalForm) : d.value = d.coefficient * 10 ^ d.exponent := by
  rw [value, Nat.cast_ofNat]

/-- Carrying does not change the number. -/
theorem value_carried (d : DecimalForm) : d.carried.value = d.value := by
  rw [carried]
  split_ifs with ten
  · rw [beq_iff_eq] at ten
    rw [value_eq, value_eq, ten, zpow_add_one₀ (by norm_num)]
    push_cast
    ring
  · rfl

end DecimalForm

/-- The quotient of natural numbers in units of a power of ten. -/
theorem inUnitsOf_eq (e : ℤ) (num den : ℕ) :
    ((inUnitsOf e num den).1 : ℝ) / (inUnitsOf e num den).2 = num / den / 10 ^ e := by
  rw [inUnitsOf]
  split_ifs with negative
  · obtain ⟨n, rfl⟩ := Int.exists_eq_neg_ofNat negative.le
    rw [neg_neg, Int.toNat_natCast, zpow_neg, zpow_natCast]
    simp only [Nat.pow_eq]
    push_cast
    field_simp
  · obtain ⟨n, rfl⟩ := Int.eq_ofNat_of_zero_le (not_lt.1 negative)
    rw [Int.toNat_natCast, zpow_natCast]
    simp only [Nat.pow_eq]
    push_cast
    field_simp

namespace Binary

/-- The interval holds the decimals between its ends, and its ends if it is closed. -/
theorem Interval.holds_iff {i : Interval} (positive : 0 < i.den) (e : ℤ) (n : ℕ) :
    i.holds e n = true ↔ (i.low / i.den : ℝ) ≤ n * 10 ^ e ∧ n * 10 ^ e ≤ (i.high / i.den : ℝ) ∧
      ((n * 10 ^ e : ℝ) = i.low / i.den ∨ (n * 10 ^ e : ℝ) = i.high / i.den → i.closed = true) := by
  obtain ⟨num, den, written, den_pos, number⟩ : ∃ num den : ℕ,
      (if e < 0 then (n, Nat.pow 10 (-e).toNat) else (n * Nat.pow 10 e.toNat, 1)) = (num, den) ∧
        0 < den ∧ (n * 10 ^ e : ℝ) = num / den := by
    split_ifs with negative
    · obtain ⟨k, rfl⟩ := Int.exists_eq_neg_ofNat negative.le
      refine ⟨_, _, rfl, Nat.pow_pos (by norm_num), ?_⟩
      rw [neg_neg, Int.toNat_natCast, zpow_neg, zpow_natCast, Nat.pow_eq, Nat.cast_pow,
        Nat.cast_ofNat, div_eq_mul_inv]
    · obtain ⟨k, rfl⟩ := Int.eq_ofNat_of_zero_le (not_lt.1 negative)
      refine ⟨_, _, rfl, one_pos, ?_⟩
      rw [Int.toNat_natCast, zpow_natCast, Nat.pow_eq, Nat.cast_mul, Nat.cast_pow, Nat.cast_ofNat,
        Nat.cast_one, div_one]
  have positive : (0 : ℝ) < i.den := Nat.cast_pos.2 positive
  have den_pos : (0 : ℝ) < den := Nat.cast_pos.2 den_pos
  rw [holds, written, number, div_le_div_iff₀ positive den_pos, div_le_div_iff₀ den_pos positive,
    div_eq_div_iff den_pos.ne' positive.ne', div_eq_div_iff den_pos.ne' positive.ne']
  norm_cast
  cases i.closed with
  | true => simp
  | false =>
    simp only [Bool.false_eq_true, if_false, Bool.and_eq_true, decide_eq_true_eq, imp_false, not_or]
    omega

/-- The quarters of a last place between a number and the lower end of its interval. -/
def quarters (format : BinaryFormat) (b : Binary) : ℕ :=
  if b.significand == Nat.pow 2 (format.precision - 1) && format.minExponent < b.exponent then 1
  else 2

theorem quarters_le (format : BinaryFormat) (b : Binary) : b.quarters format ≤ 2 := by
  rw [quarters]
  split_ifs <;> decide

theorem gap_eq (format : BinaryFormat) (b : Binary) :
    b.gap format = b.quarters format / 2 * b.lastPlace := by
  have same : (b.significand == Nat.pow 2 (format.precision - 1) &&
      decide (format.minExponent < b.exponent)) = true ↔ b.IsNarrow format := by
    rw [Bool.and_eq_true, beq_iff_eq, decide_eq_true_iff]
    rfl
  rw [gap, quarters, Nat.cast_ofNat]
  by_cases narrow : b.IsNarrow format
  · rw [if_pos narrow, if_pos (same.2 narrow), Nat.cast_one]
    ring
  · rw [if_neg narrow, if_neg (mt same.1 narrow), Nat.cast_ofNat]
    ring

/-- The interval in quarters of the last place. -/
theorem exists_interval (format : BinaryFormat) (b : Binary) : ∃ k den : ℕ, 0 < den ∧
    (k / den : ℝ) = b.lastPlace / 4 ∧
    b.interval format = ⟨(4 * b.significand - b.quarters format) * k, 4 * b.significand * k,
      (4 * b.significand + 2) * k, den, b.significand % 2 == 0⟩ := by
  have quarter : b.lastPlace / 4 = (2 : ℝ) ^ (b.exponent - 2) := by
    rw [lastPlace_eq, zpow_sub₀ two_ne_zero]
    norm_num
  rw [quarter]
  by_cases negative : b.exponent - 2 < 0
  · have opened : b.interval format = ⟨4 * b.significand - b.quarters format, 4 * b.significand,
        4 * b.significand + 2, Nat.pow 2 (-(b.exponent - 2)).toNat, b.significand % 2 == 0⟩ :=
      if_pos negative
    obtain ⟨n, places⟩ := Int.exists_eq_neg_ofNat negative.le
    refine ⟨1, 2 ^ n, Nat.two_pow_pos n, ?_, ?_⟩
    · rw [places, zpow_neg, zpow_natCast, Nat.cast_one, Nat.cast_pow, Nat.cast_ofNat, one_div]
    · rw [opened, places, neg_neg, Int.toNat_natCast, Nat.mul_one, Nat.mul_one, Nat.mul_one]
      rfl
  · have opened : b.interval format =
        ⟨(4 * b.significand - b.quarters format) * Nat.pow 2 (b.exponent - 2).toNat,
          4 * b.significand * Nat.pow 2 (b.exponent - 2).toNat,
          (4 * b.significand + 2) * Nat.pow 2 (b.exponent - 2).toNat, 1, b.significand % 2 == 0⟩ :=
      if_neg negative
    obtain ⟨n, places⟩ := Int.eq_ofNat_of_zero_le (not_lt.1 negative)
    refine ⟨2 ^ n, 1, one_pos, ?_, ?_⟩
    · rw [places, zpow_natCast, Nat.cast_pow, Nat.cast_ofNat, Nat.cast_one, div_one]
    · rw [opened, places, Int.toNat_natCast]
      rfl

/-- What the interval of a number holds rounds to the number. -/
theorem rounds_iff_holds (positive : 0 < b.significand) (e : ℤ) (n : ℕ) :
    b.Rounds format (n * 10 ^ e) ↔ (b.interval format).holds e n = true := by
  obtain ⟨k, den, den_pos, quarter, interval⟩ := b.exists_interval format
  have few := b.quarters_le format
  rw [interval, Interval.holds_iff den_pos]
  have low : (((4 * b.significand - b.quarters format) * k : ℕ) / den : ℝ) = b.low format := by
    rw [Nat.cast_mul, mul_div_assoc, quarter, Nat.cast_sub (by omega), low_eq, gap_eq, size]
    push_cast
    ring
  have high : (((4 * b.significand + 2) * k : ℕ) / den : ℝ) = b.high := by
    rw [Nat.cast_mul, mul_div_assoc, quarter, high_eq, size]
    push_cast
    ring
  rw [low, high, beq_iff_eq, ← Nat.even_iff]
  exact ⟨fun rounds => ⟨rounds.low_le, rounds.le_high, rounds.even⟩,
    fun ⟨low_le, le_high, even⟩ => ⟨low_le, le_high, even⟩⟩

theorem centre_eq (format : BinaryFormat) (b : Binary) :
    ((b.interval format).centre / (b.interval format).den : ℝ) = b.size := by
  obtain ⟨k, den, -, quarter, interval⟩ := b.exists_interval format
  rw [interval, size]
  show ((4 * b.significand * k : ℕ) / den : ℝ) = _
  rw [Nat.cast_mul, mul_div_assoc, quarter]
  push_cast
  ring

/-- What is found on a grid rounds to the number. -/
theorem rounds_of_onGrid? (positive : 0 < b.significand) {e : ℤ} {d : DecimalForm}
    (found : (b.interval format).onGrid? e = some d) : b.Rounds format d.value := by
  simp only [Interval.onGrid?] at found
  split at found
  · next holds holds' =>
    cases found
    rw [DecimalForm.value_eq, rounds_iff_holds positive]
    split_ifs
    · exact holds'
    · exact holds
  · next holds _ =>
    cases found
    exact (rounds_iff_holds positive _ _).2 holds
  · next _ holds =>
    cases found
    exact (rounds_iff_holds positive _ _).2 holds
  · cases found

/-- A grid that is finer than the interval is wide meets it. -/
theorem isSome_onGrid? (positive : 0 < b.significand) {e : ℤ}
    (fine : (10 ^ e : ℝ) < b.high - b.low format) :
    ((b.interval format).onGrid? e).isSome = true := by
  have unit : (0 : ℝ) < 10 ^ e := zpow_pos (by norm_num) e
  set below := (inUnitsOf e (b.interval format).centre (b.interval format).den).1 /
    (inUnitsOf e (b.interval format).centre (b.interval format).den).2 with place
  have floor : below = ⌊b.size / 10 ^ e⌋₊ := by
    rw [place, ← Nat.floor_div_eq_div (K := ℝ), inUnitsOf_eq, centre_eq]
  have le_size : below * 10 ^ e ≤ b.size := by
    rw [← le_div_iff₀ unit, floor]
    exact Nat.floor_le (div_nonneg b.size_nonneg unit.le)
  have size_lt : b.size < (below + 1 : ℕ) * 10 ^ e := by
    rw [← div_lt_iff₀ unit, floor, Nat.cast_add_one]
    exact Nat.lt_floor_add_one _
  -- If neither neighbour of the number on the grid rounds to it, both lie beyond the ends.
  by_contra missed
  have beyond : ¬ b.Rounds format (below * 10 ^ e) ∧ ¬ b.Rounds format ((below + 1 : ℕ) * 10 ^ e) := by
    rw [rounds_iff_holds positive, rounds_iff_holds positive]
    simp only [Interval.onGrid?] at missed
    split at missed
    · exact absurd rfl missed
    · exact absurd rfl missed
    · exact absurd rfl missed
    · next holds holds' => exact ⟨Bool.eq_false_iff.1 holds, Bool.eq_false_iff.1 holds'⟩
  have low_ge : below * 10 ^ e ≤ b.low format :=
    not_lt.1 fun above => beyond.1 (rounds_of_lt above (le_size.trans_lt b.size_lt_high))
  have high_le : b.high ≤ (below + 1 : ℕ) * 10 ^ e :=
    not_lt.1 fun under => beyond.2 (rounds_of_lt ((b.low_lt_size format).trans size_lt) under)
  rw [Nat.cast_add_one, add_one_mul] at high_le
  linarith

/-! ## The shortest decimal -/

end Binary

theorem lt_pow_length_digits (n : ℕ) : n < 10 ^ (digits n).length :=
  (Nat.length_toDigits_le_iff (by decide) Nat.length_toDigits_pos).1 (le_refl _)

theorem pow_length_digits_le {n : ℕ} (positive : 0 < n) : 10 ^ ((digits n).length - 1) ≤ n := by
  have nonempty : 0 < (digits n).length := Nat.length_toDigits_pos
  rcases Nat.eq_zero_or_pos ((digits n).length - 1) with single | more
  · rw [single, Nat.pow_zero]
    exact positive
  · refine not_lt.1 fun short => ?_
    have fewer : (digits n).length ≤ (digits n).length - 1 :=
      (Nat.length_toDigits_le_iff (by decide) more).2 short
    omega

/-- A quotient is at least the power of ten of its leading digit. -/
theorem pow_leadingExponent_le {num den : ℕ} (positive : 0 < num) (nonzero : 0 < den) :
    (10 ^ leadingExponent num den : ℝ) ≤ num / den := by
  have nonzero' : (0 : ℝ) < den := Nat.cast_pos.2 nonzero
  rw [leadingExponent]
  split_ifs with large
  · have quotient := Nat.div_pos large nonzero
    have digit : 0 < (digits (num / den)).length := Nat.length_toDigits_pos
    have power : (10 ^ ((digits (num / den)).length - 1) : ℝ) ≤ (num / den : ℕ) := by
      exact_mod_cast pow_length_digits_le quotient
    have exponent : ((digits (num / den)).length : ℤ) - 1 =
        ((digits (num / den)).length - 1 : ℕ) := by omega
    rw [exponent, zpow_natCast]
    exact power.trans Nat.cast_div_le
  · -- The reciprocal is rounded up, and one less than that has as many digits.
    have up : den ≤ (den + num - 1) / num * num := by
      have := Nat.lt_div_mul_add (a := den + num - 1) positive
      omega
    have power : (den + num - 1) / num ≤ 10 ^ (digits ((den + num - 1) / num - 1)).length := by
      have := lt_pow_length_digits ((den + num - 1) / num - 1)
      omega
    have product : (den : ℝ) ≤ 10 ^ (digits ((den + num - 1) / num - 1)).length * num := by
      exact_mod_cast up.trans (Nat.mul_le_mul_right num power)
    rw [zpow_neg, zpow_natCast, inv_le_comm₀ (by positivity) (by positivity), inv_div,
      div_le_iff₀ (Nat.cast_pos.2 positive)]
    exact product

namespace Binary

/-- The leading digit of a positive number. -/
theorem pow_lead_le (format : BinaryFormat) (positive : 0 < b.significand) :
    (10 ^ leadingExponent (b.interval format).centre (b.interval format).den : ℝ) ≤ b.size := by
  have size : 0 < b.size := mul_pos (Nat.cast_pos.2 positive) b.lastPlace_pos
  rw [← centre_eq format] at size ⊢
  refine pow_leadingExponent_le (Nat.pos_of_ne_zero fun zero => ?_) (Nat.pos_of_ne_zero fun zero => ?_)
  · rw [zero, Nat.cast_zero, zero_div] at size
    exact lt_irrefl _ size
  · rw [zero, Nat.cast_zero, div_zero] at size
    exact lt_irrefl _ size

/-- The shortest decimal rounds to the number. -/
theorem Fits.rounds_shortest (fits : b.Fits format) (printable : format.precision ≤ 53)
    (positive : 0 < b.significand) : b.Rounds format (b.shortest format).value := by
  set lead := leadingExponent (b.interval format).centre (b.interval format).den with lead_eq
  have fine : (10 ^ (lead - 16) : ℝ) < b.high - b.low format := by
    have lead_le := pow_lead_le format positive
    have wide := fits.size_lt printable
    have split : (10 ^ lead : ℝ) = 10 ^ 16 * 10 ^ (lead - 16) := by
      rw [zpow_sub₀ (by norm_num), zpow_ofNat]
      field_simp
    rw [← lead_eq, split] at lead_le
    linarith
  have found := isSome_onGrid? positive fine
  cases search : (List.range maxDigits).findSome? fun n : ℕ =>
      (b.interval format).onGrid? (lead - n) with
  | none =>
    have missed := List.findSome?_eq_none_iff.1 search 16 (List.mem_range.2 (by decide))
    rw [show ((16 : ℕ) : ℤ) = 16 from rfl] at missed
    rw [missed] at found
    cases found
  | some d =>
    obtain ⟨n, -, found⟩ := List.exists_of_findSome?_eq_some search
    have chosen : b.shortest format = d.carried := by
      rw [shortest, ← lead_eq, search]
    rw [chosen, DecimalForm.value_carried]
    exact rounds_of_onGrid? positive found

end Binary

/-! ## Texts -/

theorem isDigit_of_mem_digits {d : Char} {n : ℕ} (within : d ∈ digits n) : d.isDigit = true :=
  Nat.isDigit_of_mem_toDigits (by decide) (by decide) within

theorem isDigit_of_mem_replicate {d : Char} {n : ℕ} (within : d ∈ List.replicate n '0') :
    d.isDigit = true := by
  rw [List.eq_of_mem_replicate within]
  rfl

/-- Digits without a point are read as an integer. -/
theorem readDecimal_digits {ds : List Char} (all : ∀ d ∈ ds, d.isDigit = true)
    (nonempty : ds ≠ []) :
    Literal.readDecimal false ds = some (.decimal false (Literal.ofDigits ds) 0) := by
  have taken : ds.span Char.isDigit = (ds, []) := by
    rw [List.span_eq_takeWhile_dropWhile, List.takeWhile_eq_self_iff.2 all,
      List.dropWhile_eq_nil_iff.2 all]
  have some : ds.isEmpty = false := List.isEmpty_eq_false_iff.2 nonempty
  simp only [Literal.readDecimal, taken, some, List.append_nil, Bool.false_and, Literal.readExponent]
  rfl

/-- Digits with a point are read as an integer in units of the last digit. -/
theorem readDecimal_point {ds fs : List Char} (all : ∀ d ∈ ds, d.isDigit = true)
    (all' : ∀ d ∈ fs, d.isDigit = true) (nonempty : ds ≠ []) :
    Literal.readDecimal false (ds ++ '.' :: fs) =
      some (.decimal false (Literal.ofDigits (ds ++ fs)) (-fs.length)) := by
  have whole : (ds ++ '.' :: fs).span Char.isDigit = (ds, '.' :: fs) := by
    rw [List.span_eq_takeWhile_dropWhile, List.takeWhile_append_of_pos all,
      List.dropWhile_append_of_pos all]
    simp
  have fraction : fs.span Char.isDigit = (fs, []) := by
    rw [List.span_eq_takeWhile_dropWhile, List.takeWhile_eq_self_iff.2 all',
      List.dropWhile_eq_nil_iff.2 all']
  have some : ds.isEmpty = false := List.isEmpty_eq_false_iff.2 nonempty
  simp only [Literal.readDecimal, whole, fraction, some, Bool.false_and, Literal.readExponent]
  simp

namespace DecimalForm

variable {d : DecimalForm}

/-- Integers are written with zeros behind the digits. -/
theorem positional_of_nonneg {n : ℕ} (places : d.exponent = n) :
    d.positional = digits d.coefficient ++ List.replicate n '0' := by
  rw [positional, places]
  exact if_pos (Int.natCast_nonneg n)

/-- Other decimals are written with a point, and with zeros in front if there are few digits. -/
theorem exists_positional_of_neg {n : ℕ} (places : d.exponent = -(n + 1 : ℕ)) :
    ∃ (k : ℕ) (whole fraction : List Char), d.positional = whole ++ '.' :: fraction ∧
      whole ++ fraction = List.replicate k '0' ++ digits d.coefficient ∧ whole ≠ [] ∧
      fraction.length = n + 1 := by
  set k := n + 1 + 1 - (digits d.coefficient).length with k_eq
  set padded := List.replicate k '0' ++ digits d.coefficient with padded_eq
  have long : n + 1 < padded.length := by
    rw [padded_eq, List.length_append, List.length_replicate]
    omega
  refine ⟨k, padded.take (padded.length - (n + 1)), padded.drop (padded.length - (n + 1)), ?_,
    List.take_append_drop _ _, ?_, ?_⟩
  · have negative : ¬ (0 ≤ d.exponent) := by omega
    have count : (-d.exponent).toNat = n + 1 := by omega
    rw [positional, if_neg negative, count]
    simp only [List.splitAt_eq]
    rfl
  · rw [ne_eq, List.take_eq_nil_iff]
    rintro (none | empty)
    · omega
    · rw [empty] at long
      exact absurd long (Nat.not_lt_zero _)
  · rw [List.length_drop]
    omega

/-- A decimal is read back from its text. -/
theorem exists_readDecimal (d : DecimalForm) : ∃ (coefficient : ℕ) (exponent : ℤ),
    Literal.readDecimal false d.positional = some (.decimal false coefficient exponent) ∧
      (coefficient * 10 ^ exponent : ℝ) = d.value := by
  have ofDigits_eq (ds : List Char) : Literal.ofDigits ds = Nat.ofDigitChars 10 ds 0 :=
    Nat.ofDigitChars_eq_foldl.symm
  have number : Nat.ofDigitChars 10 (digits d.coefficient) 0 = d.coefficient :=
    Nat.ofDigitChars_ten_toDigits
  rcases places : d.exponent with n | n
  · refine ⟨10 ^ n * d.coefficient, 0, ?_, ?_⟩
    · rw [positional_of_nonneg places, readDecimal_digits (List.forall_mem_append.2
        ⟨fun _ => isDigit_of_mem_digits, fun _ => isDigit_of_mem_replicate⟩) (by simp [digits]),
        ofDigits_eq, Nat.ofDigitChars_append, Nat.ofDigitChars_replicate_zero, number]
    · rw [value_eq, places, Int.ofNat_eq_natCast, zpow_natCast, zpow_zero]
      push_cast
      ring
  · obtain ⟨k, whole, fraction, written, padded, nonempty, length⟩ := exists_positional_of_neg places
    have all : ∀ c ∈ whole ++ fraction, c.isDigit = true := by
      rw [padded]
      exact List.forall_mem_append.2 ⟨fun _ => isDigit_of_mem_replicate, fun _ => isDigit_of_mem_digits⟩
    rw [List.forall_mem_append] at all
    refine ⟨d.coefficient, d.exponent, ?_, d.value_eq.symm⟩
    rw [written, readDecimal_point all.1 all.2 nonempty, length, padded, ofDigits_eq,
      Nat.ofDigitChars_append, Nat.ofDigitChars_replicate_zero, Nat.mul_zero, number, places]
    rfl

/-- No decimal is written without digits. -/
theorem exists_isDigit (d : DecimalForm) : ∃ c ∈ d.positional, c.isDigit = true := by
  obtain ⟨c, within⟩ : ∃ c, c ∈ digits d.coefficient := List.exists_mem_of_ne_nil _ (by simp [digits])
  refine ⟨c, ?_, isDigit_of_mem_digits within⟩
  rcases places : d.exponent with n | n
  · rw [positional_of_nonneg places]
    exact List.mem_append_left _ within
  · obtain ⟨k, whole, fraction, written, padded, -, -⟩ := exists_positional_of_neg places
    have split : c ∈ whole ++ fraction := padded ▸ List.mem_append_right _ within
    rw [written]
    exact (List.mem_append.1 split).elim (List.mem_append_left _) fun inside =>
      List.mem_append_right _ (List.mem_cons_of_mem _ inside)

end DecimalForm

namespace Binary

/-- The text of a positive number is the text of its shortest decimal. -/
theorem text_eq (plain : b.negative = false) (positive : 0 < b.significand) :
    b.text format = String.ofList (b.shortest format).positional := by
  have nonzero : ¬ (b.significand == 0) = true := by simpa using positive.ne'
  simp only [text, plain, if_neg nonzero]
  rfl

/-- Numbers with one text are the same. -/
theorem Fits.value_eq_of_text (fits : b.Fits format) (fits' : c.Fits format)
    (printable : format.precision ≤ 53) (positive : 0 < b.value) (positive' : 0 < c.value)
    (same : b.text format = c.text format) : b.value = c.value := by
  obtain ⟨plain, nonzero, size⟩ := of_value_pos positive
  obtain ⟨plain', nonzero', size'⟩ := of_value_pos positive'
  rw [text_eq plain nonzero, text_eq plain' nonzero', String.ofList_inj] at same
  obtain ⟨coefficient, exponent, read, value⟩ := (b.shortest format).exists_readDecimal
  obtain ⟨coefficient', exponent', read', value'⟩ := (c.shortest format).exists_readDecimal
  rw [same, read'] at read
  obtain ⟨-, rfl, rfl⟩ := Literal.decimal.inj (Option.some.inj read)
  have rounds := fits.rounds_shortest printable nonzero
  have rounds' := fits'.rounds_shortest printable nonzero'
  rw [← value] at rounds
  rw [← value'] at rounds'
  rw [size, size', fits.size_eq_of_rounds fits' rounds rounds']

end Binary

/-! ## Doubles -/

/-- The real number that a double is, zero if it is not finite. -/
def ofDouble (x : Float) : ℝ :=
  match decodeDouble x with
  | .finite b => b.value
  | _ => 0

theorem exists_of_ofDouble_pos {x : Float} (positive : 0 < ofDouble x) :
    ∃ b : Binary, decodeDouble x = .finite b ∧ b.Fits double ∧ ofDouble x = b.value := by
  rw [ofDouble] at positive ⊢
  split at positive
  · next b decoded => exact ⟨b, decoded, BinaryFormat.fits_of_decode (by decide) decoded, rfl⟩
  · exact absurd positive (lt_irrefl _)

/-- The text of a positive double has a digit. -/
theorem exists_isDigit_text {x : Float} (positive : 0 < ofDouble x) :
    ∃ c ∈ (Scalar.text x).toList, c.isDigit = true := by
  obtain ⟨b, decoded, -, value⟩ := exists_of_ofDouble_pos positive
  obtain ⟨plain, nonzero, -⟩ := Binary.of_value_pos (value ▸ positive)
  have text : Scalar.text x = b.text double := congrArg (Decoded.text double) decoded
  rw [text, Binary.text_eq plain nonzero, String.toList_ofList]
  exact (b.shortest double).exists_isDigit

/-- Positive doubles have the same text when they are the same number. -/
theorem text_eq_text_iff {x y : Float} (positive : 0 < ofDouble x) (positive' : 0 < ofDouble y) :
    Scalar.text x = Scalar.text y ↔ ofDouble x = ofDouble y := by
  obtain ⟨b, decoded, fits, value⟩ := exists_of_ofDouble_pos positive
  obtain ⟨c, decoded', fits', value'⟩ := exists_of_ofDouble_pos positive'
  rw [value] at positive ⊢
  rw [value'] at positive' ⊢
  have text : Scalar.text x = b.text double := congrArg (Decoded.text double) decoded
  have text' : Scalar.text y = c.text double := congrArg (Decoded.text double) decoded'
  rw [text, text']
  constructor
  · exact fits.value_eq_of_text fits' (by decide) positive positive'
  · exact fun same => congrArg _ (fits.eq_of_value fits' positive same)

end UnitCalc.Number

end

/-
# Exact arithmetic

The definitions of the calculator read over the real numbers, for scalars and for the
exponents of units: no rounding, nothing undefined and nothing infinite. The text of a real
number is left open.

On real numbers both kernels compute the real operation where there is one.

## Main definitions

* `wholePart` is the integer toward zero and `rootOf` the real root.

## Main results

* `Kernel.mul_ofMode`, `div_ofMode`, `pow_ofMode`, `root_ofMode` and the functions.
-/

import Mathlib.Analysis.SpecialFunctions.Arsinh
import Mathlib.Analysis.SpecialFunctions.Complex.Arg
import Mathlib.Analysis.SpecialFunctions.Log.Base
import Mathlib.Analysis.SpecialFunctions.Pow.Real
import Mathlib.Analysis.SpecialFunctions.Trigonometric.Arctan
import Mathlib.Analysis.SpecialFunctions.Trigonometric.Inverse
import UnitCalc.Calculator.Kernel

noncomputable section

namespace UnitCalc

/-- The division of real numbers, which is found before the division of scalars. -/
instance divReal : Div ℝ :=
  inferInstance

/-- The integer toward zero. -/
def wholePart (x : ℝ) : ℤ :=
  if 0 ≤ x then ⌊x⌋ else ⌈x⌉

/-- The root of a nonnegative number, and the odd root of a negative one. -/
def rootOf (n x : ℝ) : ℝ :=
  if x < 0 then -(-x) ^ (1 / n) else x ^ (1 / n)

/-- Real numbers as scalars. -/
instance : Scalar ℝ where
  decideLt := inferInstance
  decideLe := inferInstance
  nan := 0
  infinity := 0
  isNaN _ := false
  isInfinite _ := false
  isNegative x := decide (x < 0)
  pi := Real.pi
  ofInt n := n
  toInt x := max (-9223372036854775808) (min (wholePart x) 9223372036854775807)
  abs x := |x|
  floor x := ⌊x⌋
  ceiling x := ⌈x⌉
  round x := if 0 ≤ x then ⌊x + 1 / 2⌋ else ⌈x - 1 / 2⌉
  truncate x := wholePart x
  remainder x y := x - y * wholePart (x / y)
  sqrt := Real.sqrt
  cbrt := rootOf 3
  hypot x y := Real.sqrt (x ^ 2 + y ^ 2)
  pow x y := x ^ y
  exp := Real.exp
  ln := Real.log
  log2 := Real.logb 2
  log10 := Real.logb 10
  sin := Real.sin
  cos := Real.cos
  tan := Real.tan
  asin := Real.arcsin
  acos := Real.arccos
  atan := Real.arctan
  atan2 y x := (⟨x, y⟩ : ℂ).arg
  sinh := Real.sinh
  cosh := Real.cosh
  tanh := Real.tanh
  asinh := Real.arsinh
  acosh x := Real.log (x + Real.sqrt (x ^ 2 - 1))
  atanh x := Real.log ((1 + x) / (1 - x)) / 2
  spacing _ := 0
  text := Classical.arbitrary _

/-- Real numbers as exponents of units. -/
instance : Exponent ℝ where
  decideLt := inferInstance
  toInt? e := if e = ⌊e⌋ then some ⌊e⌋ else none
  text := Classical.arbitrary _
  showsBefore a b := decide (b ≤ a)

/-- Nothing is rounded. -/
instance : Narrowing ℝ ℝ :=
  ⟨id, id⟩

/-! ### Whole parts and roots -/

/-- An integer is its own whole part. -/
@[simp]
theorem wholePart_intCast (n : ℤ) : wholePart n = n := by
  simp [wholePart]

theorem wholePart_natCast_div_two (n : ℕ) : wholePart (n / 2) = (n / 2 : ℕ) := by
  have nonnegative : (0 : ℝ) ≤ n / 2 := by positivity
  rw [wholePart, if_pos nonnegative]
  have floored : ⌊(n : ℝ) / (2 : ℕ)⌋ = ⌊(n : ℝ)⌋ / (2 : ℕ) := Int.floor_div_natCast _ _
  simpa using floored

theorem rootOf_of_nonneg {x : ℝ} (n : ℝ) (nonnegative : 0 ≤ x) : rootOf n x = x ^ (1 / n) :=
  if_neg nonnegative.not_gt

theorem rootOf_of_neg {x : ℝ} (n : ℝ) (negative : x < 0) : rootOf n x = -(-x) ^ (1 / n) :=
  if_pos negative

/-- The real root of a number: its power is the number, and it is not negative unless the
index is odd. -/
def IsRoot (n : ℕ) (x y : ℝ) : Prop :=
  y ^ n = x ∧ (0 ≤ y ∨ Odd n)

theorem IsRoot.eq_rootOf {n : ℕ} {x y : ℝ} (positive : n ≠ 0) (root : IsRoot n x y) :
    y = rootOf n x := by
  obtain ⟨rfl, sign⟩ := root
  rcases le_or_gt 0 y with nonnegative | negative
  · rw [rootOf_of_nonneg _ (pow_nonneg nonnegative n), one_div,
      Real.pow_rpow_inv_natCast nonnegative positive]
  -- A negative root has an odd index, so its negation is the root of the negation.
  · have odd : Odd n := sign.resolve_left negative.not_ge
    have nonnegative : 0 ≤ -y := by linarith
    rw [rootOf_of_neg _ (odd.pow_neg negative), ← odd.neg_pow, one_div,
      Real.pow_rpow_inv_natCast nonnegative positive, neg_neg]

/-- Only odd roots are taken of negative numbers. -/
theorem IsRoot.nonneg_or_odd {n : ℕ} {x y : ℝ} (root : IsRoot n x y) : 0 ≤ x ∨ Odd n := by
  obtain ⟨rfl, nonnegative | odd⟩ := root
  · exact .inl (pow_nonneg nonnegative n)
  · exact .inr odd

/-- A positive factor comes out of a root. -/
theorem rootOf_mul (n x : ℝ) {k : ℝ} (positive : 0 < k) :
    rootOf n (x * k) = rootOf n x * k ^ (1 / n) := by
  rcases le_or_gt 0 x with nonnegative | negative
  · rw [rootOf_of_nonneg _ nonnegative, rootOf_of_nonneg _ (mul_nonneg nonnegative positive.le),
      Real.mul_rpow nonnegative positive.le]
  · have nonnegative : 0 ≤ -x := by linarith
    rw [rootOf_of_neg _ negative, rootOf_of_neg _ (mul_neg_of_neg_of_pos negative positive),
      ← neg_mul, Real.mul_rpow nonnegative positive.le, neg_mul]

/-- The remainder of a division truncated toward zero. -/
def remainderOf (x y : ℝ) : ℝ :=
  x - y * wholePart (x / y)

/-- A common factor comes out of a remainder. -/
theorem remainderOf_mul (x y : ℝ) {k : ℝ} (nonzero : k ≠ 0) :
    remainderOf (x * k) (y * k) = remainderOf x y * k := by
  rw [remainderOf, remainderOf, mul_div_mul_right x y nonzero]
  ring

theorem Scalar.isIntegral_iff {x : ℝ} : Scalar.isIntegral x = true ↔ ∃ n : ℤ, x = n := by
  rw [Scalar.isIntegral, beq_iff_eq]
  show x - (wholePart x : ℝ) = 0 ↔ _
  constructor
  · exact fun whole => ⟨wholePart x, sub_eq_zero.1 whole⟩
  · rintro ⟨n, rfl⟩
    rw [wholePart_intCast, sub_self]

theorem Scalar.least_eq_min (a c : ℝ) : least a c = min a c := by
  have opened : least a c = if c < a then c else a := rfl
  rw [opened, min_def_lt]
  rcases lt_trichotomy a c with less | rfl | more
  · rw [if_neg less.not_gt, if_pos less]
  · simp
  · rw [if_pos more, if_neg more.not_gt]

theorem Scalar.greatest_eq_max (a c : ℝ) : greatest a c = max a c := by
  have opened : greatest a c = if a < c then c else a := rfl
  rw [opened, max_def_lt]

namespace Complex

theorem isReal_ofReal (x : ℝ) : (ofReal x).isReal = true :=
  beq_self_eq_true (0 : ℝ)

theorem eq_ofReal {z : Complex ℝ} (real : z.im = 0) : z = ofReal z.re :=
  Complex.ext rfl real

theorem norm_ofReal (x : ℝ) : (ofReal x).norm = |x| := by
  show Real.sqrt (x ^ 2 + (0 : ℝ) ^ 2) = |x|
  rw [zero_pow two_ne_zero, add_zero, Real.sqrt_sq_eq_abs]

theorem arg_ofReal {x : ℝ} (nonnegative : 0 ≤ x) : (ofReal x).arg = 0 :=
  Complex.arg_ofReal_of_nonneg nonnegative

/-- A real power of a nonnegative number is real. -/
theorem powReal_ofReal {x : ℝ} (y : ℝ) (nonnegative : 0 ≤ x) :
    (ofReal x).powReal y = ofReal (x ^ y) := by
  rw [powReal]
  -- The exponent zero has a branch of its own, which agrees with the general one.
  split_ifs with zero
  · rw [beq_iff_eq] at zero
    rw [zero, Real.rpow_zero]
    rfl
  · rw [norm_ofReal, arg_ofReal nonnegative, abs_of_nonneg nonnegative]
    show (⟨x ^ y * Real.cos (0 * y), x ^ y * Real.sin (0 * y)⟩ : Complex ℝ) = ⟨x ^ y, 0⟩
    rw [zero_mul, Real.cos_zero, Real.sin_zero, mul_one, mul_zero]

end Complex

namespace Kernel

theorem isOdd_natCast (n : ℕ) : isOdd (n : ℝ) = decide (Odd n) := by
  have two : (2.0 : ℝ) = 2 := by norm_num
  have halved : isOdd (n : ℝ) = ((n : ℝ) - 2 * (wholePart (n / 2) : ℝ) == 1) := by
    show ((n : ℝ) - (2.0 : ℝ) * (wholePart (n / (2.0 : ℝ)) : ℝ) == 1) = _
    rw [two]
  rw [halved, Bool.eq_iff_iff, beq_iff_eq, decide_eq_true_iff, wholePart_natCast_div_two,
    Int.cast_natCast, Nat.odd_iff]
  -- The whole part of the half is the integer quotient, so one is left of odd numbers.
  have parts : (n : ℝ) = 2 * (n / 2 : ℕ) + (n % 2 : ℕ) := by
    exact_mod_cast (Nat.div_add_mod n 2).symm
  constructor
  · intro one
    have : ((n % 2 : ℕ) : ℝ) = 1 := by linarith
    exact_mod_cast this
  · intro one
    rw [one, Nat.cast_one] at parts
    linarith

variable (isComplex : Bool)

/-- Products of real numbers are real in either mode. -/
theorem mul_ofMode (x y : ℝ) :
    (ofMode isComplex).mul (.ofReal x) (.ofReal y) = .ofReal (x * y) := by
  cases isComplex with
  | false => rfl
  | true =>
    show (if Complex.isReal (.ofReal x) && Complex.isReal (.ofReal y) then _ else _) = _
    rw [Complex.isReal_ofReal, Complex.isReal_ofReal]
    rfl

/-- Quotients of real numbers are real in either mode. -/
theorem div_ofMode (x y : ℝ) :
    (ofMode isComplex).div (.ofReal x) (.ofReal y) = .ofReal (x / y) := by
  cases isComplex with
  | false => rfl
  | true =>
    show (if Complex.isReal (.ofReal x) && Complex.isReal (.ofReal y) then _ else _) = _
    rw [Complex.isReal_ofReal, Complex.isReal_ofReal]
    rfl

/-- Powers of nonnegative numbers and powers to integers are real in either mode. -/
theorem pow_ofMode {x y : ℝ} (real : 0 ≤ x ∨ ∃ n : ℤ, y = n) :
    (ofMode isComplex).pow (.ofReal x) (.ofReal y) = .ofReal (x ^ y) := by
  cases isComplex with
  | false => rfl
  | true =>
    show complexPow (.ofReal x) (.ofReal y) = _
    -- The complex kernel computes the real power under exactly this condition.
    have condition : (decide (0 ≤ x) || Scalar.isIntegral y) = true := by
      obtain nonnegative | integer := real
      · rw [decide_eq_true nonnegative, Bool.true_or]
      · rw [Scalar.isIntegral_iff.2 integer, Bool.or_true]
    rw [complexPow, Complex.isReal_ofReal, Complex.isReal_ofReal]
    exact if_pos condition

/-- Roots of nonnegative numbers and odd roots are real in either mode. -/
theorem root_ofMode {n : ℕ} {x : ℝ} (real : 0 ≤ x ∨ Odd n) :
    (ofMode isComplex).root (.ofReal x) n = .ofReal (rootOf n x) := by
  -- The kernels branch on the sign of the number before they look at the index.
  rcases le_or_gt 0 x with nonnegative | negative
  · have notNegative : decide (x < 0) = false := decide_eq_false nonnegative.not_gt
    rw [rootOf_of_nonneg _ nonnegative]
    cases isComplex with
    | false =>
      show Complex.ofReal (if decide (x < 0) && isOdd (n : ℝ) then _ else _) = _
      rw [notNegative]
      rfl
    | true =>
      show (if Complex.isReal (.ofReal x) && decide (x < 0) && isOdd (n : ℝ) then _ else _) = _
      rw [notNegative, Bool.and_false, Bool.false_and]
      exact Complex.powReal_ofReal _ nonnegative
  · have odd : isOdd (n : ℝ) = true := by
      rw [isOdd_natCast, decide_eq_true (real.resolve_left negative.not_ge)]
    have isNegative : decide (x < 0) = true := decide_eq_true negative
    rw [rootOf_of_neg _ negative]
    cases isComplex with
    | false =>
      show Complex.ofReal (if decide (x < 0) && isOdd (n : ℝ) then _ else _) = _
      rw [isNegative, odd]
      rfl
    | true =>
      show (if Complex.isReal (.ofReal x) && decide (x < 0) && isOdd (n : ℝ) then _ else _) = _
      rw [isNegative, odd, Complex.isReal_ofReal]
      rfl

variable (draw : ℝ)

theorem negate_ofMode (x : ℝ) :
    (ofMode isComplex).function draw .negate (.ofReal x) = .ofReal (-x) := by
  cases isComplex with
  | false => rfl
  | true =>
    show (⟨-x + 0, -0 + 0⟩ : Complex ℝ) = ⟨-x, 0⟩
    rw [add_zero, neg_zero, add_zero]

theorem abs_ofMode (x : ℝ) :
    (ofMode isComplex).function draw .abs (.ofReal x) = .ofReal |x| := by
  cases isComplex with
  | false => rfl
  | true => exact congrArg Complex.ofReal (Complex.norm_ofReal x)

/-- Square roots of nonnegative numbers are real in either mode. -/
theorem sqrt_ofMode {x : ℝ} (nonnegative : 0 ≤ x) :
    (ofMode isComplex).function draw .sqrt (.ofReal x) = .ofReal (Real.sqrt x) := by
  cases isComplex with
  | false => rfl
  | true =>
    show Complex.sqrt (.ofReal x) = _
    have notNegative : Scalar.isNegative x = false := decide_eq_false nonnegative.not_gt
    have real : ((0 : ℝ) == 0) = true := beq_self_eq_true 0
    simp only [Complex.sqrt, Complex.ofReal, real, notNegative]
    rfl

theorem cbrt_ofMode (x : ℝ) :
    (ofMode isComplex).function draw .cbrt (.ofReal x) = .ofReal (rootOf 3 x) := by
  cases isComplex with
  | false => rfl
  | true =>
    have index : (3.0 : ℝ) = (3 : ℕ) := by norm_num
    have odd : Odd 3 := ⟨1, rfl⟩
    show complexRoot (.ofReal x) (3.0 : ℝ) = _
    rw [index]
    exact root_ofMode true (.inr odd)

end Kernel

end UnitCalc

end

/-
# Reversed bounds

A search for a root and both integrals order their bounds themselves. So the order of the bounds
does not matter for a root, and reverses the sign of an integral. The search for an extreme value
takes its bounds as they are: the length of a reversed interval is not positive, so the search ends
before its first step, with the value at the first bound.

## Main definitions

* `Scalar.Apart`: two numbers, one of which is smaller than the other.

## Main results

* `Problem.bracket_reversed`: a bracketing search between reversed bounds, for all numbers.
* `Problem.signedIntegral_reversed`: an integral between reversed bounds, in exact arithmetic.
* `Problem.extremeValue_descending`: an extreme value between reversed bounds.
-/

import Mathlib.Tactic.Positivity
import UnitCalc.Method.Quadrature
import UnitCalc.Proofs.Method.Extremum

namespace UnitCalc

/-! ## Roots -/

section

variable {R E : Type} {m : Type → Type} [Scalar R] {a b : R}

/-- Numbers, one of which is smaller than the other. -/
structure Scalar.Apart (a b : R) : Prop where
  first : Scalar.isNaN a = false
  second : Scalar.isNaN b = false
  order : (a < b ∧ ¬ b < a) ∨ (b < a ∧ ¬ a < b)

theorem Scalar.Apart.least_comm (apart : Apart a b) : least a b = least b a := by
  obtain ⟨first, second, ⟨less, not⟩ | ⟨less, not⟩⟩ := apart <;>
    simp [least, first, second, less, not]

theorem Scalar.Apart.greatest_comm (apart : Apart a b) : greatest a b = greatest b a := by
  obtain ⟨first, second, ⟨less, not⟩ | ⟨less, not⟩⟩ := apart <;>
    simp [greatest, first, second, less, not]

namespace Problem

variable [Monad m] [MonadExceptOf CalcError m] (p : Problem R E m)

/-- A bracketing search between bounds in either order. -/
theorem bracket_reversed (apart : Scalar.Apart a b) (target : R) :
    p.bracket b a target = p.bracket a b target := by
  unfold bracket
  rw [apart.least_comm, apart.greatest_comm]

theorem find_reversed (apart : Scalar.Apart a b) : p.find b a = p.find a b := by
  unfold find
  rw [p.bracket_reversed apart]

theorem root_reversed (apart : Scalar.Apart a b) (target : R) :
    p.root b a target = p.root a b target := by
  unfold root
  rw [p.bracket_reversed apart]

end Problem

end

/-! ## Integrals -/

namespace Problem

section

variable {R E : Type} {m : Type → Type} [Scalar R] [Monad m] [MonadExceptOf CalcError m]

/-- The size of an area over an ascending interval. -/
def areaSize (p : Problem R E m) (rule : R → R → MethodM R E m R) (left right : R) :
    MethodM R E m R := do
  if right - left ≤ 1e-14 * (Scalar.abs left + Scalar.abs right) then
    return (right - left) * (← p.value ((left + right) / 2.0))
  else rule left right

/-- An integral is the size over the ascending interval, with a sign. -/
theorem signedIntegral_eq [LawfulMonad m] [Exponent E] [Narrowing R E] (p : Problem R E m)
    (rule : R → R → MethodM R E m R) (start stop : R) :
    p.signedIntegral rule start stop =
      if stop < start then p.areaSize rule stop start >>= fun size => p.withAreaUnit (size * -1)
      else p.areaSize rule start stop >>= fun size => p.withAreaUnit (size * 1) := by
  unfold signedIntegral areaSize
  by_cases descending : stop < start
  all_goals
    simp only [descending, if_true, if_false]
    split
    · simp only [bind_assoc, pure_bind]
    · rfl

end

noncomputable section

variable {E : Type} {m : Type → Type} [Monad m]

/-- An interval without length has no area. -/
theorem areaSize_self [MonadExceptOf CalcError m] (p : Problem ℝ E m)
    (rule : ℝ → ℝ → MethodM ℝ E m ℝ) (x : ℝ) :
    p.areaSize rule x x = p.value ((x + x) / 2.0) >>= fun _ => pure 0 := by
  have short : x - x ≤ 1e-14 * (|x| + |x|) := by
    rw [sub_self]
    positivity
  unfold areaSize
  refine (if_pos short).trans (bind_congr fun y => ?_)
  rw [sub_self]
  exact congrArg pure (zero_mul y)

variable [LawfulMonad m] [Exponent E] [Narrowing ℝ E] (p : Problem ℝ E m)

/-- The unit of an area does not depend on its sign. -/
theorem withAreaUnit_neg (area : ℝ) :
    p.withAreaUnit (-area) = Neg.neg <$> p.withAreaUnit area := by
  unfold withAreaUnit
  rw [map_bind]
  refine bind_congr fun unit => ?_
  split
  · exact (map_pure _ _).symm
  · rw [map_bind]
    exact bind_congr fun _ => (map_pure _ _).symm
  · rw [map_bind]
    refine bind_congr fun _ => ?_
    rw [map_pure]
    exact congrArg pure (neg_mul _ _)

variable [MonadExceptOf CalcError m]

/-- An integral from `stop` to `start` is that from `start` to `stop` with the other sign. -/
theorem signedIntegral_reversed (rule : ℝ → ℝ → MethodM ℝ E m ℝ) (start stop : ℝ) :
    p.signedIntegral rule stop start = Neg.neg <$> p.signedIntegral rule start stop := by
  have negated (size : ℝ) :
      p.withAreaUnit (size * -1) = Neg.neg <$> p.withAreaUnit (size * 1) := by
    rw [← withAreaUnit_neg, mul_neg]
  rw [signedIntegral_eq, signedIntegral_eq]
  rcases lt_trichotomy start stop with less | rfl | more
  · rw [if_pos less, if_neg less.not_gt, map_bind]
    exact bind_congr negated
  · -- equal bounds do not descend in either order, but there the area is zero
    rw [if_neg (lt_irrefl _), areaSize_self, bind_assoc, map_bind]
    refine bind_congr fun _ => ?_
    rw [pure_bind, ← withAreaUnit_neg, zero_mul, neg_zero]
  · rw [if_neg more.not_gt, if_pos more, map_bind]
    refine bind_congr fun size => ?_
    rw [← withAreaUnit_neg, mul_neg, neg_neg]

end

/-! ## Extreme values -/

noncomputable section

variable {E : Type} {m : Type → Type} [Monad m] [MonadExceptOf CalcError m] (p : Problem ℝ E m)
  {start stop : ℝ}

/-- A section search does nothing in an interval that is not longer than its limit. -/
theorem sectionFrom_of_short (isMinimum : Bool) (level limit : ℝ) (steps : Nat) (c : Section ℝ)
    (short : c.right - c.left ≤ limit) :
    p.sectionFrom isMinimum level steps limit c = pure c := by
  cases steps with
  | zero => rfl
  | succ steps =>
    have stops : c.isShort level limit = true := by
      unfold Section.isShort
      rw [decide_eq_false short.not_gt]
      rfl
    rw [sectionFrom_succ, if_pos stops]

/-- The search for an extreme value does nothing in an interval that does not ascend. -/
theorem extremeValue_descending [LawfulMonad m] (precise : 0 ≤ p.precision) (isMinimum : Bool)
    (descending : stop ≤ start) :
    p.extremeValue isMinimum start stop =
      p.value (stop - goldenRatio * (stop - start)) >>= fun _ =>
        p.value (start + goldenRatio * (stop - start)) >>= fun _ => p.value start := by
  have limit : 0 ≤ p.firstLimit start stop := by
    have sum : 0 ≤ |stop - goldenRatio * (stop - start)| + |start + goldenRatio * (stop - start)| :=
      add_nonneg (abs_nonneg _) (abs_nonneg _)
    exact div_nonneg (mul_nonneg precise sum) (by norm_num)
  rw [extremeValue_eq]
  refine bind_congr fun lower => bind_congr fun upper => ?_
  -- no step is made, so the left end was never moved
  rw [sectionFrom_of_short, pure_bind, Section.answer_of_left rfl]
  exact (sub_nonpos.2 descending).trans limit

theorem apart_of_ne {a b : ℝ} (other : a ≠ b) : Scalar.Apart a b :=
  ⟨rfl, rfl, (lt_or_gt_of_ne other).imp (fun less => ⟨less, less.not_gt⟩)
    fun more => ⟨more, more.not_gt⟩⟩

/-- With the bounds in the other order, roots are the same, areas and integrals have the other sign,
and the search for an extreme value takes the value at the first bound when this is the larger
one. -/
theorem bounds_reversed [LawfulMonad m] [Exponent E] [Narrowing ℝ E] (a b target : ℝ)
    (table : List (List (QuadratureNode ℝ))) :
    p.find b a = p.find a b ∧ p.root b a target = p.root a b target ∧
    p.area b a = Neg.neg <$> p.area a b ∧
    p.integral table b a = Neg.neg <$> p.integral table a b ∧
    (0 ≤ p.precision → a ≤ b → ∀ isMinimum, p.extremeValue isMinimum b a =
      p.value (a - goldenRatio * (a - b)) >>= fun _ =>
        p.value (b + goldenRatio * (a - b)) >>= fun _ => p.value b) := by
  refine ⟨?_, ?_, p.signedIntegral_reversed _ a b, p.signedIntegral_reversed _ a b,
    fun precise ascending isMinimum => p.extremeValue_descending precise isMinimum ascending⟩
  all_goals
    rcases eq_or_ne a b with rfl | other
  · rfl
  · exact p.find_reversed (apart_of_ne other)
  · rfl
  · exact p.root_reversed (apart_of_ne other) target

/-- The identity between 0 and 1. -/
theorem bounds_reversed_identity :
    LawfulMonad SessionM ∧ identity.find 1 0 = identity.find 0 1 ∧
      identity.area 1 0 = Neg.neg <$> identity.area 0 1 := by
  obtain ⟨find, -, area, -⟩ := identity.bounds_reversed 0 1 0 []
  exact ⟨inferInstance, find, area⟩

end

end Problem

end UnitCalc

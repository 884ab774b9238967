/-
# Areas of polynomials in exact arithmetic

The seven point rule is exact on polynomials whose degree is at most nine. It is enough to see this
for the powers on the interval from −1 to 1: there the squares of the inner points are rational, and
odd powers cancel. An exact rule does not depend on how an interval is cut into parts, so neither
the error test nor its tolerance matter for the area of such a polynomial.

## Main definitions

* `Problem.lobattoOf`: the points of an interval with the values of a function there.
* `Problem.sevenPoints`: the seven point rule.

## Main results

* `Problem.sevenPoints_polynomial`: the rule is exact.
* `Problem.reaches_lobattoPart`: where the rule is exact, so is the adaptive one.
* `Problem.area_polynomial`: the area is the integral.
-/

import Mathlib.Algebra.Polynomial.Eval.Degree
import Mathlib.Analysis.Convex.Basic
import Mathlib.Analysis.SpecialFunctions.Integrals.Basic
import Mathlib.Topology.Algebra.Polynomial
import UnitCalc.Proofs.Method.Computed
import UnitCalc.Proofs.Method.Reversed

noncomputable section

namespace UnitCalc

open SessionM (outcome)
open Polynomial (C X)
open Set (uIcc)

namespace Problem

variable {E : Type} {p : Problem ℝ E SessionM} {f F : ℝ → ℝ} {points : Set ℝ} {a b : ℝ}

/-! ## The seven point rule -/

/-- The points of an interval with the values of a function there, and both rules. -/
def lobattoOf (f : ℝ → ℝ) (a b : ℝ) : LobattoNodes ℝ :=
  let alpha := √(2.0 / 3.0)
  let beta := √(1 / 5.0)
  let h := (b - a) / 2.0
  let c := (a + b) / 2.0
  let points := [a, c - alpha * h, c - beta * h, c, c + beta * h, c + alpha * h, b]
  { points := points
    values := points.map f
    seven := h * (1 / 1470.0) * (77.0 * (f a + f b) +
      432.0 * (f (c - alpha * h) + f (c + alpha * h)) +
      625.0 * (f (c - beta * h) + f (c + beta * h)) + 672.0 * f c)
    four := h * (1 / 6.0) * (f a + f b + 5.0 * (f (c - beta * h) + f (c + beta * h))) }

/-- The seven point rule. -/
def sevenPoints (f : ℝ → ℝ) (a b : ℝ) : ℝ :=
  (lobattoOf f a b).seven

/-- The rule between −1 and 1. -/
theorem sevenPoints_unit (f : ℝ → ℝ) :
    sevenPoints f (-1) 1 = 1 / 1470 * (77 * (f (-1) + f 1) + 432 * (f (-√(2 / 3)) + f √(2 / 3)) +
      625 * (f (-√(1 / 5)) + f √(1 / 5)) + 672 * f 0) := by
  unfold sevenPoints lobattoOf
  norm_num

/-- The rule on an interval is that between −1 and 1. -/
theorem sevenPoints_eq (f : ℝ → ℝ) (a b : ℝ) :
    sevenPoints f a b =
      (b - a) / 2 * sevenPoints (fun t => f ((b - a) / 2 * t + (a + b) / 2)) (-1) 1 := by
  have ends : (b - a) / 2 * -1 + (a + b) / 2 = a ∧ (b - a) / 2 * 1 + (a + b) / 2 = b := by
    constructor <;> ring
  have lower (k : ℝ) : (b - a) / 2 * -k + (a + b) / 2 = (a + b) / 2 - k * ((b - a) / 2) := by
    ring
  have upper (k : ℝ) : (b - a) / 2 * k + (a + b) / 2 = (a + b) / 2 + k * ((b - a) / 2) := by
    ring
  rw [sevenPoints_unit]
  simp only [ends, lower, upper, sevenPoints, lobattoOf]
  norm_num
  ring

/-- The rule is exact on powers. -/
theorem sevenPoints_pow {n : ℕ} (small : n < 10) :
    sevenPoints (· ^ n) (-1) 1 = ∫ t in (-1 : ℝ)..1, t ^ n := by
  have outer : √(2 / 3) ^ 2 = (2 / 3 : ℝ) := Real.sq_sqrt (by norm_num)
  have inner : √(1 / 5) ^ 2 = (1 / 5 : ℝ) := Real.sq_sqrt (by norm_num)
  rw [integral_pow, sevenPoints_unit]
  obtain ⟨k, even | odd⟩ := n.even_or_odd'
  -- An even power is a power of the squares, which are rational.
  · have squared (x : ℝ) : (-x) ^ n = (x ^ 2) ^ k ∧ x ^ n = (x ^ 2) ^ k := by
      rw [even, pow_mul, pow_mul, neg_sq]
      exact ⟨rfl, rfl⟩
    simp only [(squared _).1, (squared _).2, outer, inner]
    have bound : k < 5 := by omega
    subst even
    interval_cases k <;> norm_num
  -- The points of an odd power cancel each other.
  · have cancelled (x : ℝ) : (-x) ^ n + x ^ n = 0 := by
      rw [Odd.neg_pow ⟨k, odd⟩, neg_add_cancel]
    have even : (-1 : ℝ) ^ (n + 1) = 1 := Even.neg_one_pow ⟨k + 1, by omega⟩
    have zero : (0 : ℝ) ^ n = 0 := zero_pow (by omega)
    simp only [cancelled, even, zero]
    norm_num

/-- The rule is exact on polynomials between −1 and 1. -/
theorem sevenPoints_polynomial_unit {Q : Polynomial ℝ} (small : Q.natDegree < 10) :
    sevenPoints Q.eval (-1) 1 = ∫ t in (-1 : ℝ)..1, Q.eval t := by
  have expanded (t : ℝ) : Q.eval t = ∑ n ∈ Finset.range 10, Q.coeff n * t ^ n :=
    Q.eval_eq_sum_range' small t
  have linear : sevenPoints Q.eval (-1) 1 =
      ∑ n ∈ Finset.range 10, Q.coeff n * sevenPoints (· ^ n) (-1) 1 := by
    simp only [sevenPoints_unit, expanded, Finset.sum_range_succ, Finset.sum_range_zero]
    ring
  have continuous (n : ℕ) : Continuous fun t : ℝ => Q.coeff n * t ^ n :=
    (continuous_pow n).const_mul _
  rw [linear]
  simp only [expanded]
  rw [intervalIntegral.integral_finsetSum fun n _ => (continuous n).intervalIntegrable _ _]
  refine Finset.sum_congr rfl fun n member => ?_
  rw [intervalIntegral.integral_const_mul, sevenPoints_pow (Finset.mem_range.1 member)]

/-- The rule is exact on polynomials. -/
theorem sevenPoints_polynomial {P : Polynomial ℝ} (small : P.natDegree < 10) (a b : ℝ) :
    sevenPoints P.eval a b = ∫ x in a..b, P.eval x := by
  set h := (b - a) / 2 with half
  set c := (a + b) / 2 with centre
  let Q := P.comp (C h * X + C c)
  have composed : (fun t => P.eval (h * t + c)) = Q.eval := by
    funext t
    simp [Q]
  have degree : Q.natDegree < 10 :=
    calc Q.natDegree
      _ ≤ P.natDegree * (C h * X + C c).natDegree := Polynomial.natDegree_comp_le
      _ ≤ P.natDegree * 1 := Nat.mul_le_mul_left _ Polynomial.natDegree_linear_le
      _ < 10 := by omega
  calc sevenPoints P.eval a b
    _ = h * sevenPoints (fun t => P.eval (h * t + c)) (-1) 1 := sevenPoints_eq P.eval a b
    _ = h * ∫ t in (-1 : ℝ)..1, P.eval (h * t + c) := by
      rw [composed, sevenPoints_polynomial_unit degree]
    _ = ∫ x in h * -1 + c..h * 1 + c, P.eval x :=
      intervalIntegral.mul_integral_comp_mul_add (f := P.eval) h c
    _ = ∫ x in a..b, P.eval x := by
      congr 1 <;> rw [half, centre] <;> ring

/-! ## The adaptive rule -/

/-- The points of the rule do not leave the interval. -/
theorem points_lobattoOf (convex : Convex ℝ points) (first : a ∈ points)
    (second : b ∈ points) : ∀ x ∈ (lobattoOf f a b).points, x ∈ points := by
  have inner {k : ℝ} (small : |k| ≤ 1) : (a + b) / 2.0 + k * ((b - a) / 2.0) ∈ points := by
    obtain ⟨above, below⟩ := abs_le.1 small
    have combined : (1 - k) / 2 * a + (1 + k) / 2 * b ∈ points :=
      convex first second (by linarith) (by linarith) (by ring)
    convert combined using 1
    norm_num
    ring
  have pair {x : ℝ} (small : x ≤ 1) :
      (a + b) / 2.0 - √x * ((b - a) / 2.0) ∈ points ∧
        (a + b) / 2.0 + √x * ((b - a) / 2.0) ∈ points := by
    have bound : |√x| ≤ 1 := by
      rw [abs_of_nonneg (Real.sqrt_nonneg x)]
      exact Real.sqrt_le_one.2 small
    rw [sub_eq_add_neg, ← neg_mul]
    exact ⟨inner ((abs_neg _).trans_le bound), inner bound⟩
  have outer := pair (show (2.0 / 3.0 : ℝ) ≤ 1 by norm_num)
  have inner := pair (show (1 / 5.0 : ℝ) ≤ 1 by norm_num)
  have middle : (a + b) / 2.0 ∈ points := by
    simpa using (pair zero_le_one).1
  simp only [lobattoOf, List.forall_mem_cons]
  exact ⟨first, outer.1, inner.1, middle, inner.2, outer.2, second, nofun⟩

/-- The values at the inner points. -/
theorem reaches_lobattoNodes (convex : Convex ℝ points) (first : a ∈ points)
    (second : b ∈ points) :
    ∃ visited, p.Reaches f points (p.lobattoNodes a b (f a) (f b)) visited
      (pure (lobattoOf f a b)) := by
  have within := points_lobattoOf (f := f) convex first second
  simp only [lobattoOf, List.forall_mem_cons] at within
  obtain ⟨-, fourth, fifth, middle, sixth, seventh, -⟩ := within
  exact ⟨_, ((reaches_value fourth).bind _).trans <| ((reaches_value fifth).bind _).trans <|
    ((reaches_value middle).bind _).trans <| ((reaches_value sixth).bind _).trans <|
    (reaches_value seventh).bind _⟩

/-- A rule that is exact on every part is exact on the sum of the parts. -/
theorem reaches_sumParts (convex : Convex ℝ points) (first : a ∈ points) (second : b ∈ points)
    {rule : ℝ → ℝ → ℝ → ℝ → MethodM ℝ E SessionM ℝ}
    (exact : ∀ a ∈ points, ∀ b ∈ points, ∃ visited,
      p.Reaches f points (rule a b (f a) (f b)) visited (pure (F b - F a))) :
    ∃ visited, p.Reaches f points (sumParts rule (lobattoOf f a b)) visited
      (pure (F b - F a)) := by
  have within := points_lobattoOf (f := f) convex first second
  simp only [lobattoOf, List.forall_mem_cons] at within
  obtain ⟨-, fourth, fifth, middle, sixth, seventh, -⟩ := within
  obtain ⟨_, part₁⟩ := exact _ first _ fourth
  obtain ⟨_, part₂⟩ := exact _ fourth _ fifth
  obtain ⟨_, part₃⟩ := exact _ fifth _ middle
  obtain ⟨_, part₄⟩ := exact _ middle _ sixth
  obtain ⟨_, part₅⟩ := exact _ sixth _ seventh
  obtain ⟨_, part₆⟩ := exact _ seventh _ second
  refine ⟨_, (part₁.bind _).trans <| (part₂.bind _).trans <| (part₃.bind _).trans <|
    (part₄.bind _).trans <| (part₅.bind _).trans <| (part₆.bind _).trans_nil ?_⟩
  convert Reaches.refl _ using 2
  ring

/-- Where the rule is exact, so is the adaptive one, whatever parts it cuts an interval into. The
induction is on the cuts that are left. -/
theorem reaches_lobattoPart (convex : Convex ℝ points)
    (exact : ∀ a b, sevenPoints f a b = F b - F a) (tolerance : ℝ) (depth : ℕ)
    (first : a ∈ points) (second : b ∈ points) :
    ∃ visited, p.Reaches f points (p.lobattoPart tolerance depth a b (f a) (f b)) visited
      (pure (F b - F a)) := by
  induction depth generalizing a b with
  | zero =>
    obtain ⟨_, nodes⟩ := reaches_lobattoNodes convex first second
    refine ⟨_, (nodes.bind _).trans_nil ?_⟩
    rw [← exact]
    exact .refl _
  | succ depth ih =>
    obtain ⟨_, nodes⟩ := reaches_lobattoNodes convex first second
    obtain ⟨_, parts⟩ := reaches_sumParts (F := F) convex first second
      fun a first b second => ih first second
    have rest : ∃ visited, p.Reaches f points
        (if Scalar.abs ((lobattoOf f a b).seven - (lobattoOf f a b).four) < tolerance then
          pure (lobattoOf f a b).seven
        else sumParts (p.lobattoPart tolerance depth) (lobattoOf f a b)) visited
        (pure (F b - F a)) := by
      split
      · rw [← exact]
        exact ⟨_, .refl _⟩
      · exact ⟨_, parts⟩
    obtain ⟨_, rest⟩ := rest
    exact ⟨_, (nodes.bind _).trans rest⟩

theorem reaches_lobatto (convex : Convex ℝ points) (exact : ∀ a b, sevenPoints f a b = F b - F a)
    (first : a ∈ points) (second : b ∈ points) :
    ∃ visited, p.Reaches f points (p.lobatto a b) visited (pure (F b - F a)) := by
  obtain ⟨_, nodes⟩ := reaches_lobattoNodes (f := f) (p := p) convex first second
  have part (tolerance : ℝ) := reaches_sumParts (F := F) convex first second
    fun a first b second => reaches_lobattoPart (p := p) convex exact tolerance maxCuts first second
  obtain ⟨_, parts⟩ := part _
  exact ⟨_, ((reaches_value first).bind _).trans <| ((reaches_value second).bind _).trans <|
    (nodes.bind _).trans parts⟩

/-- The adaptive rule is used in every interval that is long enough. -/
theorem areaSize_of_wide (rule : ℝ → ℝ → MethodM ℝ E SessionM ℝ)
    (wide : 1e-14 * (|a| + |b|) < b - a) : p.areaSize rule a b = rule a b :=
  if_neg wide.not_ge

variable [Exponent E] [Narrowing ℝ E]

theorem reaches_withAreaUnit (unitless : p.unit = none) (area : ℝ) :
    p.Reaches f points (p.withAreaUnit area) [] (pure area) := by
  intro u s computes
  refine ⟨u, s, [], ?_, .nil s, rfl, computes⟩
  unfold withAreaUnit
  rw [unitless]
  rfl

/-- The area of a function between two bounds in either order. -/
theorem reaches_area (unitless : p.unit = none) (convex : Convex ℝ points)
    (exact : ∀ a b, sevenPoints f a b = F b - F a) (wide : 1e-14 * (|a| + |b|) < |b - a|)
    (first : a ∈ points) (second : b ∈ points) :
    ∃ visited, p.Reaches f points (p.area a b) visited (pure (F b - F a)) := by
  unfold area
  rw [signedIntegral_eq]
  by_cases descending : b < a
  · rw [abs_of_neg (sub_neg.2 descending), neg_sub, add_comm] at wide
    obtain ⟨_, size⟩ := reaches_lobatto (p := p) convex exact second first
    rw [if_pos descending, areaSize_of_wide _ wide]
    refine ⟨_, (size.bind _).trans_nil ?_⟩
    convert reaches_withAreaUnit unitless _ using 2
    ring
  · rw [abs_of_nonneg (sub_nonneg.2 (not_lt.1 descending))] at wide
    obtain ⟨_, size⟩ := reaches_lobatto (p := p) convex exact first second
    rw [if_neg descending, areaSize_of_wide _ wide]
    refine ⟨_, (size.bind _).trans_nil ?_⟩
    convert reaches_withAreaUnit unitless _ using 2
    ring

/-- The area of a polynomial whose degree is at most nine is its integral, with the sign that the
order of the bounds asks for. Neither the precision nor the parts that the interval is cut into
matter. -/
theorem area_polynomial {P : Polynomial ℝ} (degree : P.natDegree ≤ 9) (unitless : p.unit = none)
    {start stop : ℝ} (wide : 1e-14 * (|start| + |stop|) < |stop - start|) {s : Session}
    (computes : p.ComputesOn P.eval (uIcc start stop) s) (u : Option (MeasureUnit ℝ E)) :
    ∃ u' s' log, outcome ((p.area start stop).run u) s =
        (.ok (∫ x in start..stop, P.eval x, u'), s') ∧ p.Probes s log s' := by
  have integrable (a b : ℝ) : IntervalIntegrable P.eval MeasureTheory.volume a b :=
    P.continuous.intervalIntegrable a b
  have split (a b : ℝ) :
      ∫ x in a..b, P.eval x = (∫ x in (0)..b, P.eval x) - ∫ x in (0)..a, P.eval x :=
    (intervalIntegral.integral_interval_sub_left (integrable 0 b) (integrable 0 a)).symm
  obtain ⟨_, reached⟩ := reaches_area (F := fun a => ∫ x in (0)..a, P.eval x) unitless
    (convex_uIcc start stop)
    (fun a b => (sevenPoints_polynomial (Nat.lt_succ_of_le degree) a b).trans (split a b)) wide
    Set.left_mem_uIcc Set.right_mem_uIcc
  obtain ⟨u', s', log, ended, probes, -⟩ := reached.exists_outcome computes u
  rw [split start stop]
  exact ⟨u', s', log, ended, probes⟩

/-- The ninth power, from 1 down to 0. -/
theorem area_ninth_power :
    let power := (X ^ 9 : Polynomial ℝ).eval
    (ofFunction power (1 / 100)).ComputesOn power (uIcc 1 0) (.start {} ⟨1, 1⟩) ∧
    ∃ u' s', outcome (((ofFunction power (1 / 100)).area 1 0).run none) (.start {} ⟨1, 1⟩) =
      (.ok (-(1 / 10), u'), s') := by
  intro power
  have computes := computesOn_ofFunction power (1 / 100) (uIcc 1 0) (.start {} ⟨1, 1⟩)
  have degree : (X ^ 9 : Polynomial ℝ).natDegree ≤ 9 := Polynomial.natDegree_X_pow_le 9
  have wide : 1e-14 * (|1| + |0|) < |(0 : ℝ) - 1| := by norm_num
  have integral : ∫ x in (1 : ℝ)..0, (X ^ 9 : Polynomial ℝ).eval x = -(1 / 10) := by
    simp only [Polynomial.eval_pow, Polynomial.eval_X, integral_pow]
    norm_num
  obtain ⟨u', s', log, ended, -⟩ := area_polynomial degree rfl wide computes none
  rw [integral] at ended
  exact ⟨computes, u', s', ended⟩

end Problem

end UnitCalc

end

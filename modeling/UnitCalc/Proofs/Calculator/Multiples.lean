/-
# Greatest common divisors and least common multiples

Both are folds over the magnitudes of the arguments. That of the greatest common divisor is the one
of all magnitudes in any order. That of the least common multiple ends early when a step reaches the
limit, so it does not see a zero behind this step, although with a zero the least common multiple is
zero. Without zeros it never matters where a step reaches the limit, because the result of the whole
list is then beyond the limit as well.

## Main definitions

* `Integers.beforeZero`: the members of a list in front of the first zero.
* `Quantity.IsInteger` and `Quantity.magnitude`: plain integers of the 64 bit range.

## Main results

* `Integers.gcd_eq` and `Integers.lcmList?_eq`: what the folds compute.
* `Calculator.gcd_lcm_integers`: the functions of the calculator.
* `Quantity.isInteger_intCast`: the integers of exact arithmetic.
-/

import Mathlib.Algebra.GCDMonoid.Multiset
import Mathlib.Algebra.GCDMonoid.Nat
import Mathlib.Data.List.TakeWhile
import UnitCalc.Calculator.Evaluation
import UnitCalc.Proofs.Calculator.Exact

namespace UnitCalc

/-! ## The folds -/

namespace Integers

variable {a b : ℕ} {ns : List ℕ}

/-- The greatest common divisor of a list is that of its members in any order. -/
theorem gcd_eq (ns : List ℕ) : gcd ns = (ns : Multiset ℕ).gcd := by
  have fold (n : ℕ) (ns : List ℕ) : ns.foldl Nat.gcd n = Nat.gcd n (ns : Multiset ℕ).gcd := by
    induction ns generalizing n with
    | nil => exact (Nat.gcd_zero_right n).symm
    | cons m ns ih =>
      rw [List.foldl_cons, ih, Nat.gcd_assoc, ← Multiset.cons_coe, Multiset.gcd_cons,
        gcd_eq_nat_gcd]
  cases ns with
  | nil => rfl
  | cons n ns =>
    rw [← Multiset.cons_coe, Multiset.gcd_cons, gcd_eq_nat_gcd]
    exact fold n ns

theorem lcm?_zero_left (b : ℕ) : lcm? 0 b = some 0 :=
  rfl

theorem lcm?_zero_right (a : ℕ) : lcm? a 0 = some 0 := by
  unfold lcm?
  rw [beq_self_eq_true, Bool.or_true]
  rfl

/-- The step of a fold without zeros. -/
theorem lcm?_of_ne_zero (first : a ≠ 0) (second : b ≠ 0) :
    lcm? a b = if limit ≤ Nat.lcm a b then none else some (Nat.lcm a b) := by
  have multiple : a / Nat.gcd a b * b = Nat.lcm a b :=
    Nat.div_mul_right_comm (Nat.gcd_dvd_left a b) b
  unfold lcm?
  rw [beq_false_of_ne first, beq_false_of_ne second, multiple]
  by_cases large : limit ≤ Nat.lcm a b
  · rw [if_pos large]
    exact if_neg large.not_gt
  · rw [if_neg large]
    exact if_pos (not_le.1 large)

/-- A fold does not leave zero. -/
theorem foldlM_lcm?_zero (ns : List ℕ) : ns.foldlM lcm? 0 = some 0 := by
  induction ns with
  | nil => rfl
  | cons n ns ih =>
    rw [List.foldlM_cons, lcm?_zero_left]
    exact ih

/-- The members in front of the first zero, which is where a fold stops to grow. -/
def beforeZero (ns : List ℕ) : List ℕ :=
  ns.takeWhile (· ≠ 0)

theorem beforeZero_eq_self (nonzero : 0 ∉ ns) : beforeZero ns = ns := by
  apply List.takeWhile_eq_self_iff.2
  intro n member
  rw [decide_eq_true_iff]
  rintro rfl
  exact nonzero member

theorem lcm_beforeZero_ne_zero (ns : List ℕ) : (beforeZero ns : Multiset ℕ).lcm ≠ 0 := by
  rw [Ne, Multiset.lcm_eq_zero_iff]
  intro zero
  have nonzero := List.mem_takeWhile_imp (Multiset.mem_coe.1 zero)
  simp at nonzero

/-- The least common multiple of a fold that has not met a zero yet. -/
theorem foldlM_lcm? (small : a < limit) (nonzero : a ≠ 0) (ns : List ℕ) :
    ns.foldlM lcm? a =
      if limit ≤ Nat.lcm a (beforeZero ns : Multiset ℕ).lcm then none
      else some (Nat.lcm a (ns : Multiset ℕ).lcm) := by
  induction ns generalizing a with
  | nil =>
    have single : Nat.lcm a (beforeZero [] : Multiset ℕ).lcm = a := Nat.lcm_one_right a
    rw [single, if_neg small.not_ge]
    exact congrArg some (Nat.lcm_one_right a).symm
  | cons n ns ih =>
    rw [List.foldlM_cons, ← Multiset.cons_coe, Multiset.lcm_cons, lcm_eq_nat_lcm]
    by_cases zero : n = 0
    · subst zero
      have single : Nat.lcm a (beforeZero (0 :: ns) : Multiset ℕ).lcm = a := Nat.lcm_one_right a
      rw [single, if_neg small.not_ge, lcm?_zero_right, Nat.lcm_zero_left, Nat.lcm_zero_right]
      exact foldlM_lcm?_zero ns
    · have front : beforeZero (n :: ns) = n :: beforeZero ns :=
        List.takeWhile_cons_of_pos (decide_eq_true zero)
      rw [front, ← Multiset.cons_coe, Multiset.lcm_cons, lcm_eq_nat_lcm, ← Nat.lcm_assoc,
        ← Nat.lcm_assoc, lcm?_of_ne_zero nonzero zero]
      by_cases large : limit ≤ Nat.lcm a n
      · -- the least common multiple of more numbers is a multiple of this one
        have larger : limit ≤ Nat.lcm (Nat.lcm a n) (beforeZero ns : Multiset ℕ).lcm :=
          large.trans (Nat.le_of_dvd (Nat.lcm_pos (Nat.lcm_pos (Nat.pos_of_ne_zero nonzero)
            (Nat.pos_of_ne_zero zero)) (Nat.pos_of_ne_zero (lcm_beforeZero_ne_zero ns)))
            (Nat.dvd_lcm_left _ _))
        rw [if_pos large, if_pos larger]
        rfl
      · rw [if_neg large]
        exact ih (not_le.1 large) (Nat.lcm_ne_zero nonzero zero)

/-- A list has a least common multiple unless the members in front of the first zero have none below
the limit. -/
theorem lcmList?_eq (small : ∀ n ∈ ns, n < limit) :
    lcmList? ns =
      if limit ≤ (beforeZero ns : Multiset ℕ).lcm then none else some (ns : Multiset ℕ).lcm := by
  cases ns with
  | nil => rfl
  | cons n ns =>
    rw [← Multiset.cons_coe, Multiset.lcm_cons, lcm_eq_nat_lcm]
    by_cases zero : n = 0
    · subst zero
      have one : ¬ limit ≤ (beforeZero (0 :: ns) : Multiset ℕ).lcm := by
        show ¬ limit ≤ 1
        decide
      rw [if_neg one, Nat.lcm_zero_left]
      exact foldlM_lcm?_zero ns
    · have front : beforeZero (n :: ns) = n :: beforeZero ns :=
        List.takeWhile_cons_of_pos (decide_eq_true zero)
      rw [front, ← Multiset.cons_coe, Multiset.lcm_cons, lcm_eq_nat_lcm]
      exact foldlM_lcm? (small n List.mem_cons_self) zero ns

/-- A zero does not help a fold that is already beyond the limit. -/
example : lcmList? [9007199254740991, 9007199254740989, 9007199254740987, 0] = none ∧
    lcmList? [0, 9007199254740991, 9007199254740989, 9007199254740987] = some 0 := by
  decide

end Integers

/-! ## The functions of the calculator -/

variable {R E : Type} [Scalar R]

namespace Quantity

/-- The magnitude of the integer that a quantity is. -/
def magnitude (q : Quantity R E) : ℕ :=
  (Scalar.toInt q.re).natAbs

/-- A plain integer of the 64 bit range. -/
structure IsInteger (q : Quantity R E) : Prop where
  plain : q.unit = none
  integral : Scalar.isIntegral q.re = true
  lower : -Calculator.integerLimit ≤ q.re
  upper : q.re < Calculator.integerLimit
  magnitude_le : q.magnitude ≤ 9223372036854775808

end Quantity

namespace Calculator

open Quantity (magnitude)

variable {args : List (Quantity R E)}

/-- The magnitudes of the 64 bit range are far below the limit. -/
theorem magnitude_lt_limit (integers : ∀ q ∈ args, q.IsInteger) :
    ∀ n ∈ args.map magnitude, n < Integers.limit := by
  intro n mapped
  obtain ⟨q, member, rfl⟩ := List.mem_map.1 mapped
  have limit : 9223372036854775808 < Integers.limit := by decide
  exact (integers q member).magnitude_le.trans_lt limit

variable [Exponent E]

theorem magnitudes_of_integers (name : String) (integers : ∀ q ∈ args, q.IsInteger) :
    magnitudes name args = .ok (args.map magnitude) := by
  unfold magnitudes
  induction args with
  | nil => rfl
  | cons q args ih =>
    have integer := integers q List.mem_cons_self
    have number : unitless name q = .ok q.num := by
      unfold unitless
      rw [integer.plain]
    have within : (decide (-integerLimit ≤ q.num.re) && decide (q.num.re < integerLimit)) = true :=
      Bool.and_eq_true_iff.2 ⟨decide_eq_true integer.lower, decide_eq_true integer.upper⟩
    have integral : Scalar.isIntegral q.num.re = true := integer.integral
    rw [List.mapM_cons, ih fun r member => integers r (List.mem_cons_of_mem q member), number]
    simp only [bind, Except.bind, integral, within]
    rfl

variable [Narrowing R E] (c : Calculator R)

theorem gcd_of_integers (nonempty : args ≠ []) (integers : ∀ q ∈ args, q.IsInteger) :
    c.multiFunction .gcd args =
      .ok (.real (Scalar.ofInt (args.map magnitude : Multiset ℕ).gcd)) := by
  obtain ⟨first, rest, rfl⟩ := List.exists_cons_of_ne_nil nonempty
  unfold multiFunction
  dsimp only
  rw [magnitudes_of_integers _ integers, ← Integers.gcd_eq]
  rfl

theorem lcm_of_integers (nonempty : args ≠ []) (integers : ∀ q ∈ args, q.IsInteger) :
    c.multiFunction .lcm args =
      .ok (.real (if Integers.limit ≤ (Integers.beforeZero (args.map magnitude) : Multiset ℕ).lcm
        then Scalar.infinity
        else Scalar.ofInt (args.map magnitude : Multiset ℕ).lcm)) := by
  have fold := Integers.lcmList?_eq (magnitude_lt_limit integers)
  obtain ⟨first, rest, rfl⟩ := List.exists_cons_of_ne_nil nonempty
  unfold multiFunction
  dsimp only
  rw [magnitudes_of_integers _ integers]
  by_cases large :
      Integers.limit ≤ (Integers.beforeZero ((first :: rest).map magnitude) : Multiset ℕ).lcm
  · rw [if_pos large] at fold ⊢
    simp only [bind, Except.bind, fold]
    rfl
  · rw [if_neg large] at fold ⊢
    simp only [bind, Except.bind, fold]
    rfl

theorem lcm_of_nonzero (nonempty : args ≠ []) (integers : ∀ q ∈ args, q.IsInteger)
    (nonzero : 0 ∉ args.map magnitude) :
    c.multiFunction .lcm args =
      .ok (.real (if Integers.limit ≤ (args.map magnitude : Multiset ℕ).lcm then Scalar.infinity
        else Scalar.ofInt (args.map magnitude : Multiset ℕ).lcm)) := by
  rw [lcm_of_integers c nonempty integers, Integers.beforeZero_eq_self nonzero]

/-- The functions of plain integers. The greatest common divisor of their magnitudes does not depend
on their order. The least common multiple does not either, and is infinite exactly when it is not
below the limit, as long as there is no zero among them: with a zero it is zero, unless the integers
in front of the first zero have a least common multiple that is not below the limit. -/
theorem gcd_lcm_integers (nonempty : args ≠ []) (integers : ∀ q ∈ args, q.IsInteger) :
    c.multiFunction .gcd args =
        .ok (.real (Scalar.ofInt (args.map magnitude : Multiset ℕ).gcd)) ∧
      c.multiFunction .lcm args =
        .ok (.real (if Integers.limit ≤ (Integers.beforeZero (args.map magnitude) : Multiset ℕ).lcm
          then Scalar.infinity
          else Scalar.ofInt (args.map magnitude : Multiset ℕ).lcm)) ∧
      (0 ∉ args.map magnitude → c.multiFunction .lcm args =
        .ok (.real (if Integers.limit ≤ (args.map magnitude : Multiset ℕ).lcm then Scalar.infinity
          else Scalar.ofInt (args.map magnitude : Multiset ℕ).lcm))) ∧
      ∀ args', args'.Perm args → c.multiFunction .gcd args' = c.multiFunction .gcd args ∧
        (0 ∉ args.map magnitude → c.multiFunction .lcm args' = c.multiFunction .lcm args) := by
  refine ⟨c.gcd_of_integers nonempty integers, c.lcm_of_integers nonempty integers,
    c.lcm_of_nonzero nonempty integers, fun args' permuted => ?_⟩
  have nonempty' : args' ≠ [] := by
    rintro rfl
    exact nonempty permuted.nil_eq.symm
  have integers' : ∀ q ∈ args', q.IsInteger :=
    fun q member => integers q (permuted.mem_iff.1 member)
  have mapped := permuted.map magnitude
  have same : (args'.map magnitude : Multiset ℕ) = args.map magnitude :=
    Multiset.coe_eq_coe.2 mapped
  constructor
  · rw [c.gcd_of_integers nonempty' integers', c.gcd_of_integers nonempty integers, same]
  · intro nonzero
    have nonzero' : 0 ∉ args'.map magnitude := mt mapped.mem_iff.1 nonzero
    rw [c.lcm_of_nonzero nonempty' integers' nonzero', c.lcm_of_nonzero nonempty integers nonzero,
      same]

end Calculator

/-! ## Integers in exact arithmetic -/

noncomputable section

namespace Quantity

variable {E : Type} {n : ℤ}

theorem magnitude_intCast (lower : -9223372036854775808 ≤ n) (upper : n < 9223372036854775808) :
    (real n : Quantity ℝ E).magnitude = n.natAbs := by
  have least : min n 9223372036854775807 = n := by omega
  show (max (-9223372036854775808) (min (wholePart (n : ℝ)) 9223372036854775807)).natAbs = _
  rw [wholePart_intCast, least, max_eq_right lower]

/-- An integer of the 64 bit range is a plain integer. -/
theorem isInteger_intCast (lower : -9223372036854775808 ≤ n) (upper : n < 9223372036854775808) :
    (real n : Quantity ℝ E).IsInteger where
  plain := rfl
  integral := Scalar.isIntegral_iff.2 ⟨n, rfl⟩
  lower := by
    show -(9223372036854775808.0 : ℝ) ≤ n
    norm_num
    exact_mod_cast lower
  upper := by
    show (n : ℝ) < 9223372036854775808.0
    norm_num
    exact_mod_cast upper
  magnitude_le := by
    rw [magnitude_intCast lower upper]
    omega

end Quantity

/-- Three integers, one of which is negative. -/
theorem Calculator.gcd_lcm_three :
    let args : List (Quantity ℝ ℝ) := [.real (4 : ℤ), .real (6 : ℤ), .real (-10 : ℤ)]
    let c : Calculator ℝ := ⟨.ofMode false, .degree, false, 0⟩
    args ≠ [] ∧ (∀ q ∈ args, q.IsInteger) ∧
      c.multiFunction .gcd args = .ok (.real 2) ∧ c.multiFunction .lcm args = .ok (.real 60) := by
  intro args c
  have nonempty : args ≠ [] := List.cons_ne_nil _ _
  have integers : ∀ q ∈ args, q.IsInteger := by
    intro q member
    simp only [args, List.mem_cons, List.not_mem_nil, or_false] at member
    rcases member with rfl | rfl | rfl <;> apply Quantity.isInteger_intCast <;> norm_num
  have magnitudes : args.map Quantity.magnitude = [4, 6, 10] := by
    simp only [args, List.map_cons, List.map_nil]
    rw [Quantity.magnitude_intCast, Quantity.magnitude_intCast, Quantity.magnitude_intCast] <;>
      norm_num
  have divisor : ([4, 6, 10] : Multiset ℕ).gcd = 2 := by decide
  have multiple : ([4, 6, 10] : Multiset ℕ).lcm = 60 := by decide
  have small : ¬ Integers.limit ≤ 60 := by decide
  have exact (n : ℕ) : (Scalar.ofInt n : ℝ) = n := Int.cast_natCast n
  obtain ⟨gcd, -, lcm, -⟩ := c.gcd_lcm_integers nonempty integers
  rw [magnitudes, divisor, exact, Nat.cast_ofNat] at gcd
  rw [magnitudes, multiple, if_neg small, exact, Nat.cast_ofNat] at lcm
  exact ⟨nonempty, integers, gcd, lcm (by decide)⟩

end

end UnitCalc

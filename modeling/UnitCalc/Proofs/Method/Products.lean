/-
# The units of a product

In exact arithmetic a product of terms with units has the magnitude and the dimension of their
product, as long as it keeps track of units. It begins to do so at a first term with a unit, and
ends when the dimensions of the terms cancel: a product without unit never gets one again. The
terms behind that are multiplied by their numbers only, and their units are lost.

## Main definitions

* `UnitProduct.si`: a product in coherent units.

## Main results

* `Problem.si_complexTimes` and `complexTimes_of_none`: a product and the next term.
* `Problem.exists_kept`: the terms whose units are kept, and those whose units are lost.
* `Problem.product_amounts`: the product of a range in both modes.
-/

import UnitCalc.Proofs.Method.Terms

noncomputable section

namespace UnitCalc

open SessionM (outcome)

variable {p : Problem ℝ ℝ SessionM} {s s' : Session} {start stop : ℝ}
  {first : ℝ × Quantity ℝ ℝ} {others log : List (ℝ × Quantity ℝ ℝ)} {q : Quantity ℝ ℝ}

/-! ## Numbers in coherent units -/

/-- Factors come together in a product. -/
theorem Complex.scale_mul_scale (z w : Complex ℝ) (k l : ℝ) :
    z.scale k * w.scale l = (z * w).scale (k * l) := by
  have re : z.re * k * (w.re * l) - z.im * k * (w.im * l) =
      (z.re * w.re - z.im * w.im) * (k * l) := by ring
  have im : z.re * k * (w.im * l) + z.im * k * (w.re * l) =
      (z.re * w.im + z.im * w.re) * (k * l) := by ring
  exact Complex.ext re im

theorem Complex.scale_scale (z : Complex ℝ) (k l : ℝ) : (z.scale k).scale l = z.scale (k * l) :=
  Complex.ext (mul_assoc _ _ _) (mul_assoc _ _ _)

theorem Complex.scale_one (z : Complex ℝ) : z.scale 1 = z :=
  Complex.ext (mul_one _) (mul_one _)

theorem Quantity.si_eq (q : Quantity ℝ ℝ) : q.si = q.num.scale (unitFactor q.unit) := by
  rw [Quantity.si]
  cases q.unit with
  | none => exact (Complex.scale_one q.num).symm
  | some u => rfl

namespace Problem

/-- A product in coherent units. -/
def UnitProduct.si (t : UnitProduct (Complex ℝ) ℝ ℝ) : Complex ℝ :=
  t.product.scale (unitFactor t.unit)

/-! ## Terms -/

/-- A product that keeps track of its unit takes in the magnitude and the dimension of a term. -/
theorem si_complexTimes {t : UnitProduct (Complex ℝ) ℝ ℝ} (hasUnit : t.unit ≠ none)
    (positive : 0 < unitFactor t.unit) (positive' : 0 < unitFactor q.unit) :
    (t.complexTimes true q).si = t.si * q.si ∧
      unitDimension (t.complexTimes true q).unit =
        unitDimension t.unit * unitDimension q.unit ∧
      0 < unitFactor (t.complexTimes true q).unit := by
  -- The factor and the unit of the product count the factors and dimensions of both units.
  have counts : Counts (factorOf true t.unit q.unit) (unitFactor t.unit * unitFactor q.unit)
      (unitDimension t.unit * unitDimension q.unit) := by
    match t.unit, q.unit, hasUnit, positive, positive' with
    | some u, none, _, positive, _ => exact ⟨positive, mul_comm _ _, (Dimension.mul_none _).symm⟩
    | some u, some v, _, positive, positive' => exact MeasureUnit.counts_multiply positive positive'
  refine ⟨?_, counts.dimension, counts.positive⟩
  rw [UnitProduct.si, UnitProduct.si, Quantity.si_eq, Complex.scale_mul_scale, ← counts.factor]
  exact Complex.scale_scale _ _ _

/-- A product without unit takes in the number of a term, and stays without unit. -/
theorem complexTimes_of_none {t : UnitProduct (Complex ℝ) ℝ ℝ} (tracksUnits : Bool)
    (hasNone : t.unit = none) : t.complexTimes tracksUnits q = ⟨t.product * q.num, none⟩ := by
  have factor : factorOf tracksUnits t.unit q.unit = (1, none) := by
    rw [hasNone]
    cases tracksUnits <;> rfl
  rw [UnitProduct.complexTimes, factor]
  exact congrArg (UnitProduct.mk · none) (Complex.scale_one _)

/-- All terms are multiplied by their numbers once there is no unit. -/
theorem foldl_complexTimes_of_none (tracksUnits : Bool) (z : Complex ℝ)
    (terms : List (Quantity ℝ ℝ)) :
    terms.foldl (UnitProduct.complexTimes tracksUnits) ⟨z, none⟩ =
      ⟨(terms.map Quantity.num).foldl (· * ·) z, none⟩ := by
  induction terms generalizing z with
  | nil => rfl
  | cons q terms ih =>
    rw [List.foldl_cons, complexTimes_of_none tracksUnits rfl]
    exact ih _

/-! ## Ranges -/

/-- The magnitude of the terms whose units are kept, times the numbers of the others. -/
def siProduct (z : Complex ℝ) (kept lost : List (Quantity ℝ ℝ)) : Complex ℝ :=
  (kept.map Quantity.si ++ lost.map Quantity.num).foldl (· * ·) z

/-- The dimension of a product of terms. -/
def dimensionProduct (d : Dimension ℝ) (kept : List (Quantity ℝ ℝ)) : Dimension ℝ :=
  (kept.map fun q => unitDimension q.unit).foldl (· * ·) d

/-- The units of terms are kept up to where there is no unit any more. The induction is on the
terms, and a product without unit loses all of them. -/
theorem exists_kept {t : UnitProduct (Complex ℝ) ℝ ℝ} {terms : List (Quantity ℝ ℝ)}
    {tracksUnits : Bool} (tracked : t.unit ≠ none → tracksUnits = true)
    (positive : 0 < unitFactor t.unit) (positives : ∀ q ∈ terms, 0 < unitFactor q.unit)
    {r : UnitProduct (Complex ℝ) ℝ ℝ}
    (whole : terms.foldl (UnitProduct.complexTimes tracksUnits) t = r) :
    ∃ kept lost, terms = kept ++ lost ∧ r.si = siProduct t.si kept lost ∧
      unitDimension r.unit = dimensionProduct (unitDimension t.unit) kept ∧
      (lost ≠ [] → r.unit = none) := by
  subst whole
  induction terms generalizing t with
  | nil => exact ⟨[], [], rfl, rfl, rfl, fun lacking => absurd rfl lacking⟩
  | cons q terms ih =>
    by_cases hasNone : t.unit = none
    · have plain : t = ⟨t.si, none⟩ := by
        rw [UnitProduct.si, hasNone, unitFactor, Complex.scale_one, ← hasNone]
      have whole := foldl_complexTimes_of_none tracksUnits t.si (q :: terms)
      rw [← plain] at whole
      rw [whole, hasNone]
      exact ⟨[], q :: terms, rfl, Complex.scale_one _, rfl, fun _ => rfl⟩
    · rw [List.forall_mem_cons] at positives
      obtain rfl := tracked hasNone
      obtain ⟨si, dimension, positive⟩ := si_complexTimes hasNone positive positives.1
      obtain ⟨kept, lost, rfl, magnitude, dimensions, unitless⟩ :=
        ih (fun _ => rfl) positive positives.2
      rw [si] at magnitude
      rw [dimension] at dimensions
      exact ⟨q :: kept, lost, rfl, magnitude, dimensions, unitless⟩

/-- Nothing is lost with terms that have no unit. -/
theorem siProduct_of_plain {lost : List (Quantity ℝ ℝ)} (plain : ∀ q ∈ lost, q.unit = none)
    (z : Complex ℝ) (kept : List (Quantity ℝ ℝ)) :
    siProduct z kept lost = siProduct z (kept ++ lost) [] := by
  have same : lost.map Quantity.num = lost.map Quantity.si := by
    refine List.map_congr_left fun q member => ?_
    rw [Quantity.si_eq, plain q member, unitFactor, Complex.scale_one]
  rw [siProduct, siProduct, same, List.map_append, List.map_nil, List.append_nil]

theorem dimensionProduct_of_plain {lost : List (Quantity ℝ ℝ)}
    (plain : ∀ q ∈ lost, q.unit = none) (d : Dimension ℝ) (kept : List (Quantity ℝ ℝ)) :
    dimensionProduct d kept = dimensionProduct d (kept ++ lost) := by
  rw [dimensionProduct, dimensionProduct, List.map_append, List.foldl_append]
  generalize (kept.map fun q => unitDimension q.unit).foldl (· * ·) d = d
  induction lost with
  | nil => rfl
  | cons q lost ih =>
    rw [List.forall_mem_cons] at plain
    rw [List.map_cons, List.foldl_cons, plain.1, unitDimension, Dimension.mul_none]
    exact ih plain.2

/-- The product of a range, in the mode of the problem. -/
theorem outcome_iteration_product (within : WithinLimits start stop)
    (terms : p.HasTerms start stop s first others s')
    (real : p.isComplex = false → ∀ e ∈ first :: others, e.2.im = 0)
    (u : Option (MeasureUnit ℝ ℝ)) {r : UnitProduct (Complex ℝ) ℝ ℝ}
    (whole : (others.map Prod.snd).foldl (UnitProduct.complexTimes first.2.unit.isSome)
      ⟨first.2.num, first.2.unit⟩ = r) :
    outcome ((p.iteration .product start stop).run u) s = (.ok (r.product, r.unit), s') := by
  have opened : p.iteration .product start stop = if p.isComplex then p.complexProduct start stop
      else do return .ofReal (← p.product start stop) := rfl
  rw [opened]
  cases mode : p.isComplex with
  | true => exact outcome_complexProduct within terms u whole
  | false =>
    have real := real mode
    have num : first.2.num = .ofReal first.2.re := Complex.eq_ofReal (real first (.head _))
    have same := foldl_complexTimes first.2.unit.isSome ⟨first.2.re, first.2.unit⟩
      fun e member => real e (.tail _ member)
    rw [UnitProduct.toComplex, ← num, whole] at same
    subst same
    exact MethodM.outcome_bind_ok (outcome_product within terms u real rfl)

/-- A product has the magnitude and the dimension of the first term and of those that follow, up
to where its dimensions have cancelled. The terms behind that are lost but for their numbers. So it
has the magnitude and the dimension of all terms when no lost term has a unit. -/
theorem product_amounts (within : WithinLimits start stop)
    (terms : p.HasTerms start stop s first others s')
    (positive : ∀ e ∈ first :: others, 0 < unitFactor e.2.unit)
    (real : p.isComplex = false → ∀ e ∈ first :: others, e.2.im = 0)
    (u : Option (MeasureUnit ℝ ℝ)) :
    ∃ z unit kept lost,
      outcome ((p.iteration .product start stop).run u) s = (.ok (z, unit), s') ∧
      others.map Prod.snd = kept ++ lost ∧
      z.scale (unitFactor unit) = siProduct first.2.si kept lost ∧
      unitDimension unit = dimensionProduct (unitDimension first.2.unit) kept ∧
      (lost ≠ [] → unit = none) ∧
      ((∀ q ∈ lost, q.unit = none) →
        z.scale (unitFactor unit) = siProduct first.2.si (others.map Prod.snd) [] ∧
        unitDimension unit =
          dimensionProduct (unitDimension first.2.unit) (others.map Prod.snd)) := by
  rw [List.forall_mem_cons] at positive
  have positives : ∀ q ∈ others.map Prod.snd, 0 < unitFactor q.unit :=
    List.forall_mem_map.2 positive.2
  have si : UnitProduct.si ⟨first.2.num, first.2.unit⟩ = first.2.si := first.2.si_eq.symm
  obtain ⟨kept, lost, parts, magnitude, dimension, unitless⟩ :=
    exists_kept (t := ⟨first.2.num, first.2.unit⟩) Option.isSome_iff_ne_none.2 positive.1
      positives rfl
  rw [si] at magnitude
  refine ⟨_, _, kept, lost, outcome_iteration_product within terms real u rfl, parts, magnitude,
    dimension, unitless, fun plain => ?_⟩
  rw [siProduct_of_plain plain, ← parts] at magnitude
  rw [dimensionProduct_of_plain plain, ← parts] at dimension
  exact ⟨magnitude, dimension⟩

/-- One, two and three kilometres make up six cubic ones, which are 6 · 10⁹ cubic metres. -/
theorem product_amounts_kilometres :
    WithinLimits (1 : ℝ) 3 ∧
    kilometres.HasTerms 1 3 (.start {} ⟨1, 1⟩) (kilometresAt 1) [kilometresAt 2, kilometresAt 3]
      (.start {} ⟨1, 1⟩) ∧
    (∀ e ∈ [kilometresAt 1, kilometresAt 2, kilometresAt 3], 0 < unitFactor e.2.unit) ∧
    (∀ e ∈ [kilometresAt 1, kilometresAt 2, kilometresAt 3], e.2.im = 0) ∧
    ∃ z unit, outcome ((kilometres.iteration .product 1 3).run none) (.start {} ⟨1, 1⟩) =
        (.ok (z, unit), .start {} ⟨1, 1⟩) ∧
      z.scale (unitFactor unit) = .ofReal 6000000000 ∧
      (unitDimension unit).length = 3 := by
  have within : WithinLimits (1 : ℝ) 3 := withinLimits_iff.2 (by norm_num)
  have terms := hasTerms_kilometres (.start {} ⟨1, 1⟩)
  have positive : ∀ e ∈ [kilometresAt 1, kilometresAt 2, kilometresAt 3],
      0 < unitFactor e.2.unit := by
    simp only [List.forall_mem_cons, List.not_mem_nil, false_implies, implies_true, and_true]
    norm_num [kilometresAt, kilometre, unitFactor, MeasureUnit.named]
  have real : ∀ e ∈ [kilometresAt 1, kilometresAt 2, kilometresAt 3], e.2.im = 0 := by
    simp only [List.forall_mem_cons, List.not_mem_nil, false_implies, implies_true, and_true]
    exact ⟨rfl, rfl, rfl⟩
  refine ⟨within, terms, positive, real, ?_⟩
  obtain ⟨z, unit, kept, lost, ended, parts, -, dimension, unitless, whole⟩ :=
    product_amounts within terms positive (fun _ => real) none
  -- Lengths do not cancel, so the product never runs out of a unit.
  have nothing : lost = [] := by
    by_contra behind
    have lengths : (unitDimension unit).length ≠ 0 := by
      rw [dimension]
      obtain _ | ⟨_, _ | ⟨_, _ | ⟨_, _⟩⟩⟩ := kept
      · exact one_ne_zero
      · cases parts
        exact (show (1 : ℝ) + 1 ≠ 0 by norm_num)
      · cases parts
        exact absurd rfl behind
      · cases parts
    rw [unitless behind] at lengths
    exact lengths rfl
  subst nothing
  obtain ⟨magnitude, dimension⟩ := whole (List.forall_mem_nil _)
  refine ⟨z, unit, ended, ?_, ?_⟩
  · have value : (1 * 1000 * (2 * 1000) * (3 * 1000) : ℝ) = 6000000000 := by norm_num
    have si (x : ℝ) : (kilometresAt x).2.si = .ofReal (x * 1000) := Complex.scale_ofReal x 1000
    rw [magnitude, ← value]
    show (kilometresAt 1).2.si * (kilometresAt 2).2.si * (kilometresAt 3).2.si = _
    rw [si, si, si, Complex.mul_ofReal, Complex.mul_ofReal]
  · rw [dimension]
    exact (show (1 : ℝ) + 1 + 1 = 3 by norm_num)

end Problem

end UnitCalc

end

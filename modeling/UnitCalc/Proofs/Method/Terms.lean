/-
# The terms of an iteration

In exact arithmetic an iteration is told by the values that its objective had, one after the
other. Sums are taken in the unit of the first term, and fail at the first term that has no
conversion into it. The compensation of a sum for rounding stays zero. Real and complex mode
agree about objectives with real values.

## Main definitions

* `Problem.Follows`: a loop follows a function of the values of the objective.
* `Convertible` and `Quantity.countedIn`: the conversion of terms.
* `UnitProduct.times`: a product, with its unit, and the next term.

## Main results

* `Problem.outcome_repeatFrom` and `outcome_repeatFrom_error`: the loops of iterations.
* `Problem.sums_agree`, `sums_fail`, `outcome_product`, `outcome_complexProduct` and
  `iterates_agree`: the methods, in both modes.
* `Problem.iteration_agrees`: real and complex mode agree and are exact.
-/

import UnitCalc.Proofs.Calculator.Measures
import UnitCalc.Proofs.Method.Visits

noncomputable section

namespace UnitCalc

open SessionM (outcome)

variable {A S T V : Type} {p : Problem ℝ ℝ SessionM} {u unit v : Option (MeasureUnit ℝ ℝ)}
  {s s₁ s₂ s' : Session} {log before behind : List (ℝ × Quantity ℝ ℝ)} {e : ℝ × Quantity ℝ ℝ}
  {q : Quantity ℝ ℝ} {x start stop : ℝ}

namespace Problem

/-! ## Loops -/

/-- The steps of a loop evaluate the objective once. When a value is admitted, they follow `next`,
whose states are kept in those of the loop. -/
def Follows (p : Problem ℝ ℝ SessionM) (Admits : Quantity ℝ ℝ → Prop)
    (step : S → ℝ → MethodM ℝ ℝ SessionM S) (keep : T → S) (next : T → Quantity ℝ ℝ → T) : Prop :=
  ∀ t x q u s s', outcome (p.objective x) s = (.ok q, s') → Admits q →
    outcome ((step (keep t) x).run u) s = (.ok (keep (next t q), q.unit), s')

section Loops

variable {Admits : Quantity ℝ ℝ → Prop} {step : S → ℝ → MethodM ℝ ℝ SessionM S} {keep : T → S}
  {next : T → Quantity ℝ ℝ → T} {isLast : S → Bool} {t : T} {k : ℤ} {count : ℕ}

/-- One round of a loop that does not stop. -/
theorem outcome_repeatFrom_succ (follows : p.Follows Admits step keep next)
    (never : ∀ a, isLast a = false)
    (probed : outcome (p.objective (Scalar.ofInt k)) s = (.ok q, s₁)) (admitted : Admits q) :
    outcome ((repeatFrom step isLast (count + 1) k (keep t)).run u) s =
      outcome ((repeatFrom step isLast count (k + 1) (keep (next t q))).run q.unit) s₁ := by
  have stepped := follows t (Scalar.ofInt k) q u s s₁ probed admitted
  refine (MethodM.outcome_bind_ok stepped).trans ?_
  rw [never]
  rfl

/-- A loop over admitted values. The induction is on the evaluations, and the loop counts down
with them. -/
theorem outcome_repeatFrom (follows : p.Follows Admits step keep next)
    (never : ∀ a, isLast a = false) (probes : p.Probes s log s')
    (range : log.map Prod.fst = (integersFrom k count).map Scalar.ofInt)
    (admitted : ∀ e ∈ log, Admits e.2) (t : T) (u : Option (MeasureUnit ℝ ℝ)) :
    outcome ((repeatFrom step isLast count k (keep t)).run u) s =
      (.ok (keep ((log.map Prod.snd).foldl next t),
        (log.map Prod.snd).foldl (fun _ q => q.unit) u), s') := by
  induction probes generalizing k count t u with
  | nil s =>
    cases count with
    | zero => rfl
    | succ count => cases range
  | cons probed probes ih =>
    cases count with
    | zero => cases range
    | succ count =>
      rw [List.map_cons, integersFrom, List.map_cons, List.cons.injEq] at range
      obtain ⟨rfl, range⟩ := range
      rw [List.forall_mem_cons] at admitted
      rw [outcome_repeatFrom_succ follows never probed admitted.1]
      exact ih range admitted.2 _ _

/-- A loop that fails at the first value that is not admitted. -/
theorem outcome_repeatFrom_error {error : CalcError} (follows : p.Follows Admits step keep next)
    (never : ∀ a, isLast a = false) (probes : p.Probes s before s₁)
    (range : (before ++ e :: behind).map Prod.fst = (integersFrom k count).map Scalar.ofInt)
    (admitted : ∀ e ∈ before, Admits e.2)
    (failed : ∀ t u, outcome ((step (keep t) e.1).run u) s₁ = (.error error, s')) (t : T)
    (u : Option (MeasureUnit ℝ ℝ)) :
    outcome ((repeatFrom step isLast count k (keep t)).run u) s = (.error error, s') := by
  induction probes generalizing k count t u with
  | nil s =>
    cases count with
    | zero => cases range
    | succ count =>
      rw [List.nil_append, List.map_cons, integersFrom, List.map_cons, List.cons.injEq] at range
      rw [range.1] at failed
      exact MethodM.outcome_bind_error (failed t u)
  | cons probed probes ih =>
    cases count with
    | zero => cases range
    | succ count =>
      rw [List.cons_append, List.map_cons, integersFrom, List.map_cons, List.cons.injEq] at range
      obtain ⟨rfl, range⟩ := range
      rw [List.forall_mem_cons] at admitted
      rw [outcome_repeatFrom_succ follows never probed admitted.1]
      exact ih range admitted.2 failed _ _

end Loops

/-! ## Values -/

theorem outcome_complexValue (probed : outcome (p.objective x) s = (.ok q, s')) :
    outcome ((p.complexValue x).run u) s = (.ok (q.num, q.unit), s') :=
  MethodM.outcome_bind_ok (eval_of_objective_ok probed u)

theorem outcome_quantity (probed : outcome (p.objective x) s = (.ok q, s')) :
    outcome ((p.quantity x).run u) s = (.ok (q, q.unit), s') :=
  MethodM.outcome_bind_ok (eval_of_objective_ok probed u)

theorem outcome_value (probed : outcome (p.objective x) s = (.ok q, s')) (real : q.im = 0) :
    outcome ((p.value x).run u) s = (.ok (q.re, q.unit), s') :=
  value_of_objective_ok probed (beq_iff_eq.2 real) rfl u

/-- A first term with its unit, and what is done with them. -/
theorem outcome_begin {term : MethodM ℝ ℝ SessionM A}
    {others : A → Option (MeasureUnit ℝ ℝ) → MethodM ℝ ℝ SessionM V} {a : A}
    (first : outcome (term.run u) s = (.ok (a, unit), s₁)) :
    outcome ((do let a ← term; let unit ← get; others a unit : MethodM ℝ ℝ SessionM V).run u) s =
      outcome ((others a unit).run unit) s₁ :=
  MethodM.outcome_bind_ok first

/-- From the session `s`, the objective has these values at the integers between two bounds, and
this leads to `s'`. There is a first one, so the range is not empty. -/
structure HasTerms (p : Problem ℝ ℝ SessionM) (start stop : ℝ) (s : Session)
    (first : ℝ × Quantity ℝ ℝ) (others : List (ℝ × Quantity ℝ ℝ)) (s' : Session) : Prop where
  range : (first :: others).map Prod.fst = points (rounded start) (rounded stop)
  probes : p.Probes s (first :: others) s'

variable {first : ℝ × Quantity ℝ ℝ} {others : List (ℝ × Quantity ℝ ℝ)}

/-- The first term is that of the first bound, and a loop goes over the others. -/
theorem HasTerms.range_cons (terms : p.HasTerms start stop s first others s') :
    first.1 = Scalar.ofInt (rounded start) ∧ others.map Prod.fst =
      (integersFrom (rounded start + 1) (span (rounded start + 1) (rounded stop))).map
        Scalar.ofInt := by
  have range := terms.range
  have ascending : rounded start ≤ rounded stop := by
    by_contra descending
    rw [points, integers_of_lt (not_le.1 descending)] at range
    cases range
  rw [points, integers_of_le ascending, List.map_cons, List.map_cons, List.cons.injEq] at range
  exact range

theorem HasTerms.exists_probes (terms : p.HasTerms start stop s first others s') :
    ∃ s₁, outcome (p.objective (Scalar.ofInt (rounded start))) s = (.ok first.2, s₁) ∧
      p.Probes s₁ others s' := by
  obtain ⟨point, -⟩ := terms.range_cons
  obtain ⟨-, _ | ⟨probed, probes⟩⟩ := terms
  rw [← point]
  exact ⟨_, probed, probes⟩

end Problem

/-! ## Sums -/

/-- The units that terms of one sum may have: both are missing, or they share a dimension. -/
def Convertible (u v : Option (MeasureUnit ℝ ℝ)) : Prop :=
  u.isSome = v.isSome ∧ unitDimension u = unitDimension v

/-- The number of a quantity, counted in a unit. -/
def Quantity.countedIn (q : Quantity ℝ ℝ) (unit : Option (MeasureUnit ℝ ℝ)) : ℝ :=
  q.re * (unitFactor q.unit / unitFactor unit)

namespace Problem

/-- Nothing is lost by an exact addition. -/
theorem CompensatedSum.add_exact (t y : ℝ) :
    (⟨t, 0⟩ : CompensatedSum ℝ).add y = ⟨t + y, 0⟩ := by
  show (⟨t + (y - 0), t + (y - 0) - t - (y - 0)⟩ : CompensatedSum ℝ) = ⟨t + y, 0⟩
  rw [sub_zero, add_sub_cancel_left, sub_self]

theorem CompensatedSum.add_ofReal (t y : ℝ) :
    (⟨.ofReal t, .ofReal 0⟩ : CompensatedSum (Complex ℝ)).add (.ofReal y) =
      ⟨.ofReal (t + y), .ofReal 0⟩ := by
  simp only [CompensatedSum.add, Complex.sub_ofReal, Complex.add_ofReal]
  rw [sub_zero, add_sub_cancel_left, sub_self]

/-- Terms are added one after the other. -/
theorem foldl_countedIn (terms : List (Quantity ℝ ℝ)) (t : ℝ) :
    terms.foldl (fun t q => t + q.countedIn unit) t = t + (terms.map (·.countedIn unit)).sum := by
  induction terms generalizing t with
  | nil => exact (add_zero t).symm
  | cons q terms ih => rw [List.foldl_cons, ih, List.map_cons, List.sum_cons, add_assoc]

theorem outcome_termFactor (convertible : Convertible unit v) :
    outcome ((termFactor unit).run v) s = (.ok (unitFactor v / unitFactor unit, v), s) := by
  obtain ⟨both, shared⟩ := convertible
  match unit, v, both with
  | none, none, _ =>
    show (Except.ok ((1 : ℝ), none), s) = (.ok ((1 : ℝ) / 1, none), s)
    rw [div_one]
  | some u, some v, _ =>
    have shares : u.sharesDimension v = true := MeasureUnit.sharesDimension_iff.2 shared
    have opened : (termFactor (some u) : MethodM ℝ ℝ SessionM ℝ).run (some v) =
        StateT.run (if u.sharesDimension v then return v.factorTo u
          else throw (CalcError.inconsistentTerms u.text v.text)) (some v) := rfl
    rw [opened, if_pos shares]
    rfl

theorem outcome_termFactor_error (differ : ¬ Convertible unit v) :
    outcome ((termFactor unit).run v) s =
      (.error (.inconsistentTerms (unitText unit) (unitText v)), s) := by
  match unit, v with
  | none, none => exact absurd ⟨rfl, rfl⟩ differ
  | none, some v => rfl
  | some u, none => rfl
  | some u, some v =>
    have differs : ¬ u.sharesDimension v = true :=
      fun shares => differ ⟨rfl, MeasureUnit.sharesDimension_iff.1 shares⟩
    have opened : (termFactor (some u) : MethodM ℝ ℝ SessionM ℝ).run (some v) =
        StateT.run (if u.sharesDimension v then return v.factorTo u
          else throw (CalcError.inconsistentTerms u.text v.text)) (some v) := rfl
    rw [opened, if_neg differs]
    rfl

/-- A term that may be added, to a sum in a unit. -/
def Adds (unit : Option (MeasureUnit ℝ ℝ)) (q : Quantity ℝ ℝ) : Prop :=
  q.im = 0 ∧ Convertible unit q.unit

/-- The step of a sum. -/
def sumStep (p : Problem ℝ ℝ SessionM) (unit : Option (MeasureUnit ℝ ℝ)) (a : CompensatedSum ℝ)
    (x : ℝ) : MethodM ℝ ℝ SessionM (CompensatedSum ℝ) := do
  let y ← p.value x
  return a.add (y * (← termFactor unit))

/-- The step of a sum in complex mode. -/
def complexSumStep (p : Problem ℝ ℝ SessionM) (unit : Option (MeasureUnit ℝ ℝ))
    (a : CompensatedSum (Complex ℝ)) (x : ℝ) :
    MethodM ℝ ℝ SessionM (CompensatedSum (Complex ℝ)) := do
  let y ← p.complexValue x
  return a.add (y.scale (← termFactor unit))

theorem sumStep_follows (unit : Option (MeasureUnit ℝ ℝ)) :
    p.Follows (Adds unit) (p.sumStep unit) (fun t => ⟨t, 0⟩) fun t q => t + q.countedIn unit := by
  rintro t x q u s s' probed ⟨real, convertible⟩
  dsimp only
  rw [← CompensatedSum.add_exact]
  refine (MethodM.outcome_bind_ok (outcome_value probed real)).trans ?_
  exact MethodM.outcome_bind_ok (outcome_termFactor convertible)

theorem complexSumStep_follows (unit : Option (MeasureUnit ℝ ℝ)) :
    p.Follows (Adds unit) (p.complexSumStep unit) (fun t => ⟨.ofReal t, .ofReal 0⟩)
      fun t q => t + q.countedIn unit := by
  rintro t x q u s s' probed ⟨real, convertible⟩
  have num : q.num = .ofReal q.re := Complex.eq_ofReal real
  dsimp only
  rw [← CompensatedSum.add_ofReal, Quantity.countedIn, ← Complex.scale_ofReal, ← num]
  refine (MethodM.outcome_bind_ok (outcome_complexValue probed)).trans ?_
  exact MethodM.outcome_bind_ok (outcome_termFactor convertible)

theorem sumStep_error {a : CompensatedSum ℝ} (probed : outcome (p.objective x) s = (.ok q, s'))
    (real : q.im = 0) (differ : ¬ Convertible unit q.unit) :
    outcome ((p.sumStep unit a x).run u) s =
      (.error (.inconsistentTerms (unitText unit) (unitText q.unit)), s') := by
  refine (MethodM.outcome_bind_ok (outcome_value probed real)).trans ?_
  exact MethodM.outcome_bind_error (outcome_termFactor_error differ)

theorem complexSumStep_error {a : CompensatedSum (Complex ℝ)}
    (probed : outcome (p.objective x) s = (.ok q, s')) (differ : ¬ Convertible unit q.unit) :
    outcome ((p.complexSumStep unit a x).run u) s =
      (.error (.inconsistentTerms (unitText unit) (unitText q.unit)), s') := by
  refine (MethodM.outcome_bind_ok (outcome_complexValue probed)).trans ?_
  exact MethodM.outcome_bind_error (outcome_termFactor_error differ)

section Sums

variable (within : WithinLimits start stop) (terms : p.HasTerms start stop s first others s')
  (real : ∀ e ∈ first :: others, e.2.im = 0) (u : Option (MeasureUnit ℝ ℝ))

include within terms real

/-- Both modes add the terms, converted into the unit of the first one. -/
theorem sums_agree (convertible : ∀ e ∈ others, Convertible first.2.unit e.2.unit) :
    outcome ((p.sum start stop).run u) s =
        (.ok (first.2.re + (others.map fun e => e.2.countedIn first.2.unit).sum,
          first.2.unit), s') ∧
      outcome ((p.complexSum start stop).run u) s =
        (.ok (.ofReal (first.2.re + (others.map fun e => e.2.countedIn first.2.unit).sum),
          first.2.unit), s') := by
  obtain ⟨s₁, probed, probes⟩ := terms.exists_probes
  obtain ⟨point, range⟩ := terms.range_cons
  have num : first.2.num = .ofReal first.2.re := Complex.eq_ofReal (real first (.head _))
  have adds : ∀ e ∈ others, Adds first.2.unit e.2 :=
    fun e member => ⟨real e (.tail _ member), convertible e member⟩
  -- Both loops follow the same sum of numbers, which is kept as a real or as a complex one.
  have total : (others.map Prod.snd).foldl (fun t q => t + q.countedIn first.2.unit)
      first.2.re = first.2.re + (others.map fun e => e.2.countedIn first.2.unit).sum := by
    rw [foldl_countedIn, List.map_map]
    rfl
  rw [← total]
  constructor
  · simp only [sum, integerBounds_of_within within, pure_bind]
    have looped := outcome_repeatFrom (sumStep_follows first.2.unit)
      (fun s => (rfl : Scalar.isInfinite s.sum = false)) probes range adds first.2.re first.2.unit
    refine (outcome_begin (outcome_value probed (real first (.head _)))).trans ?_
    exact MethodM.outcome_bind_ok looped
  · simp only [complexSum, integerBounds_of_within within, pure_bind]
    have looped := outcome_repeatFrom (complexSumStep_follows first.2.unit)
      (fun s => (rfl : s.sum.isInfinite = false)) probes range adds first.2.re first.2.unit
    rw [← num] at looped
    refine (outcome_begin (outcome_complexValue probed)).trans ?_
    exact MethodM.outcome_bind_ok looped

/-- Both modes fail at the first term that has no conversion, right behind its evaluation. -/
theorem sums_fail (parts : others = before ++ (x, q) :: behind)
    (convertible : ∀ e ∈ before, Convertible first.2.unit e.2.unit)
    (differ : ¬ Convertible first.2.unit q.unit) :
    ∃ s₁, p.Probes s (first :: (before ++ [(x, q)])) s₁ ∧
      outcome ((p.sum start stop).run u) s =
        (.error (.inconsistentTerms (unitText first.2.unit) (unitText q.unit)), s₁) ∧
      outcome ((p.complexSum start stop).run u) s =
        (.error (.inconsistentTerms (unitText first.2.unit) (unitText q.unit)), s₁) := by
  subst parts
  obtain ⟨s₁, probed, probes⟩ := terms.exists_probes
  obtain ⟨point, range⟩ := terms.range_cons
  obtain ⟨s₂, probesBefore, behind⟩ := probes.exists_of_append
  obtain _ | ⟨probedLast, -⟩ := behind
  rename_i s₃
  have realLast : q.im = 0 := real (x, q) (by simp)
  have adds : ∀ e ∈ before, Adds first.2.unit e.2 :=
    fun e member => ⟨real e (.tail _ (List.mem_append_left _ member)), convertible e member⟩
  -- The session is the one right behind the evaluation that has no conversion.
  have visited : p.Probes s (first :: (before ++ [(x, q)])) s₃ := by
    rw [← point] at probed
    exact .cons probed (probesBefore.append (.single probedLast))
  refine ⟨s₃, visited, ?_, ?_⟩
  · simp only [sum, integerBounds_of_within within, pure_bind]
    have looped := outcome_repeatFrom_error (sumStep_follows first.2.unit)
      (fun s => (rfl : Scalar.isInfinite s.sum = false)) probesBefore range adds
      (fun t u => sumStep_error probedLast realLast differ) first.2.re first.2.unit
    refine (outcome_begin (outcome_value probed (real first (.head _)))).trans ?_
    exact MethodM.outcome_bind_error looped
  · simp only [complexSum, integerBounds_of_within within, pure_bind]
    have looped := outcome_repeatFrom_error (complexSumStep_follows first.2.unit)
      (fun s => (rfl : s.sum.isInfinite = false)) probesBefore range adds
      (fun t u => complexSumStep_error probedLast differ) first.2.re first.2.unit
    have num : first.2.num = .ofReal first.2.re := Complex.eq_ofReal (real first (.head _))
    rw [← num] at looped
    refine (outcome_begin (outcome_complexValue probed)).trans ?_
    exact MethodM.outcome_bind_error looped

end Sums

/-! ## Products -/

/-- The number and the unit that a product and its unit are taken to by the unit of a term. -/
def factorOf (tracksUnits : Bool) (unit v : Option (MeasureUnit ℝ ℝ)) :
    ℝ × Option (MeasureUnit ℝ ℝ) :=
  match tracksUnits, unit, v with
  | true, some u, some v => u.multiply? v
  | _, _, _ => (1, unit)

theorem outcome_productFactor (tracksUnits : Bool) :
    outcome ((productFactor tracksUnits unit).run v) s =
      (.ok (factorOf tracksUnits unit v, v), s) := by
  cases tracksUnits <;> cases unit <;> cases v <;> rfl

/-- A product and the next term. -/
def UnitProduct.times (tracksUnits : Bool) (t : UnitProduct ℝ ℝ ℝ) (q : Quantity ℝ ℝ) :
    UnitProduct ℝ ℝ ℝ :=
  let (k, unit) := factorOf tracksUnits t.unit q.unit
  ⟨t.product * q.re * k, unit⟩

/-- A complex product and the next term. -/
def UnitProduct.complexTimes (tracksUnits : Bool) (t : UnitProduct (Complex ℝ) ℝ ℝ)
    (q : Quantity ℝ ℝ) : UnitProduct (Complex ℝ) ℝ ℝ :=
  let (k, unit) := factorOf tracksUnits t.unit q.unit
  ⟨(t.product * q.num).scale k, unit⟩

/-- A real product among the complex ones. -/
def UnitProduct.toComplex (t : UnitProduct ℝ ℝ ℝ) : UnitProduct (Complex ℝ) ℝ ℝ :=
  ⟨.ofReal t.product, t.unit⟩

/-- The product of real terms is the same in both modes. -/
theorem foldl_complexTimes (tracksUnits : Bool) (t : UnitProduct ℝ ℝ ℝ)
    (real : ∀ e ∈ log, e.2.im = 0) :
    (log.map Prod.snd).foldl (UnitProduct.complexTimes tracksUnits) t.toComplex =
      ((log.map Prod.snd).foldl (UnitProduct.times tracksUnits) t).toComplex := by
  induction log generalizing t with
  | nil => rfl
  | cons e log ih =>
    rw [List.forall_mem_cons] at real
    have num : e.2.num = .ofReal e.2.re := Complex.eq_ofReal real.1
    have step : UnitProduct.complexTimes tracksUnits t.toComplex e.2 =
        (t.times tracksUnits e.2).toComplex := by
      simp only [UnitProduct.complexTimes, UnitProduct.times, UnitProduct.toComplex, num,
        Complex.mul_ofReal, Complex.scale_ofReal]
    rw [List.map_cons, List.foldl_cons, List.foldl_cons, step]
    exact ih _ real.2

section Products

variable (within : WithinLimits start stop) (terms : p.HasTerms start stop s first others s')
  (u : Option (MeasureUnit ℝ ℝ))

include within terms

theorem outcome_product (real : ∀ e ∈ first :: others, e.2.im = 0)
    {t : UnitProduct ℝ ℝ ℝ} (whole : (others.map Prod.snd).foldl
      (UnitProduct.times first.2.unit.isSome) ⟨first.2.re, first.2.unit⟩ = t) :
    outcome ((p.product start stop).run u) s = (.ok (t.product, t.unit), s') := by
  obtain ⟨s₁, probed, probes⟩ := terms.exists_probes
  obtain ⟨-, range⟩ := terms.range_cons
  have follows : p.Follows (fun q => q.im = 0)
      (fun s x => do
        let y ← p.value x
        let (k, u) ← productFactor first.2.unit.isSome s.unit
        return ⟨s.product * y * k, u⟩)
      id (UnitProduct.times first.2.unit.isSome) := by
    intro t x q u s s' probed real
    refine (MethodM.outcome_bind_ok (outcome_value probed real)).trans ?_
    exact MethodM.outcome_bind_ok (outcome_productFactor _)
  simp only [product, integerBounds_of_within within, pure_bind]
  have looped := outcome_repeatFrom follows (fun s => (rfl : Scalar.isInfinite s.product = false))
    probes range (fun e member => real e (.tail _ member)) ⟨first.2.re, first.2.unit⟩ first.2.unit
  rw [whole] at looped
  refine (outcome_begin (outcome_value probed (real first (.head _)))).trans ?_
  exact MethodM.outcome_bind_ok looped

theorem outcome_complexProduct {t : UnitProduct (Complex ℝ) ℝ ℝ}
    (whole : (others.map Prod.snd).foldl (UnitProduct.complexTimes first.2.unit.isSome)
      ⟨first.2.num, first.2.unit⟩ = t) :
    outcome ((p.complexProduct start stop).run u) s = (.ok (t.product, t.unit), s') := by
  obtain ⟨s₁, probed, probes⟩ := terms.exists_probes
  obtain ⟨-, range⟩ := terms.range_cons
  have follows : p.Follows (fun _ => True)
      (fun s x => do
        let y ← p.complexValue x
        let (k, u) ← productFactor first.2.unit.isSome s.unit
        return ⟨(s.product * y).scale k, u⟩)
      id (UnitProduct.complexTimes first.2.unit.isSome) := by
    intro t x q u s s' probed _
    refine (MethodM.outcome_bind_ok (outcome_complexValue probed)).trans ?_
    exact MethodM.outcome_bind_ok (outcome_productFactor _)
  simp only [complexProduct, integerBounds_of_within within, pure_bind]
  have looped := outcome_repeatFrom follows (fun s => (rfl : s.product.isInfinite = false))
    probes range (fun _ _ => trivial) ⟨first.2.num, first.2.unit⟩ first.2.unit
  rw [whole] at looped
  refine (outcome_begin (outcome_complexValue probed)).trans ?_
  exact MethodM.outcome_bind_ok looped

end Products

/-! ## Last values -/

/-- The last of some terms. -/
def lastTerm (first : ℝ × Quantity ℝ ℝ) (others : List (ℝ × Quantity ℝ ℝ)) : Quantity ℝ ℝ :=
  (others.getLastD first).2

/-- A loop that keeps the last term ends with it. -/
theorem foldl_keep {B : Type} (f : Quantity ℝ ℝ → B) (b : B) :
    ((first :: others).map Prod.snd).foldl (fun _ q => f q) b = f (lastTerm first others) := by
  induction others generalizing first b with
  | nil => rfl
  | cons e others ih =>
    rw [lastTerm, List.getLastD_cons]
    exact ih (f first.2)

/-- Both modes return the last term with its unit. -/
theorem iterates_agree (within : WithinLimits start stop)
    (terms : p.HasTerms start stop s first others s') (u : Option (MeasureUnit ℝ ℝ)) :
    outcome ((p.iterate start stop).run u) s =
        (.ok (lastTerm first others, (lastTerm first others).unit), s') ∧
      outcome ((p.complexIterate start stop).run u) s =
        (.ok ((lastTerm first others).num, (lastTerm first others).unit), s') := by
  constructor
  · have follows : p.Follows (fun _ => True) (fun _ x => p.quantity x) id fun _ q => q :=
      fun _ _ _ _ _ _ probed _ => outcome_quantity probed
    have looped := outcome_repeatFrom follows (fun q => (rfl : Scalar.isInfinite q.re = false))
      terms.probes terms.range (fun _ _ => trivial) .undefined u
    have last : ((first :: others).map Prod.snd).foldl (fun _ q => q) .undefined =
        lastTerm first others := foldl_keep (fun q => q) _
    rw [last, foldl_keep Quantity.unit] at looped
    simp only [iterate, integerBounds_of_within within, pure_bind]
    exact looped
  · have follows : p.Follows (fun _ => True) (fun _ x => p.complexValue x) id fun _ q => q.num :=
      fun _ _ _ _ _ _ probed _ => outcome_complexValue probed
    have looped := outcome_repeatFrom follows (fun z => (rfl : z.isInfinite = false))
      terms.probes terms.range (fun _ _ => trivial) 0 u
    rw [foldl_keep Quantity.num, foldl_keep Quantity.unit] at looped
    simp only [complexIterate, integerBounds_of_within within, pure_bind]
    exact looped

/-! ## Both modes -/

/-- All terms have a conversion, or there is a first one that has none. -/
theorem convertible_cases (unit : Option (MeasureUnit ℝ ℝ)) (log : List (ℝ × Quantity ℝ ℝ)) :
    (∀ e ∈ log, Convertible unit e.2.unit) ∨
      ∃ before x q behind, log = before ++ (x, q) :: behind ∧
        (∀ e ∈ before, Convertible unit e.2.unit) ∧ ¬ Convertible unit q.unit := by
  induction log with
  | nil => exact .inl nofun
  | cons e log ih =>
    by_cases convertible : Convertible unit e.2.unit
    · obtain all | ⟨before, x, q, behind, rfl, all, differ⟩ := ih
      · exact .inl (List.forall_mem_cons.2 ⟨convertible, all⟩)
      · refine .inr ⟨e :: before, x, q, behind, rfl, ?_, differ⟩
        exact List.forall_mem_cons.2 ⟨convertible, all⟩
    · exact .inr ⟨[], e.1, e.2, log, rfl, nofun, convertible⟩

/-- For an objective with real values on a range that is not empty, real and complex mode agree.
Both sums are that of the terms converted into the unit of the first one, with that unit, or both
fail at the first term that has no conversion. Both products have the same number and unit, and
both iterations keep the last term with its unit. -/
theorem iteration_agrees (within : WithinLimits start stop)
    (terms : p.HasTerms start stop s first others s') (real : ∀ e ∈ first :: others, e.2.im = 0)
    (u : Option (MeasureUnit ℝ ℝ)) :
    ((∀ e ∈ others, Convertible first.2.unit e.2.unit) ∧
        outcome ((p.sum start stop).run u) s =
          (.ok (first.2.re + (others.map fun e => e.2.countedIn first.2.unit).sum,
            first.2.unit), s') ∧
        outcome ((p.complexSum start stop).run u) s =
          (.ok (.ofReal (first.2.re + (others.map fun e => e.2.countedIn first.2.unit).sum),
            first.2.unit), s') ∨
      ∃ before x q behind s₁, others = before ++ (x, q) :: behind ∧
        (∀ e ∈ before, Convertible first.2.unit e.2.unit) ∧ ¬ Convertible first.2.unit q.unit ∧
        p.Probes s (first :: (before ++ [(x, q)])) s₁ ∧
        outcome ((p.sum start stop).run u) s =
          (.error (.inconsistentTerms (unitText first.2.unit) (unitText q.unit)), s₁) ∧
        outcome ((p.complexSum start stop).run u) s =
          (.error (.inconsistentTerms (unitText first.2.unit) (unitText q.unit)), s₁)) ∧
      (∃ x unit, outcome ((p.product start stop).run u) s = (.ok (x, unit), s') ∧
        outcome ((p.complexProduct start stop).run u) s = (.ok (.ofReal x, unit), s')) ∧
      outcome ((p.iterate start stop).run u) s =
        (.ok (lastTerm first others, (lastTerm first others).unit), s') ∧
      outcome ((p.complexIterate start stop).run u) s =
        (.ok ((lastTerm first others).num, (lastTerm first others).unit), s') := by
  refine ⟨?_, ?_, iterates_agree within terms u⟩
  · obtain all | ⟨before, x, q, behind, parts, all, differ⟩ :=
      convertible_cases first.2.unit others
    · exact .inl ⟨all, sums_agree within terms real u all⟩
    · obtain ⟨s₁, probes, fails⟩ := sums_fail within terms real u parts all differ
      exact .inr ⟨before, x, q, behind, s₁, parts, all, differ, probes, fails⟩
  · have num : first.2.num = .ofReal first.2.re := Complex.eq_ofReal (real first (.head _))
    have same := foldl_complexTimes first.2.unit.isSome ⟨first.2.re, first.2.unit⟩
      fun e member => real e (.tail _ member)
    rw [UnitProduct.toComplex, ← num] at same
    have complex := outcome_complexProduct within terms u same
    exact ⟨_, _, outcome_product within terms u real rfl, complex⟩

/-- A thousand metres. -/
def kilometre : MeasureUnit ℝ ℝ :=
  .named "km" ⟨0, 1, 0, 0, 0, 0, 0, 0, 0⟩ 1000

/-- As many kilometres as the variable says. -/
def kilometres : Problem ℝ ℝ SessionM where
  objective x := return { num := .ofReal x, unit := some kilometre }
  isComplex := false
  unit := none
  precision := 0

/-- A term of kilometres. -/
def kilometresAt (x : ℝ) : ℝ × Quantity ℝ ℝ :=
  (x, { num := .ofReal x, unit := some kilometre })

theorem hasTerms_kilometres (s : Session) :
    kilometres.HasTerms 1 3 s (kilometresAt 1) [kilometresAt 2, kilometresAt 3] s := by
  have start : rounded (1 : ℝ) = 1 := mod_cast rounded_intCast 1 (by norm_num) (by norm_num)
  have stop : rounded (3 : ℝ) = 3 := mod_cast rounded_intCast 3 (by norm_num) (by norm_num)
  have range : (points 1 3 : List ℝ) = [((1 : ℤ) : ℝ), ((2 : ℤ) : ℝ), ((3 : ℤ) : ℝ)] := rfl
  refine ⟨?_, .cons rfl (.cons rfl (.single rfl))⟩
  rw [start, stop, range]
  norm_num [kilometresAt]

/-- One, two and three kilometres are six kilometres in both modes. -/
theorem iteration_agrees_kilometres :
    WithinLimits (1 : ℝ) 3 ∧
    kilometres.HasTerms 1 3 (.start {} ⟨1, 1⟩) (kilometresAt 1) [kilometresAt 2, kilometresAt 3]
      (.start {} ⟨1, 1⟩) ∧
    (∀ e ∈ [kilometresAt 1, kilometresAt 2, kilometresAt 3], e.2.im = 0) ∧
    outcome ((kilometres.sum 1 3).run none) (.start {} ⟨1, 1⟩) =
      (.ok (6, some kilometre), .start {} ⟨1, 1⟩) ∧
    outcome ((kilometres.complexSum 1 3).run none) (.start {} ⟨1, 1⟩) =
      (.ok (.ofReal 6, some kilometre), .start {} ⟨1, 1⟩) := by
  have within : WithinLimits (1 : ℝ) 3 := withinLimits_iff.2 (by norm_num)
  have terms := hasTerms_kilometres (.start {} ⟨1, 1⟩)
  have real : ∀ e ∈ [kilometresAt 1, kilometresAt 2, kilometresAt 3], e.2.im = 0 := by
    simp only [List.forall_mem_cons, List.not_mem_nil, false_implies, implies_true, and_true]
    exact ⟨rfl, rfl, rfl⟩
  refine ⟨within, terms, real, ?_⟩
  obtain ⟨⟨-, sums⟩ | ⟨before, x, q, behind, s₁, parts, -, differ, -⟩, -⟩ :=
    iteration_agrees within terms real none
  · have total : (1 : ℝ) + ([(2 : ℝ), 3].map fun x => x * (1000 / 1000)).sum = 6 := by norm_num
    rw [← total]
    exact sums
  · have member : (x, q) ∈ [kilometresAt 2, kilometresAt 3] := by
      rw [parts]
      exact List.mem_append_right _ (.head _)
    have unit : q.unit = some kilometre := by
      obtain _ | ⟨_, _ | ⟨_, _⟩⟩ := member
      · rfl
      · rfl
      · contradiction
    exact absurd ⟨rfl, rfl⟩ (unit ▸ differ)

/-- Beyond the limits nothing is summed up, in either mode. -/
theorem sum_beyond_limits :
    identity.HasTerms 200000000 200000001 (.start {} ⟨1, 1⟩) (200000000, .real 200000000)
      [(200000001, .real 200000001)] (.start {} ⟨1, 1⟩) ∧
    ∃ low high,
      outcome ((identity.sum 200000000 200000001).run none) (.start {} ⟨1, 1⟩) =
        (.error (.iterationLimits low high), .start {} ⟨1, 1⟩) ∧
      outcome ((identity.complexSum 200000000 200000001).run none) (.start {} ⟨1, 1⟩) =
        (.error (.iterationLimits low high), .start {} ⟨1, 1⟩) := by
  constructor
  · have start : rounded (200000000 : ℝ) = 200000000 :=
      mod_cast rounded_intCast 200000000 (by norm_num) (by norm_num)
    have stop : rounded (200000001 : ℝ) = 200000001 :=
      mod_cast rounded_intCast 200000001 (by norm_num) (by norm_num)
    have range : (points 200000000 200000001 : List ℝ) =
        [((200000000 : ℤ) : ℝ), ((200000001 : ℤ) : ℝ)] := rfl
    refine ⟨?_, .cons rfl (.single rfl)⟩
    rw [start, stop, range]
    norm_num
  · have beyond : ¬ WithinLimits (200000000 : ℝ) 200000001 := by
      rw [withinLimits_iff]
      norm_num
    rw [sum, complexSum, integerBounds_of_beyond beyond]
    exact ⟨_, _, rfl, rfl⟩

end Problem

end UnitCalc

end

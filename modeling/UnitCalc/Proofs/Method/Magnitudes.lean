/-
# Methods and the magnitudes of values

The searches and the rules of integration and differentiation work with the bare magnitudes of
the values that their objective takes, in whatever units these are. So two objectives with the same
magnitudes have the same zeros, roots, extreme values, areas and slopes, as numbers, and a value in
centimetres counts a hundred times as much as the same length in metres. Units come in behind: an
extreme value has the unit of the last value, and areas and slopes are given theirs by it.

## Main definitions

* `SameMagnitudes`: objectives whose values differ in units only.
* `MethodM.SameNumber`: computations whose results differ in units only.

## Main results

* `Problem.methods_on_magnitudes`: the methods on objectives with the same magnitudes.
-/

import UnitCalc.Proofs.Method.Congruence
import UnitCalc.Proofs.Method.Reversed

namespace UnitCalc

open SessionM (outcome)

variable {α β R E : Type}

/-- The values of two objectives have the same numbers, and the session cannot tell them apart. -/
def SameMagnitudes (f g : R → SessionM (Quantity R E)) : Prop :=
  ∀ x s, (outcome (f x) s).1.map Quantity.num = (outcome (g x) s).1.map Quantity.num ∧
    (outcome (f x) s).2 = (outcome (g x) s).2

namespace MethodM

/-- From any last units, the computations end with the same result and the same session, but maybe
with different units. -/
def SameNumber (x y : MethodM R E SessionM α) : Prop :=
  ∀ u v s, (outcome (x.run u) s).1.map Prod.fst = (outcome (y.run v) s).1.map Prod.fst ∧
    (outcome (x.run u) s).2 = (outcome (y.run v) s).2

namespace SameNumber

variable {x y : MethodM R E SessionM α} {f g : α → MethodM R E SessionM β}

theorem pure (a : α) : SameNumber (Pure.pure a : MethodM R E SessionM α) (Pure.pure a) :=
  fun _ _ _ => ⟨rfl, rfl⟩

theorem throw (e : CalcError) :
    SameNumber (MonadExcept.throw e : MethodM R E SessionM α) (MonadExcept.throw e) :=
  fun _ _ _ => ⟨rfl, rfl⟩

theorem set (unit : Option (MeasureUnit R E)) :
    SameNumber (MonadStateOf.set unit : MethodM R E SessionM PUnit) (MonadStateOf.set unit) :=
  fun _ _ _ => ⟨rfl, rfl⟩

/-- Equal results are gone on with in the same way, whatever their units are. -/
theorem bind (first : SameNumber x y) (second : ∀ a, SameNumber (f a) (g a)) :
    SameNumber (x >>= f) (y >>= g) := by
  intro u v s
  obtain ⟨same, sessions⟩ := first u v s
  have opened : outcome ((x >>= f).run u) s = _ :=
    SessionM.outcome_bind (x.run u) (fun r => (f r.1).run r.2) s
  have opened' : outcome ((y >>= g).run v) s = _ :=
    SessionM.outcome_bind (y.run v) (fun r => (g r.1).run r.2) s
  rw [opened, opened']
  cases ended : outcome (x.run u) s with
  | mk r s₁ =>
    cases ended' : outcome (y.run v) s with
    | mk r' s₂ =>
      rw [ended, ended'] at same sessions
      subst sessions
      cases r with
      | error e =>
        cases r' with
        | error e' => cases same; exact ⟨rfl, rfl⟩
        | ok b => cases same
      | ok a =>
        cases r' with
        | error e' => cases same
        | ok b =>
          obtain ⟨a, u'⟩ := a
          obtain ⟨b, v'⟩ := b
          obtain rfl : a = b := Except.ok.inj same
          exact second a u' v' s₁

/-- Sequences of computations that agree in numbers do. -/
theorem congruence : Congruence (R := R) (E := E) SameNumber :=
  ⟨pure, bind, set⟩

end SameNumber

end MethodM

open MethodM SameNumber

namespace Problem

section Values

variable (p : Problem R E SessionM) {g : R → SessionM (Quantity R E)}

/-- The number at a point. -/
def numberAt (x : R) : MethodM R E SessionM (Complex R) := do
  return (← p.eval x).num

theorem outcome_numberAt (x : R) (u : Option (MeasureUnit R E)) (s : Session) :
    (outcome ((p.numberAt x).run u) s).1.map Prod.fst =
        (outcome (p.objective x) s).1.map Quantity.num ∧
      (outcome ((p.numberAt x).run u) s).2 = (outcome (p.objective x) s).2 := by
  cases probed : outcome (p.objective x) s with
  | mk r s' =>
    cases r with
    | ok q =>
      have ended : outcome ((p.numberAt x).run u) s = (.ok (q.num, q.unit), s') :=
        MethodM.outcome_bind_ok (eval_of_objective_ok probed u)
      rw [ended]
      exact ⟨rfl, rfl⟩
    | error e =>
      have lifted : outcome ((liftM (p.objective x) : MethodM R E SessionM _).run u) s =
          (.error e, s') := SessionM.outcome_bind_error probed
      have ended : outcome ((p.numberAt x).run u) s = (.error e, s') :=
        MethodM.outcome_bind_error (MethodM.outcome_bind_error lifted)
      rw [ended]
      exact ⟨rfl, rfl⟩

variable (same : SameMagnitudes p.objective g)

include same

theorem numberAt_sameNumber (x : R) :
    SameNumber (p.numberAt x) (({ p with objective := g } : Problem R E SessionM).numberAt x) := by
  intro u v s
  obtain ⟨number, session⟩ := p.outcome_numberAt x u s
  obtain ⟨number', session'⟩ :=
    ({ p with objective := g } : Problem R E SessionM).outcome_numberAt x v s
  rw [number, session, number', session']
  exact same x s

variable [Scalar R]

theorem value_sameNumber (x : R) :
    SameNumber (p.value x) (({ p with objective := g } : Problem R E SessionM).value x) := by
  have opened (p : Problem R E SessionM) : p.value x = (do
      let z ← p.numberAt x
      if p.isComplex && !z.isReal then throw (CalcError.cannotEvaluateAt (Scalar.text x))
      if !Scalar.isFinite z.re then throw (CalcError.notDefinedAt (Scalar.text x))
      return z.re) := by
    rw [numberAt, bind_assoc]
    rfl
  rw [opened, opened]
  refine .bind (p.numberAt_sameNumber same x) fun z => ?_
  exact congruence.guard (.throw _) (congruence.guard (.throw _) (.pure _))

theorem value?_sameNumber (x : R) :
    SameNumber (p.value? x) (({ p with objective := g } : Problem R E SessionM).value? x) := by
  have opened (p : Problem R E SessionM) : p.value? x = (do
      let z ← p.numberAt x
      if p.isComplex && !z.isReal then throw (CalcError.cannotEvaluateAt (Scalar.text x))
      return if Scalar.isFinite z.re then some z.re else none) := by
    rw [numberAt, bind_assoc]
    rfl
  rw [opened, opened]
  refine .bind (p.numberAt_sameNumber same x) fun z => ?_
  exact congruence.guard (.throw _) (.pure _)

/-- The size of an area by a rule that only depends on numbers. -/
theorem areaSize_sameNumber {rule rule' : R → R → MethodM R E SessionM R}
    (rules : ∀ left right, SameNumber (rule left right) (rule' left right)) (left right : R) :
    SameNumber (p.areaSize rule left right)
      (({ p with objective := g } : Problem R E SessionM).areaSize rule' left right) :=
  congruence.ite (.bind (p.value_sameNumber same _) fun _ => .pure _) (rules left right)

/-- All searches and rules have the same results on two objectives whose values have the same
numbers, whichever units these values are in. Areas and integrals are multiplied by a sign and
given a unit behind that, and so are slopes. -/
theorem methods_on_magnitudes (q : Problem R E SessionM)
    (replaced : q = { p with objective := g }) :
    (∀ start stop, SameNumber (p.find start stop) (q.find start stop)) ∧
    (∀ start stop target, SameNumber (p.root start stop target) (q.root start stop target)) ∧
    (∀ isMinimum start stop,
      SameNumber (p.extremeValue isMinimum start stop) (q.extremeValue isMinimum start stop)) ∧
    (∀ left right, SameNumber (p.areaSize p.lobatto left right)
      (q.areaSize q.lobatto left right)) ∧
    (∀ table left right, SameNumber (p.areaSize (p.tanhSinh table) left right)
      (q.areaSize (q.tanhSinh table) left right)) ∧
    (∀ step x, SameNumber (p.slopeWith step x) (q.slopeWith step x)) := by
  subst replaced
  have value := p.value_sameNumber same
  have value? := p.value?_sameNumber same
  refine ⟨?_, ?_, ?_, ?_, ?_, ?_⟩
  · exact p.find_congr congruence value
  · exact p.root_congr congruence value
  · exact p.extremeValue_congr congruence value
  · exact p.areaSize_sameNumber same (p.lobatto_congr congruence value)
  · intro table
    exact p.areaSize_sameNumber same (p.tanhSinh_congr congruence value value? table)
  · exact p.slopeWith_congr congruence value

end Values

noncomputable section

/-- A length of one metre everywhere, which is written in centimetres from 1 on. -/
def mixedMetre : Problem ℝ ℝ SessionM where
  objective x := return if x < 1
    then { num := .ofReal 1, unit := some (.named "m" ⟨0, 1, 0, 0, 0, 0, 0, 0, 0⟩ 1) }
    else { num := .ofReal 100, unit := some (.named "cm" ⟨0, 1, 0, 0, 0, 0, 0, 0, 0⟩ (1 / 100)) }
  isComplex := false
  unit := none
  precision := 0

/-- The numbers 1 and 100 instead. -/
def bareStep : Problem ℝ ℝ SessionM :=
  { mixedMetre with objective := fun x => return .real (if x < 1 then 1 else 100) }

/-- The mixed metre has the same area, as a number, as the step from 1 to 100. -/
theorem methods_on_magnitudes_mixed :
    SameMagnitudes mixedMetre.objective bareStep.objective ∧
    bareStep = { mixedMetre with objective := bareStep.objective } ∧
    ∀ left right, SameNumber (mixedMetre.areaSize mixedMetre.lobatto left right)
      (bareStep.areaSize bareStep.lobatto left right) := by
  have same : SameMagnitudes mixedMetre.objective bareStep.objective := by
    intro x s
    by_cases before : x < 1
    · simp only [mixedMetre, bareStep, before, if_true]
      exact ⟨rfl, rfl⟩
    · simp only [mixedMetre, bareStep, before, if_false]
      exact ⟨rfl, rfl⟩
  exact ⟨same, rfl, (mixedMetre.methods_on_magnitudes same bareStep rfl).2.2.2.1⟩

end

end Problem

end UnitCalc

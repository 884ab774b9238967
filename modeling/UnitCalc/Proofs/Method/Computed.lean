/-
# Objectives that compute a function

What a numerical method does depends on the values of its objective alone. When these are the
values of a function at all points of a set, a method whose points stay in the set is computed by
following the function. It is told by the points that it visits, one after the other, and by what
is left to do behind them.

Nothing is asked of the objective at other points, or in sessions that the evaluations do not lead
to.

## Main definitions

* `Problem.ComputesOn p f points s`: from the session `s` on, the objective has the values of `f`.
* `Problem.Reaches p f points x visited y`: `x` visits these points and goes on as `y`.
* `Problem.ofFunction`: the problem with a given function.

## Main results

* `Problem.Reaches.trans`, `Reaches.bind` and `reaches_value`: methods step by step.
-/

import UnitCalc.Proofs.Calculator.Exact
import UnitCalc.Proofs.Method.Probes

noncomputable section

namespace UnitCalc.Problem

open SessionM (outcome)

variable {α β E : Type} {p : Problem ℝ E SessionM} {f : ℝ → ℝ} {points : Set ℝ} {s s' : Session}
  {log : List (ℝ × Quantity ℝ E)} {visited visited' : List ℝ}

/-- From the session `s` on, however often the objective is evaluated at points of the set, it has
the real values of a function at all of them. -/
def ComputesOn (p : Problem ℝ E SessionM) (f : ℝ → ℝ) (points : Set ℝ) (s : Session) : Prop :=
  ∀ log s', p.Probes s log s' → (∀ e ∈ log, e.1 ∈ points) → ∀ x ∈ points,
    ∃ q s'', outcome (p.objective x) s' = (.ok q, s'') ∧ q.re = f x ∧ q.im = 0

/-- Evaluations at points of the set do not change the function. -/
theorem ComputesOn.after (computes : p.ComputesOn f points s) (probes : p.Probes s log s')
    (within : ∀ e ∈ log, e.1 ∈ points) : p.ComputesOn f points s' := by
  intro later s'' probes' within' x member
  apply computes (log ++ later) s'' (probes.append probes') _ x member
  intro e either
  rcases List.mem_append.1 either with before | behind
  · exact within e before
  · exact within' e behind

/-- Where the objective computes `f`, the computation `x` evaluates it at the visited points, one
after the other, and goes on as `y`. -/
def Reaches (p : Problem ℝ E SessionM) (f : ℝ → ℝ) (points : Set ℝ) (x : MethodM ℝ E SessionM α)
    (visited : List ℝ) (y : MethodM ℝ E SessionM α) : Prop :=
  ∀ u s, p.ComputesOn f points s → ∃ v s' log,
    outcome (x.run u) s = outcome (y.run v) s' ∧ p.Probes s log s' ∧
      log.map Prod.fst = visited ∧ p.ComputesOn f points s'

namespace Reaches

variable {x y z : MethodM ℝ E SessionM α} {g : α → MethodM ℝ E SessionM β} {a : α}

theorem refl (x : MethodM ℝ E SessionM α) : p.Reaches f points x [] x :=
  fun u s computes => ⟨u, s, [], rfl, .nil s, rfl, computes⟩

theorem trans (first : p.Reaches f points x visited y)
    (second : p.Reaches f points y visited' z) :
    p.Reaches f points x (visited ++ visited') z := by
  intro u s computes
  obtain ⟨v, s₁, log, same, probes, rfl, computes₁⟩ := first u s computes
  obtain ⟨w, s₂, log', same', probes', rfl, computes₂⟩ := second v s₁ computes₁
  exact ⟨w, s₂, log ++ log', same.trans same', probes.append probes', List.map_append,
    computes₂⟩

/-- What is left to do evaluates nothing any more. -/
theorem trans_nil (first : p.Reaches f points x visited y)
    (second : p.Reaches f points y [] z) : p.Reaches f points x visited z := by
  have both := first.trans second
  rwa [List.append_nil] at both

/-- A part that ends with a value, which is handed on. -/
theorem bind (first : p.Reaches f points x visited (pure a)) (g : α → MethodM ℝ E SessionM β) :
    p.Reaches f points (x >>= g) visited (g a) := by
  intro u s computes
  obtain ⟨v, s', log, ended, rest⟩ := first u s computes
  exact ⟨v, s', log, MethodM.outcome_bind_ok ended, rest⟩

/-- A computation that goes on as one that ends, ends. -/
theorem exists_outcome (reaches : p.Reaches f points x visited (pure a))
    (computes : p.ComputesOn f points s) (u : Option (MeasureUnit ℝ E)) :
    ∃ u' s' log, outcome (x.run u) s = (.ok (a, u'), s') ∧ p.Probes s log s' ∧
      log.map Prod.fst = visited := by
  obtain ⟨u', s', log, ended, probes, same, -⟩ := reaches u s computes
  exact ⟨u', s', log, ended, probes, same⟩

end Reaches

/-- The objective is evaluated at a point of the set. -/
theorem reaches_value {x : ℝ} (within : x ∈ points) :
    p.Reaches f points (p.value x) [x] (pure (f x)) := by
  intro u s computes
  obtain ⟨q, s', probed, value, real⟩ := computes [] s (.nil s) nofun x within
  refine ⟨q.unit, s', [(x, q)], ?_, .single probed, rfl, ?_⟩
  · rw [← value]
    exact value_of_objective_ok probed (beq_iff_eq.2 real) rfl u
  · apply computes.after (.single probed)
    simpa using within

/-- The problem with a given function, for a variable without a unit. -/
def ofFunction (f : ℝ → ℝ) (precision : ℝ) : Problem ℝ ℝ SessionM where
  objective x := return .real (f x)
  isComplex := false
  unit := none
  precision := precision

theorem computesOn_ofFunction (f : ℝ → ℝ) (precision : ℝ) (points : Set ℝ) (s : Session) :
    (ofFunction f precision).ComputesOn f points s :=
  fun _ s' _ _ _ _ => ⟨_, s', rfl, rfl, rfl⟩

end UnitCalc.Problem

end

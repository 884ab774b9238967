/-
# Probes of the objective

A numerical method touches the session only by evaluating its objective. What it did is therefore
told by the points that it evaluated the objective at, one after the other, with the values there.
The searches for a root and for an extreme value end with a last evaluation at their answer.

## Main definitions

* `Problem.Probes p s log s'`: from the session `s`, the objective was evaluated at the points of
  `log`, and this led to `s'`.

## Main results

* `Problem.exists_probes_bracket` and `exists_probes_root`: the answer of a search was the last
  point, and the residual there is within the tolerance.
* `Problem.exists_probes_extremeValue`: the extreme value was the last value.
-/

import UnitCalc.Method.Extremum
import UnitCalc.Method.Root
import UnitCalc.Proofs.Session.Outcome

namespace UnitCalc

open SessionM (outcome)

variable {α β R E : Type} {m : Type → Type}

/-- A composed computation of a method that ends well consists of parts that do. -/
theorem MethodM.exists_of_bind_ok {x : MethodM R E SessionM α} {f : α → MethodM R E SessionM β}
    {u u' : Option (MeasureUnit R E)} {s s' : Session} {b : β}
    (ended : outcome ((x >>= f).run u) s = (.ok (b, u'), s')) :
    ∃ a v s₁, outcome (x.run u) s = (.ok (a, v), s₁) ∧
      outcome ((f a).run v) s₁ = (.ok (b, u'), s') := by
  obtain ⟨⟨a, v⟩, s₁, first, second⟩ := SessionM.exists_of_bind_ok ended
  exact ⟨a, v, s₁, first, second⟩

/-- The first part of a computation of a method ends well. -/
theorem MethodM.outcome_bind_ok {x : MethodM R E SessionM α} {f : α → MethodM R E SessionM β}
    {u v : Option (MeasureUnit R E)} {s s' : Session} {a : α}
    (first : outcome (x.run u) s = (.ok (a, v), s')) :
    outcome ((x >>= f).run u) s = outcome ((f a).run v) s' :=
  SessionM.outcome_bind_ok first

/-- The first part of a computation of a method fails. -/
theorem MethodM.outcome_bind_error {x : MethodM R E SessionM α} {f : α → MethodM R E SessionM β}
    {u : Option (MeasureUnit R E)} {s s' : Session} {e : CalcError}
    (first : outcome (x.run u) s = (.error e, s')) :
    outcome ((x >>= f).run u) s = (.error e, s') :=
  SessionM.outcome_bind_error first

/-- A check that was passed. -/
theorem MethodM.of_guard_ok {c : Prop} [Decidable c] {e : CalcError}
    {k : PUnit → MethodM R E SessionM α} {u : Option (MeasureUnit R E)} {s s' : Session}
    {r : α × Option (MeasureUnit R E)}
    (ended : outcome ((if c then throw e >>= k else k ⟨⟩).run u) s = (.ok r, s')) :
    ¬ c ∧ outcome ((k ⟨⟩).run u) s = (.ok r, s') := by
  split at ended
  · obtain ⟨_, _, _, thrown, -⟩ := MethodM.exists_of_bind_ok ended
    cases thrown
  · next passed => exact ⟨passed, ended⟩

/-- A point goes into the interval as its last one. -/
theorem Bracket.last_narrow [Scalar R] (b : Bracket R) (x y : R) : (b.narrow x y).last = x := by
  unfold Bracket.narrow
  split <;> rfl

namespace Problem

/-- The objective was evaluated at these points, one after the other, and had these values. -/
inductive Probes (p : Problem R E SessionM) :
    Session → List (R × Quantity R E) → Session → Prop
  | nil (s : Session) : Probes p s [] s
  | cons {x : R} {q : Quantity R E} {s s₁ s' : Session} {log : List (R × Quantity R E)} :
      outcome (p.objective x) s = (.ok q, s₁) → Probes p s₁ log s' → Probes p s ((x, q) :: log) s'

variable [Scalar R] {p : Problem R E SessionM} {u u' : Option (MeasureUnit R E)}
  {s s₁ s' : Session} {log log' : List (R × Quantity R E)} {target x y r r' : R}

omit [Scalar R] in
theorem Probes.append (first : Probes p s log s₁) (second : Probes p s₁ log' s') :
    Probes p s (log ++ log') s' := by
  induction first with
  | nil => exact second
  | cons probed _ ih => exact .cons probed (ih second)

omit [Scalar R] in
/-- The evaluations at the first points and those at the others. -/
theorem Probes.exists_of_append (probes : p.Probes s (log ++ log') s') :
    ∃ s₁, p.Probes s log s₁ ∧ p.Probes s₁ log' s' := by
  induction log generalizing s with
  | nil => exact ⟨s, .nil s, probes⟩
  | cons e log ih =>
    obtain _ | ⟨probed, probes⟩ := probes
    obtain ⟨s₁, first, second⟩ := ih probes
    exact ⟨s₁, .cons probed first, second⟩

omit [Scalar R] in
theorem Probes.single {q : Quantity R E} (probed : outcome (p.objective x) s = (.ok q, s')) :
    Probes p s [(x, q)] s' :=
  .cons probed (.nil s')

omit [Scalar R] in
theorem exists_of_eval_ok {q : Quantity R E}
    (ended : outcome ((p.eval x).run u) s = (.ok (q, u'), s')) :
    outcome (p.objective x) s = (.ok q, s') ∧ u' = q.unit := by
  obtain ⟨q', v, s₁, first, second⟩ := MethodM.exists_of_bind_ok ended
  obtain ⟨q'', s₂, probed, lifted⟩ := SessionM.exists_of_bind_ok first
  cases lifted
  cases second
  exact ⟨probed, rfl⟩

omit [Scalar R] in
theorem eval_of_objective_ok {q : Quantity R E} (probed : outcome (p.objective x) s = (.ok q, s'))
    (u : Option (MeasureUnit R E)) :
    outcome ((p.eval x).run u) s = (.ok (q, q.unit), s') := by
  have lifted : outcome ((liftM (p.objective x) : MethodM R E SessionM _).run u) s =
      (.ok (q, u), s') := SessionM.outcome_bind_ok probed
  exact MethodM.outcome_bind_ok lifted

/-- An evaluation that is real and finite has a value. -/
theorem value_of_objective_ok {q : Quantity R E} (probed : outcome (p.objective x) s = (.ok q, s'))
    (real : q.isReal = true) (finite : Scalar.isFinite q.re = true)
    (u : Option (MeasureUnit R E)) :
    outcome ((p.value x).run u) s = (.ok (q.re, q.unit), s') := by
  refine (MethodM.outcome_bind_ok (eval_of_objective_ok probed u)).trans ?_
  simp only [real, finite, Bool.not_true, Bool.and_false, Bool.false_eq_true, if_false]
  rfl

/-- The value at a point is that of one evaluation, which was finite. -/
theorem exists_of_value_ok (ended : outcome ((p.value x).run u) s = (.ok (y, u'), s')) :
    ∃ q, outcome (p.objective x) s = (.ok q, s') ∧ q.re = y ∧ Scalar.isFinite q.re = true := by
  obtain ⟨q, v, s₁, evaluated, ended⟩ := MethodM.exists_of_bind_ok ended
  obtain ⟨-, ended⟩ := MethodM.of_guard_ok ended
  obtain ⟨finite, ended⟩ := MethodM.of_guard_ok ended
  cases ended
  exact ⟨q, (exists_of_eval_ok evaluated).1, rfl, by simpa using finite⟩

/-! ## Roots -/

/-- The search ended with the answer `x` right behind the evaluation there, and `r` is the residual
that it had. -/
def EndsAt (p : Problem R E SessionM) (target : R) (s s' : Session) (x r : R) : Prop :=
  ∃ log q, p.Probes s (log ++ [(x, q)]) s' ∧ Scalar.isFinite q.re = true ∧
    r = Scalar.abs (q.re - target)

/-- The steps of a search end behind the evaluation at the answer, unless a step left the
interval. The induction is on the steps that are left, and the last point of the search is the one
of the step before. -/
theorem exists_probes_bracketFrom {t : Tolerance R} {b : Bracket R} (steps : Nat)
    (ended : outcome ((p.bracketFrom target t steps b r).run u) s = (.ok ((x, r'), u'), s')) :
    u' = p.unit ∧ (x = Scalar.nan ∨ p.EndsAt target s s' x r' ∨
      (steps = 0 ∧ s' = s ∧ x = b.last ∧ r' = r)) := by
  induction steps generalizing b r u s with
  | zero =>
    cases ended
    exact ⟨rfl, .inr (.inr ⟨rfl, rfl, rfl, rfl⟩)⟩
  | succ steps ih =>
    rw [bracketFrom] at ended
    split at ended
    · cases ended
      exact ⟨rfl, .inl rfl⟩
    · obtain ⟨y, v, s₁, evaluated, ended⟩ := MethodM.exists_of_bind_ok ended
      obtain ⟨q, probed, rfl, finite⟩ := exists_of_value_ok evaluated
      dsimp only at ended
      -- whether the search goes on bisecting does not matter
      generalize (if (b.bisecting && b.looksLinear (q.re - target)) = true then
        { b with bisecting := false } else b) = turned at ended
      split at ended
      · cases ended
        exact ⟨rfl, .inr (.inl ⟨[], q, .single probed, finite, rfl⟩)⟩
      · obtain ⟨unit, undefined | ⟨log, q', probes, last⟩ | ⟨-, rfl, point, rfl⟩⟩ := ih ended
        · exact ⟨unit, .inl undefined⟩
        · exact ⟨unit, .inr (.inl ⟨_ :: log, q', .cons probed probes, last⟩)⟩
        · have last : x = b.nextPoint := by
            rw [point]
            split <;> exact Bracket.last_narrow _ _ _
          subst last
          exact ⟨unit, .inr (.inl ⟨[], q, .single probed, finite, rfl⟩)⟩

/-- A root whose residual is larger is undefined. -/
def rootLimit (p : Problem R E m) (target : R) : R :=
  let limit := Scalar.sqrt p.precision
  if target != 0 then limit * Scalar.abs target else limit

/-- The value `y` solves an equation: it is within the precision of the target, or the residual is
not larger than the limit. -/
def Solves (p : Problem R E m) (target y : R) : Prop :=
  Scalar.abs (y - target) ≤ p.precision ∨ ¬ p.rootLimit target < Scalar.abs (y - target)

/-- The answer of the bracketing search was its last point. -/
theorem exists_probes_bracket {start stop : R}
    (ended : outcome ((p.bracket start stop target).run u) s = (.ok ((x, r), u'), s')) :
    u' = p.unit ∧ (x = Scalar.nan ∨ ∃ log q, p.Probes s (log ++ [(x, q)]) s' ∧
      Scalar.isFinite q.re = true ∧ (r = Scalar.abs (q.re - target) ∨
        r = 0 ∧ Scalar.abs (q.re - target) ≤ p.precision)) := by
  rw [bracket] at ended
  obtain ⟨left, v, s₁, evaluated, ended⟩ := MethodM.exists_of_bind_ok ended
  obtain ⟨q, probed, rfl, finite⟩ := exists_of_value_ok evaluated
  dsimp only at ended
  split at ended
  · next within =>
    cases ended
    exact ⟨rfl, .inr ⟨[], q, .single probed, finite, .inr ⟨rfl, within⟩⟩⟩
  · obtain ⟨right, v', s₂, evaluated', ended⟩ := MethodM.exists_of_bind_ok ended
    obtain ⟨q', probed', rfl, finite'⟩ := exists_of_value_ok evaluated'
    split at ended
    · next within =>
      cases ended
      exact ⟨rfl, .inr ⟨[_], q', .cons probed (.single probed'), finite', .inr ⟨rfl, within⟩⟩⟩
    · obtain ⟨unit, undefined | ⟨log, q'', probes, finite'', residual⟩ | ⟨none, -⟩⟩ :=
        exists_probes_bracketFrom maxBracketSteps ended
      · exact ⟨unit, .inl undefined⟩
      · exact ⟨unit, .inr ⟨_ :: _ :: log, q'', .cons probed (.cons probed' probes), finite'',
          .inl residual⟩⟩
      · cases none

/-- The value at a root that is a number was the last one, and it solves the equation. -/
theorem exists_probes_root {start stop : R}
    (ended : outcome ((p.root start stop target).run u) s = (.ok (x, u'), s')) :
    u' = p.unit ∧ (x = Scalar.nan ∨ ∃ log q, p.Probes s (log ++ [(x, q)]) s' ∧
      Scalar.isFinite q.re = true ∧ p.Solves target q.re) := by
  rw [root] at ended
  obtain ⟨⟨z, r⟩, v, s₁, bracketed, ended⟩ := MethodM.exists_of_bind_ok ended
  obtain ⟨unit, solution⟩ := exists_probes_bracket bracketed
  have same : outcome ((pure (if p.rootLimit target < r then Scalar.nan else z) :
      MethodM R E SessionM R).run v) s₁ = (.ok (x, u'), s') := ended
  cases same
  refine ⟨unit, ?_⟩
  split
  · exact .inl rfl
  · next within =>
    obtain undefined | ⟨log, q, probes, finite, rfl | ⟨-, accepted⟩⟩ := solution
    · exact .inl undefined
    · exact .inr ⟨log, q, probes, finite, .inr within⟩
    · exact .inr ⟨log, q, probes, finite, .inl accepted⟩

end Problem

/-! ## Extreme values -/

namespace Section

variable [Scalar R]

/-- The next step leaves the left part of the section. -/
def goesLeft (c : Section R) (isMinimum : Bool) : Bool :=
  isMinimum == decide (c.lowerValue < c.upperValue)

/-- The point that a step adds in the part that it leaves. -/
def newPoint (c : Section R) (toLeft : Bool) : R :=
  if toLeft then c.upper - Problem.goldenRatio * (c.upper - c.left)
  else c.lower + Problem.goldenRatio * (c.right - c.lower)

/-- The part that a step leaves, with the value at the new point. -/
def narrow (c : Section R) (toLeft : Bool) (y : R) : Section R :=
  if toLeft then
    { c with
      right := c.upper, upper := c.lower, upperValue := c.lowerValue
      lower := c.newPoint true, lowerValue := y }
  else
    { c with
      left := c.lower, lower := c.upper, lowerValue := c.upperValue
      upper := c.newPoint false, upperValue := y }

/-- A search ends with this section. -/
def isShort (c : Section R) (level limit : R) : Bool :=
  !(limit < c.right - c.left) || (c.lowerValue == c.upperValue && c.right - c.left < level)

end Section

namespace Problem

variable [Scalar R]

/-- One step of a section search. -/
theorem sectionFrom_succ [Monad m] [MonadExceptOf CalcError m] (p : Problem R E m)
    (isMinimum : Bool) (level limit : R) (steps : Nat) (c : Section R) :
    p.sectionFrom isMinimum level (steps + 1) limit c =
      if c.isShort level limit then return c
      else (do
        let y ← p.value (c.newPoint (c.goesLeft isMinimum))
        let c := c.narrow (c.goesLeft isMinimum) y
        p.sectionFrom isMinimum level steps (sectionFrom.nextLimit p c) c) := by
  rw [sectionFrom]
  refine ite_congr rfl (fun _ => rfl) fun _ => ?_
  cases side : c.goesLeft isMinimum with
  | true => exact if_pos side
  | false => exact if_neg (Bool.eq_false_iff.1 side)

variable {p : Problem R E SessionM} {u u' : Option (MeasureUnit R E)} {s s' : Session} {y : R}

/-- The steps of a section search evaluate the objective, and do nothing else. -/
theorem exists_probes_sectionFrom {isMinimum : Bool} {level limit : R} {c c' : Section R}
    (steps : Nat)
    (ended : outcome ((p.sectionFrom isMinimum level steps limit c).run u) s =
      (.ok (c', u'), s')) :
    ∃ log, p.Probes s log s' := by
  induction steps generalizing limit c u s with
  | zero =>
    cases ended
    exact ⟨[], .nil _⟩
  | succ steps ih =>
    rw [sectionFrom_succ] at ended
    split at ended
    · cases ended
      exact ⟨[], .nil _⟩
    · obtain ⟨y, v, s₁, evaluated, ended⟩ := MethodM.exists_of_bind_ok ended
      obtain ⟨q, probed, rfl, -⟩ := exists_of_value_ok evaluated
      obtain ⟨log, probes⟩ := ih ended
      exact ⟨_ :: log, .cons probed probes⟩

/-- The extreme value was the last value. -/
theorem exists_probes_extremeValue {isMinimum : Bool} {start stop : R}
    (ended : outcome ((p.extremeValue isMinimum start stop).run u) s = (.ok (y, u'), s')) :
    ∃ log x q, p.Probes s (log ++ [(x, q)]) s' ∧ q.re = y := by
  rw [extremeValue] at ended
  obtain ⟨lower, v, s₁, evaluated, ended⟩ := MethodM.exists_of_bind_ok ended
  obtain ⟨q, probed, rfl, -⟩ := exists_of_value_ok evaluated
  obtain ⟨upper, v', s₂, evaluated', ended⟩ := MethodM.exists_of_bind_ok ended
  obtain ⟨q', probed', rfl, -⟩ := exists_of_value_ok evaluated'
  obtain ⟨c, v'', s₃, searched, ended⟩ := MethodM.exists_of_bind_ok ended
  obtain ⟨log, probes⟩ := exists_probes_sectionFrom maxSections searched
  have whole {x : R} (last : outcome ((p.value x).run v'') s₃ = (.ok (y, u'), s')) :
      ∃ log x q, p.Probes s (log ++ [(x, q)]) s' ∧ q.re = y := by
    obtain ⟨q'', probed'', value, -⟩ := exists_of_value_ok last
    exact ⟨_ :: _ :: log, x, q'',
      .cons probed (.cons probed' (probes.append (.single probed''))), value⟩
  split at ended
  · exact whole ended
  · split at ended <;> exact whole ended

end Problem

end UnitCalc

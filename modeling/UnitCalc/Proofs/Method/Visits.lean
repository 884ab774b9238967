/-
# The points of an iteration

An iteration evaluates its objective at the integers between its rounded bounds, each once and in
increasing order. It ends early only when an evaluation fails or what was computed so far is
infinite. An iteration that keeps the last value evaluates nothing on an empty range. Sums and
products evaluate their first term before they look at the end of the range, so on an empty range
they evaluate the objective at the first bound.

The points are recorded next to the session, so that they are known also when the objective leaves
no trace in it.

## Main definitions

* `Iteration` and `Problem.iteration`: the iterating methods as one.
* `Problem.recorded`: the objective records the points that it is evaluated at.
* `MethodM.Visits P x y`: what `y` records while it does what `x` does.
* `Problem.integers` and `points`: the integers of a range, and the points they are.
* `Problem.Covers`: the first points of a range, or all of them.

## Main results

* `Problem.repeatFrom_visits`: a loop covers its range.
* `Problem.iteration_visits`: the points of the iterating methods.
-/

import UnitCalc.Proofs.Method.Extremum
import UnitCalc.Session.BlockValue

namespace UnitCalc

open SessionM (outcome)

variable {α β R E : Type}

/-! ## Iterating methods -/

/-- The methods that iterate over integers. -/
inductive Iteration where
  | iterate
  | sum
  | product
deriving DecidableEq

/-- The name of an iterating method among all methods. -/
def Iteration.method : Iteration → Method
  | iterate => .iterate
  | sum => .sum
  | product => .product

/-- An iterating method, on complex values when there may be some. -/
def Problem.iteration {m : Type → Type} [Scalar R] [Exponent E] [Narrowing R E] [Monad m]
    [MonadExceptOf CalcError m] (p : Problem R E m) (kind : Iteration) (start stop : R) :
    MethodM R E m (Complex R) := do
  match kind with
  | .iterate =>
    if p.isComplex then p.complexIterate start stop else return (← p.iterate start stop).num
  | .sum => if p.isComplex then p.complexSum start stop else return .ofReal (← p.sum start stop)
  | .product =>
    if p.isComplex then p.complexProduct start stop else return .ofReal (← p.product start stop)

/-- Blocks compute what the iterating methods do. -/
theorem Method.compute_iteration (kind : Iteration) (p : Problem Float Float32 SessionM)
    (start stop target : Float) :
    kind.method.compute p start stop target = p.iteration kind start stop := by
  cases kind <;> rfl

/-! ## Recorded evaluations -/

/-- A computation in a session, with the points that an objective was evaluated at. -/
abbrev RecordM (R : Type) :=
  ExceptT CalcError (StateM (Session × List R))

/-- What a recording computation ends with. -/
def RecordM.outcome (x : RecordM R α) (s : Session) (points : List R) :
    Except CalcError α × Session × List R :=
  x (s, points)

theorem RecordM.outcome_bind (x : RecordM R α) (f : α → RecordM R β) (s : Session)
    (points : List R) :
    (x >>= f).outcome s points = match x.outcome s points with
      | (.ok a, s', points') => (f a).outcome s' points'
      | (.error e, s', points') => (.error e, s', points') := by
  have opened : (x >>= f).outcome s points =
      ExceptT.bindCont f (x.outcome s points).1 (x.outcome s points).2 := rfl
  rw [opened]
  cases x.outcome s points with
  | mk r s' => cases r <;> rfl

/-- The same problem, whose objective records the points that it is evaluated at. -/
def Problem.recorded (p : Problem R E SessionM) : Problem R E (RecordM R) where
  objective x := fun (s, points) =>
    let (r, s') := outcome (p.objective x) s
    (r, s', points ++ [x])
  isComplex := p.isComplex
  unit := p.unit
  precision := p.precision

/-- From every session and every last unit, `y` does what `x` does, and `P` tells from the result
which points it records. -/
def MethodM.Visits (P : Except CalcError α → List R → Prop) (x : MethodM R E SessionM α)
    (y : MethodM R E (RecordM R) α) : Prop :=
  ∀ u s past, ∃ points,
    RecordM.outcome (y.run u) s past =
      ((outcome (x.run u) s).1, (outcome (x.run u) s).2, past ++ points) ∧
    P ((outcome (x.run u) s).1.map Prod.fst) points

namespace MethodM.Visits

variable {P P' : Except CalcError α → List R → Prop} {Q : α → Except CalcError β → List R → Prop}
  {T : Except CalcError β → List R → Prop} {x x' : MethodM R E SessionM α}
  {y y' : MethodM R E (RecordM R) α} {f : α → MethodM R E SessionM β}
  {g : α → MethodM R E (RecordM R) β}

theorem mono (visits : Visits P x y) (weaker : ∀ r points, P r points → P' r points) :
    Visits P' x y := by
  intro u s past
  obtain ⟨points, same, known⟩ := visits u s past
  exact ⟨points, same, weaker _ _ known⟩

theorem pure {a : α} (none : P (.ok a) []) :
    Visits P (Pure.pure a : MethodM R E SessionM α) (Pure.pure a) :=
  fun _ s past => ⟨[], congrArg (fun points => (_, s, points)) (List.append_nil past).symm, none⟩

theorem throw {e : CalcError} (none : P (.error e) []) :
    Visits P (MonadExcept.throw e : MethodM R E SessionM α) (MonadExcept.throw e) :=
  fun _ s past => ⟨[], congrArg (fun points => (_, s, points)) (List.append_nil past).symm, none⟩

theorem get :
    Visits (fun _ points => points = []) (get : MethodM R E SessionM _) MonadState.get :=
  fun _ s past => ⟨[], congrArg (fun points => (_, s, points)) (List.append_nil past).symm, rfl⟩

theorem set (unit : Option (MeasureUnit R E)) :
    Visits (fun _ points => points = []) (set unit : MethodM R E SessionM _)
      (MonadStateOf.set unit) :=
  fun _ s past => ⟨[], congrArg (fun points => (_, s, points)) (List.append_nil past).symm, rfl⟩

/-- The points of the second part come behind those of the first, unless that fails. -/
theorem bind (first : Visits P x y) (second : ∀ a, Visits (Q a) (f a) (g a))
    (failed : ∀ e points, P (.error e) points → T (.error e) points)
    (whole : ∀ a r points points', P (.ok a) points → Q a r points' → T r (points ++ points')) :
    Visits T (x >>= f) (y >>= g) := by
  intro u s past
  obtain ⟨points, same, known⟩ := first u s past
  have opened : RecordM.outcome ((y >>= g).run u) s past = _ :=
    RecordM.outcome_bind (y.run u) (fun r => (g r.1).run r.2) s past
  have opened' : outcome ((x >>= f).run u) s = _ :=
    SessionM.outcome_bind (x.run u) (fun r => (f r.1).run r.2) s
  rw [opened, opened', same]
  cases ended : outcome (x.run u) s with
  | mk r s' =>
    rw [ended] at known
    cases r with
    | error e => exact ⟨points, rfl, failed e points known⟩
    | ok a =>
      obtain ⟨points', same', known'⟩ := second a.1 a.2 s' (past ++ points)
      exact ⟨points ++ points', by rw [← List.append_assoc]; exact same',
        whole a.1 _ points points' known known'⟩

/-- A result that is turned into another one. -/
theorem map (visits : Visits P x y) (f : α → β)
    (turned : ∀ r points, P r points → T (r.map f) points) :
    Visits T (do return f (← x)) (do return f (← y)) := by
  intro u s past
  obtain ⟨points, same, known⟩ := visits u s past
  have opened : RecordM.outcome ((do return f (← y) : MethodM R E (RecordM R) β).run u) s past =
      _ := RecordM.outcome_bind (y.run u) (fun r => Pure.pure (f r.1, r.2)) s past
  have opened' : outcome ((do return f (← x) : MethodM R E SessionM β).run u) s = _ :=
    SessionM.outcome_bind (x.run u) (fun r => Pure.pure (f r.1, r.2)) s
  refine ⟨points, ?_, ?_⟩
  · rw [opened, opened', same]
    cases outcome (x.run u) s with
    | mk r s' => cases r <;> rfl
  · rw [opened']
    cases ended : outcome (x.run u) s with
    | mk r s' =>
      rw [ended] at known
      cases r <;> exact turned _ points known

/-- A part that is followed by one that records nothing. -/
theorem bind_nothing {points : List R} (first : Visits (fun _ past => past = points) x y)
    (second : ∀ a, Visits (fun _ past => past = []) (f a) (g a)) :
    Visits (fun _ past => past = points) (x >>= f) (y >>= g) :=
  first.bind second (fun _ _ same => same) fun _ _ _ _ same none => by
    rw [same, none, List.append_nil]

theorem ite {c : Prop} [Decidable c] (first : Visits P x y) (second : Visits P x' y') :
    Visits P (if c then x else x') (if c then y else y') := by
  split
  · exact first
  · exact second

/-- A check that stops a computation. -/
theorem guard {c : Prop} [Decidable c] {e : CalcError} {k : PUnit → MethodM R E SessionM α}
    {k' : PUnit → MethodM R E (RecordM R) α}
    (behind : Visits (fun _ past => past = []) (k ⟨⟩) (k' ⟨⟩)) :
    Visits (fun _ past => past = []) (if c then MonadExcept.throw e >>= k else k ⟨⟩)
      (if c then MonadExcept.throw e >>= k' else k' ⟨⟩) :=
  ite (bind_nothing (.throw rfl) fun ⟨⟩ => behind) behind

end MethodM.Visits

open MethodM (Visits)

namespace Problem

variable [Scalar R] (p : Problem R E SessionM)

/-! ## Values of the objective -/

omit [Scalar R] in
theorem eval_visits (x : R) :
    Visits (fun _ points => points = [x]) (p.eval x) (p.recorded.eval x) := by
  have objective : Visits (E := E) (fun _ points => points = [x]) (liftM (p.objective x))
      (liftM (p.recorded.objective x)) := by
    intro u s past
    have opened : RecordM.outcome ((liftM (p.recorded.objective x) : MethodM R E _ _).run u) s
        past = _ := RecordM.outcome_bind _ _ s past
    have opened' : outcome ((liftM (p.objective x) : MethodM R E _ _).run u) s = _ :=
      SessionM.outcome_bind _ _ s
    have recorded : RecordM.outcome (p.recorded.objective x) s past =
        ((outcome (p.objective x) s).1, (outcome (p.objective x) s).2, past ++ [x]) := rfl
    rw [opened, opened', recorded]
    cases outcome (p.objective x) s with
    | mk r s' => cases r <;> exact ⟨[x], rfl, rfl⟩
  exact objective.bind_nothing fun q => .bind_nothing (.set q.unit) fun _ => .pure rfl

theorem value_visits (x : R) :
    Visits (fun _ points => points = [x]) (p.value x) (p.recorded.value x) :=
  (p.eval_visits x).bind_nothing fun _ => .guard (.guard (.pure rfl))

theorem complexValue_visits (x : R) :
    Visits (fun _ points => points = [x]) (p.complexValue x) (p.recorded.complexValue x) :=
  (p.eval_visits x).bind_nothing fun _ => .guard (.pure rfl)

theorem quantity_visits (x : R) :
    Visits (fun _ points => points = [x]) (p.quantity x) (p.recorded.quantity x) :=
  (p.eval_visits x).bind_nothing fun _ => .guard (.pure rfl)

/-! ## Ranges -/

/-- The integers from `k` on. -/
def integersFrom (k : Int) : Nat → List Int
  | 0 => []
  | count + 1 => k :: integersFrom (k + 1) count

theorem mem_integersFrom {j k : Int} {count : Nat} :
    j ∈ integersFrom k count ↔ k ≤ j ∧ j < k + count := by
  induction count generalizing k with
  | zero =>
    simp only [integersFrom, List.not_mem_nil, false_iff]
    omega
  | succ count ih =>
    simp only [integersFrom, List.mem_cons, ih]
    omega

theorem pairwise_integersFrom (k : Int) (count : Nat) :
    (integersFrom k count).Pairwise (· < ·) := by
  induction count generalizing k with
  | zero => exact .nil
  | succ count ih => exact .cons (fun j within => by rw [mem_integersFrom] at within; omega) (ih _)

/-- The integers from one to another. -/
def integers (first last : Int) : List Int :=
  integersFrom first (span first last)

theorem mem_integers {j first last : Int} : j ∈ integers first last ↔ first ≤ j ∧ j ≤ last := by
  rw [integers, mem_integersFrom, span]
  omega

/-- A range that is not empty begins with its first integer. -/
theorem integers_of_le {first last : Int} (ascending : first ≤ last) :
    integers first last = first :: integers (first + 1) last := by
  have count : span first last = span (first + 1) last + 1 := by
    unfold span
    omega
  rw [integers, count]
  rfl

theorem integers_of_lt {first last : Int} (descending : last < first) :
    integers first last = [] := by
  have count : span first last = 0 := by
    unfold span
    omega
  rw [integers, count]
  rfl

/-! ## Loops -/

/-- What an iteration over a range may record: the first points of the range, and all of them
unless an evaluation failed or the result is infinite. -/
def Covers (isInfinite : α → Bool) (range : List R) (r : Except CalcError α) (points : List R) :
    Prop :=
  points <+: range ∧
    (points = range ∨ (∃ e, r = .error e) ∨ ∃ a, r = .ok a ∧ isInfinite a = true)

omit [Scalar R] in
/-- A point in front of a range. -/
theorem Covers.cons {isInfinite : α → Bool} {range points : List R} {r : Except CalcError α}
    (covers : Covers isInfinite range r points) (x : R) :
    Covers isInfinite (x :: range) r (x :: points) :=
  ⟨List.cons_prefix_cons.2 ⟨rfl, covers.1⟩, covers.2.imp_left (congrArg (x :: ·))⟩

omit [Scalar R] in
/-- Of a range that is not empty, the first point was recorded. -/
theorem covers_of_single {isInfinite : α → Bool} {range : List R} {r : Except CalcError α} (x : R)
    (ended : (∃ e, r = .error e) ∨ ∃ a, r = .ok a ∧ isInfinite a = true) :
    Covers isInfinite (x :: range) r [x] :=
  ⟨List.cons_prefix_cons.2 ⟨rfl, List.nil_prefix⟩, .inr ended⟩

/-- A loop whose steps evaluate the objective once. The induction is on the steps that are left. -/
theorem repeatFrom_visits {S : Type} {step : S → R → MethodM R E SessionM S}
    {step' : S → R → MethodM R E (RecordM R) S}
    (once : ∀ a x, Visits (fun _ points => points = [x]) (step a x) (step' a x))
    (stop : S → Bool) (count : Nat) (k : Int) (a : S) :
    Visits (Covers stop ((integersFrom k count).map Scalar.ofInt))
      (repeatFrom step stop count k a) (repeatFrom step' stop count k a) := by
  induction count generalizing k a with
  | zero => exact .pure ⟨List.nil_prefix, .inl rfl⟩
  | succ count ih =>
    let behind (b : S) : Except CalcError S → List R → Prop := fun r points =>
      if stop b then r = .ok b ∧ points = []
      else Covers stop ((integersFrom (k + 1) count).map Scalar.ofInt) r points
    have second (b : S) : Visits (behind b)
        (if stop b then pure b else repeatFrom step stop count (k + 1) b)
        (if stop b then pure b else repeatFrom step' stop count (k + 1) b) := by
      by_cases stops : stop b
      · simp only [behind, stops, if_true]
        exact .pure ⟨rfl, rfl⟩
      · simp only [behind, stops]
        exact ih (k + 1) b
    refine (once a (Scalar.ofInt k)).bind second ?_ ?_
    · rintro e points rfl
      exact covers_of_single _ (.inl ⟨e, rfl⟩)
    · rintro b r points points' rfl known
      by_cases stops : stop b
      · simp only [behind, stops, if_true] at known
        obtain ⟨rfl, rfl⟩ := known
        exact covers_of_single _ (.inr ⟨b, rfl, stops⟩)
      · simp only [behind, stops] at known
        exact known.cons _

omit [Scalar R] in
/-- What becomes of a covered range when its last state is turned into a result. -/
theorem Covers.finish {S : Type} {stop : S → Bool} {isInfinite : α → Bool} {range points : List R}
    {r : Except CalcError S} (covers : Covers stop range r points) (value : S → α)
    (infinite : ∀ a, stop a = true → isInfinite (value a) = true) :
    Covers isInfinite range (r.map value) points := by
  obtain ⟨first, all | ⟨e, rfl⟩ | ⟨a, rfl, stops⟩⟩ := covers
  · exact ⟨first, .inl all⟩
  · exact ⟨first, .inr (.inl ⟨e, rfl⟩)⟩
  · exact ⟨first, .inr (.inr ⟨value a, rfl, infinite a stops⟩)⟩

/-- A first evaluation, and others that cover a range unless the first one failed. -/
def Begins (isInfinite : α → Bool) (x : R) (range : List R) (r : Except CalcError α)
    (points : List R) : Prop :=
  (points = [x] ∧ ∃ e, r = .error e) ∨
    ∃ behind, points = x :: behind ∧ Covers isInfinite range r behind

omit [Scalar R] in
/-- A loop whose last state becomes the result, and the unit of the result. -/
theorem finish_visits {S V : Type} {isInfinite : V → Bool} {stop : S → Bool} {range : List R}
    {loop : MethodM R E SessionM S} {loop' : MethodM R E (RecordM R) S}
    (covered : Visits (Covers stop range) loop loop') (unitOf : S → Option (MeasureUnit R E))
    (value : S → V) (infinite : ∀ a, stop a = true → isInfinite (value a) = true) :
    Visits (Covers isInfinite range)
      (do let a ← loop; set (unitOf a); return value a)
      (do let a ← loop'; set (unitOf a); return value a) := by
  have last (a : S) : Visits (fun r points => points = [] ∧ r = .ok (value a))
      (do set (unitOf a); return value a : MethodM R E SessionM V)
      (do set (unitOf a); return value a) :=
    fun _ s past => ⟨[], congrArg (fun points => (_, s, points)) (List.append_nil past).symm,
      rfl, rfl⟩
  refine covered.bind last (fun e points covers => ?_) (fun a r points points' covers known => ?_)
  · exact covers.finish value infinite
  · obtain ⟨rfl, rfl⟩ := known
    rw [List.append_nil]
    exact covers.finish value infinite

omit [Scalar R] in
/-- A first term with its unit, and a loop over the other terms. -/
theorem begins_visits {A V : Type} {x : R} {isInfinite : V → Bool} {range : List R}
    {term : MethodM R E SessionM A} {term' : MethodM R E (RecordM R) A}
    {others : A → Option (MeasureUnit R E) → MethodM R E SessionM V}
    {others' : A → Option (MeasureUnit R E) → MethodM R E (RecordM R) V}
    (first : Visits (fun _ points => points = [x]) term term')
    (covered : ∀ a unit, Visits (Covers isInfinite range) (others a unit) (others' a unit)) :
    Visits (Begins isInfinite x range)
      (do let a ← term; let unit ← get; others a unit)
      (do let a ← term'; let unit ← get; others' a unit) := by
  have behind (a : A) : Visits (Covers isInfinite range)
      (do let unit ← get; others a unit) (do let unit ← get; others' a unit) :=
    fun u => covered a u u
  refine first.bind behind (fun e points same => .inl ⟨same, e, rfl⟩) ?_
  rintro a r points points' rfl covers
  exact .inr ⟨points', rfl, covers⟩

/-! ## Methods -/

/-- Bounds that are not too far from zero. -/
def WithinLimits (start stop : R) : Prop :=
  ¬ iterationLimit < Scalar.abs start ∧ ¬ iterationLimit < Scalar.abs stop

instance (start stop : R) : Decidable (WithinLimits start stop) :=
  inferInstanceAs (Decidable (_ ∧ _))

/-- The integer that a bound is rounded to. -/
def rounded (x : R) : Int :=
  Scalar.toInt (Scalar.round x)

theorem integerBounds_of_within {m : Type → Type} [Monad m] [MonadExceptOf CalcError m]
    {start stop : R} (within : WithinLimits start stop) :
    integerBounds start stop = (pure (rounded start, rounded stop) : MethodM R E m _) := by
  have passed : ¬ (iterationLimit < Scalar.abs start || iterationLimit < Scalar.abs stop) := by
    simpa [WithinLimits] using within
  exact if_neg passed

theorem integerBounds_of_beyond {m : Type → Type} [Monad m] [MonadExceptOf CalcError m]
    {start stop : R} (beyond : ¬ WithinLimits start stop) :
    integerBounds start stop = (throw (CalcError.iterationLimits
      (Scalar.text (-iterationLimit : R)) (Scalar.text (iterationLimit : R))) :
        MethodM R E m _) := by
  have stopped :
      (iterationLimit < Scalar.abs start || iterationLimit < Scalar.abs stop) = true := by
    rw [Bool.or_eq_true, decide_eq_true_iff, decide_eq_true_iff]
    by_contra neither
    exact beyond (not_or.1 neither)
  exact if_pos stopped

variable {start stop : R} (within : WithinLimits start stop)

/-- The points of a range. -/
def points (first last : Int) : List R :=
  (integers first last).map Scalar.ofInt

/-- What the methods that begin with a first term record. -/
abbrev BeginsAt (isInfinite : α → Bool) (start stop : R) : Except CalcError α → List R → Prop :=
  Begins isInfinite (Scalar.ofInt (rounded start)) (points (rounded start + 1) (rounded stop))

include within

theorem iterate_visits :
    Visits (Covers (fun q => Scalar.isInfinite q.re) (points (rounded start) (rounded stop)))
      (p.iterate start stop) (p.recorded.iterate start stop) := by
  simp only [iterate, integerBounds_of_within within, pure_bind]
  exact repeatFrom_visits (fun _ => p.quantity_visits) _ _ _ _

theorem complexIterate_visits :
    Visits (Covers Complex.isInfinite (points (rounded start) (rounded stop)))
      (p.complexIterate start stop) (p.recorded.complexIterate start stop) := by
  simp only [complexIterate, integerBounds_of_within within, pure_bind]
  exact repeatFrom_visits (fun _ => p.complexValue_visits) _ _ _ _

section Terms

variable [Exponent E]

omit p within in
theorem termFactor_visits (unit : Option (MeasureUnit R E)) :
    Visits (fun _ points => points = []) (termFactor unit) (termFactor unit) := by
  refine .bind_nothing .get fun last => ?_
  split
  · exact .pure rfl
  · exact .ite (.pure rfl) (.throw rfl)
  · exact .throw rfl

theorem sum_visits :
    Visits (BeginsAt Scalar.isInfinite start stop) (p.sum start stop)
      (p.recorded.sum start stop) := by
  simp only [sum, integerBounds_of_within within, pure_bind]
  refine begins_visits (p.value_visits _) fun term unit => ?_
  refine finish_visits (repeatFrom_visits (fun s x => ?_) _ _ _ _) (fun _ => unit)
    CompensatedSum.sum fun _ => id
  exact (p.value_visits x).bind_nothing fun y =>
    .bind_nothing (termFactor_visits unit) fun _ => .pure rfl

theorem complexSum_visits :
    Visits (BeginsAt Complex.isInfinite start stop) (p.complexSum start stop)
      (p.recorded.complexSum start stop) := by
  simp only [complexSum, integerBounds_of_within within, pure_bind]
  refine begins_visits (p.complexValue_visits _) fun term unit => ?_
  refine finish_visits (repeatFrom_visits (fun s x => ?_) _ _ _ _) (fun _ => unit)
    CompensatedSum.sum fun _ => id
  exact (p.complexValue_visits x).bind_nothing fun y =>
    .bind_nothing (termFactor_visits unit) fun _ => .pure rfl

variable [Narrowing R E]

omit p within in
theorem productFactor_visits (tracksUnits : Bool) (unit : Option (MeasureUnit R E)) :
    Visits (fun _ points => points = []) (productFactor tracksUnits unit)
      (productFactor tracksUnits unit) := by
  refine .bind_nothing .get fun last => ?_
  split <;> exact .pure rfl

theorem product_visits :
    Visits (BeginsAt Scalar.isInfinite start stop) (p.product start stop)
      (p.recorded.product start stop) := by
  simp only [product, integerBounds_of_within within, pure_bind]
  refine begins_visits (p.value_visits _) fun term unit => ?_
  refine finish_visits (repeatFrom_visits (fun s x => ?_) _ _ _ _) UnitProduct.unit
    UnitProduct.product fun _ => id
  exact (p.value_visits x).bind_nothing fun y =>
    .bind_nothing (productFactor_visits _ _) fun _ => .pure rfl

theorem complexProduct_visits :
    Visits (BeginsAt Complex.isInfinite start stop) (p.complexProduct start stop)
      (p.recorded.complexProduct start stop) := by
  simp only [complexProduct, integerBounds_of_within within, pure_bind]
  refine begins_visits (p.complexValue_visits _) fun term unit => ?_
  refine finish_visits (repeatFrom_visits (fun s x => ?_) _ _ _ _) UnitProduct.unit
    UnitProduct.product fun _ => id
  exact (p.complexValue_visits x).bind_nothing fun y =>
    .bind_nothing (productFactor_visits _ _) fun _ => .pure rfl

/-! ## All iterating methods -/

/-- The points of an iteration over the integers from `first` to `last`: those of its range, or
the first bound where a sum or product has nothing to add up. -/
def VisitsRange (kind : Iteration) (isInfinite : α → Bool) (first last : Int)
    (r : Except CalcError α) (visited : List R) : Prop :=
  if kind = .iterate ∨ first ≤ last then Covers isInfinite (points first last) r visited
  else visited = [Scalar.ofInt first]

omit [Exponent E] [Narrowing R E] p within in
/-- The first term is the first point of a range that is not empty. -/
theorem visitsRange_of_begins {kind : Iteration} {isInfinite : α → Bool} (sums : kind ≠ .iterate)
    (r : Except CalcError α) (visited : List R)
    (begins : BeginsAt isInfinite start stop r visited) :
    VisitsRange kind isInfinite (rounded start) (rounded stop) r visited := by
  unfold VisitsRange
  by_cases ascending : rounded start ≤ rounded stop
  · rw [if_pos (.inr ascending), points, integers_of_le ascending]
    obtain ⟨rfl, failed⟩ | ⟨behind, rfl, covers⟩ := begins
    · exact covers_of_single _ (.inl failed)
    · exact covers.cons _
  · have none : points (R := R) (rounded start + 1) (rounded stop) = [] := by
      rw [points, integers_of_lt (by omega), List.map_nil]
    rw [if_neg (not_or_intro sums ascending)]
    obtain ⟨rfl, -⟩ | ⟨behind, rfl, covers, -⟩ := begins
    · rfl
    · rw [none] at covers
      rw [List.prefix_nil.1 covers]

omit [Exponent E] [Narrowing R E] p within in
/-- A result that stays infinite has the same points. -/
theorem VisitsRange.map {kind : Iteration} {stop : β → Bool} {isInfinite : α → Bool}
    {first last : Int} {r : Except CalcError β} {visited : List R}
    (visits : VisitsRange kind stop first last r visited) (f : β → α)
    (infinite : ∀ a, stop a = true → isInfinite (f a) = true) :
    VisitsRange kind isInfinite first last (r.map f) visited := by
  unfold VisitsRange at visits ⊢
  split at visits
  · next h =>
    rw [if_pos h]
    exact visits.finish f infinite
  · next h =>
    rw [if_neg h]
    exact visits

/-- An iteration evaluates its objective at the integers between the rounded bounds, each once and
in increasing order, and at no other point. It stops early only at an infinite result or when an
evaluation fails. On an empty range, sums and products evaluate the first bound. -/
theorem iteration_visits (kind : Iteration) :
    (integers (rounded start) (rounded stop)).Pairwise (· < ·) ∧
      (∀ k, k ∈ integers (rounded start) (rounded stop) ↔ rounded start ≤ k ∧ k ≤ rounded stop) ∧
      Visits (VisitsRange kind Complex.isInfinite (rounded start) (rounded stop))
        (p.iteration kind start stop) (p.recorded.iteration kind start stop) := by
  refine ⟨pairwise_integersFrom _ _, fun _ => mem_integers, ?_⟩
  have infinite {y : R} (x : R) (h : Scalar.isInfinite x = true) :
      (⟨x, y⟩ : Complex R).isInfinite = true := by
    rw [Complex.isInfinite, h, Bool.true_or]
  have real {x : MethodM R E SessionM R} {y : MethodM R E (RecordM R) R} (sums : kind ≠ .iterate)
      (visits : Visits (BeginsAt Scalar.isInfinite start stop) x y) :
      Visits (VisitsRange kind Complex.isInfinite (rounded start) (rounded stop))
        (do return .ofReal (← x)) (do return .ofReal (← y)) :=
    visits.map Complex.ofReal fun r visited begins =>
      (visitsRange_of_begins sums r visited begins).map _ fun x => infinite x
  cases kind with
  | iterate =>
    have complex := p.complexIterate_visits within
    have real := (p.iterate_visits within).map Quantity.num fun _ _ covers =>
      covers.finish Quantity.num fun q => infinite q.re
    exact .ite complex real
  | sum =>
    exact .ite ((p.complexSum_visits within).mono (visitsRange_of_begins nofun))
      (real nofun (p.sum_visits within))
  | product =>
    exact .ite ((p.complexProduct_visits within).mono (visitsRange_of_begins nofun))
      (real nofun (p.product_visits within))

end Terms

omit within in
/-- A whole number is rounded to itself. -/
theorem rounded_intCast (k : ℤ) (low : -9223372036854775808 ≤ k) (high : k ≤ 9223372036854775807) :
    rounded (k : ℝ) = k := by
  have round : Scalar.round (k : ℝ) = k := by
    show (if 0 ≤ (k : ℝ) then ((⌊(k : ℝ) + 1 / 2⌋ : ℤ) : ℝ) else (⌈(k : ℝ) - 1 / 2⌉ : ℤ)) = k
    have below : ⌊(k : ℝ) + 1 / 2⌋ = k := by
      rw [Int.floor_intCast_add, Int.floor_eq_zero_iff.2 (by norm_num), add_zero]
    have above : ⌈(k : ℝ) - 1 / 2⌉ = k := by
      rw [Int.ceil_eq_iff]
      constructor <;> linarith
    rw [below, above, ite_self]
  rw [rounded, round]
  show max _ (min (wholePart (k : ℝ)) _) = k
  rw [wholePart_intCast, min_eq_left high, max_eq_right low]

omit within in
theorem withinLimits_iff {start stop : ℝ} :
    WithinLimits start stop ↔ |start| ≤ 100000000 ∧ |stop| ≤ 100000000 := by
  have limit : (iterationLimit : ℝ) = 100000000 := by norm_num [iterationLimit]
  rw [WithinLimits, limit]
  exact and_congr not_lt not_lt

omit within in
/-- The sum of the identity from 5 to 1 evaluates it at 5. -/
theorem iteration_visits_empty :
    WithinLimits (5 : ℝ) 1 ∧
    ∀ s, (RecordM.outcome ((identity.recorded.iteration .sum 5 1).run none) s []).2.2 = [5] := by
  have within : WithinLimits (5 : ℝ) 1 := by
    rw [withinLimits_iff]
    norm_num
  have start : rounded (5 : ℝ) = 5 := mod_cast rounded_intCast 5 (by norm_num) (by norm_num)
  have stop : rounded (1 : ℝ) = 1 := mod_cast rounded_intCast 1 (by norm_num) (by norm_num)
  refine ⟨within, fun s => ?_⟩
  obtain ⟨visited, same, known⟩ := (identity.iteration_visits within .sum).2.2 none s []
  have empty : ¬ (Iteration.sum = .iterate ∨ (5 : Int) ≤ 1) := by decide
  have first : (Scalar.ofInt 5 : ℝ) = 5 := Int.cast_ofNat 5
  rw [start, stop, VisitsRange, if_neg empty, first] at known
  rw [same, known, List.nil_append]

end Problem

end UnitCalc

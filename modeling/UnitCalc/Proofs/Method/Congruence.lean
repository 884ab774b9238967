/-
# Numerical methods under a congruence

A numerical method evaluates its objective, compares numbers and goes on. So whenever a relation
of computations is kept by these steps, the methods on two objectives are related as soon as the
values of the objectives are, whichever points the methods visit.

## Main definitions

* `MethodM.Congruence`: a relation of computations that sequences keep.
* `MethodM.FullCongruence`: the relation is kept by all that a method does.

## Main results

* `Problem.find_congr`, `root_congr`, `extremeValue_congr`, `lobatto_congr`, `tanhSinh_congr` and
  `slopeWith_congr`: the searches and the sums of methods on related objectives.
* `Method.compute_congr`: every method keeps to what its objective does.
-/

import UnitCalc.Proofs.Calculator.Failures
import UnitCalc.Proofs.Session.Outcome
import UnitCalc.Session.BlockValue

namespace UnitCalc

variable {α β R E : Type}

/-- A relation of computations that are made of related parts. -/
structure MethodM.Congruence
    (Rel : ∀ {α : Type}, MethodM R E SessionM α → MethodM R E SessionM α → Prop) : Prop where
  pure {α : Type} (a : α) : Rel (Pure.pure a) (Pure.pure a)
  bind {α β : Type} {x y : MethodM R E SessionM α} {f g : α → MethodM R E SessionM β}
    (first : Rel x y) (second : ∀ a, Rel (f a) (g a)) : Rel (x >>= f) (y >>= g)
  set (unit : Option (MeasureUnit R E)) :
    Rel (MonadStateOf.set unit : MethodM R E SessionM PUnit) (MonadStateOf.set unit)

namespace MethodM.Congruence

variable {Rel : ∀ {α : Type}, MethodM R E SessionM α → MethodM R E SessionM α → Prop}
  {x y x' y' : MethodM R E SessionM α}

/-- Branches on one condition. -/
theorem ite (_c : Congruence Rel) {p : Prop} [Decidable p] (first : Rel x y)
    (second : Rel x' y') : Rel (if p then x else x') (if p then y else y') := by
  split
  · exact first
  · exact second

/-- A check that stops a computation. -/
theorem guard (c : Congruence Rel) {p : Prop} [Decidable p] {e : CalcError}
    {k k' : PUnit → MethodM R E SessionM α}
    (thrown : Rel (throw e : MethodM R E SessionM PUnit) (throw e))
    (behind : Rel (k ⟨⟩) (k' ⟨⟩)) :
    Rel (if p then throw e >>= k else k ⟨⟩) (if p then throw e >>= k' else k' ⟨⟩) :=
  c.ite (c.bind thrown fun ⟨⟩ => behind) behind

/-- A value that is only computed under a condition, and may be missing. -/
theorem getD (c : Congruence Rel) {p : Prop} [Decidable p]
    {x y : MethodM R E SessionM (Option α)} {default : α} {k k' : α → MethodM R E SessionM β}
    (first : Rel x y) (behind : ∀ a, Rel (k a) (k' a)) :
    Rel
      (if p then x >>= fun r => Pure.pure (r.getD default) >>= k else Pure.pure default >>= k)
      (if p then y >>= fun r => Pure.pure (r.getD default) >>= k' else Pure.pure default >>= k') :=
  c.ite (c.bind first fun _ => c.bind (c.pure _) behind) (c.bind (c.pure _) behind)

end MethodM.Congruence

namespace Problem

open MethodM

variable {Rel : ∀ {α : Type}, MethodM R E SessionM α → MethodM R E SessionM α → Prop}
  (c : Congruence Rel) [Scalar R] (p : Problem R E SessionM) {g : R → SessionM (Quantity R E)}
  (value : ∀ x, Rel (p.value x) (({ p with objective := g } : Problem R E SessionM).value x))
  (value? : ∀ x, Rel (p.value? x) (({ p with objective := g } : Problem R E SessionM).value? x))

include c

section Values

include value

/-! ## Searches -/

omit [Scalar R] value in
theorem found_congr (x residual : R) :
    Rel (p.found x residual)
      (({ p with objective := g } : Problem R E SessionM).found x residual) :=
  c.bind (c.set p.unit) fun _ => c.pure _

/-- Both searches look at the same points. -/
theorem bracketFrom_congr (target : R) (t : Tolerance R) (steps : Nat) (b : Bracket R)
    (residual : R) :
    Rel (p.bracketFrom target t steps b residual)
      (({ p with objective := g } : Problem R E SessionM).bracketFrom target t steps b
        residual) := by
  induction steps generalizing b residual with
  | zero => exact p.found_congr c b.last residual
  | succ steps ih =>
    refine c.ite (p.found_congr c _ _) (c.bind (value _) fun y => ?_)
    exact c.ite (p.found_congr c _ _) (ih _ _)

theorem bracket_congr (start stop target : R) :
    Rel (p.bracket start stop target)
      (({ p with objective := g } : Problem R E SessionM).bracket start stop target) := by
  refine c.bind (value _) fun left => c.ite (p.found_congr c _ _) ?_
  refine c.bind (value _) fun right => c.ite (p.found_congr c _ _) ?_
  exact p.bracketFrom_congr c value _ _ _ _ _

theorem find_congr (start stop : R) :
    Rel (p.find start stop)
      (({ p with objective := g } : Problem R E SessionM).find start stop) :=
  c.bind (p.bracket_congr c value start stop 0) fun _ => c.pure _

theorem root_congr (start stop target : R) :
    Rel (p.root start stop target)
      (({ p with objective := g } : Problem R E SessionM).root start stop target) :=
  c.bind (p.bracket_congr c value start stop target) fun _ => c.pure _

theorem sectionFrom_congr (isMinimum : Bool) (level : R) (steps : Nat) (limit : R)
    (s : Section R) :
    Rel (p.sectionFrom isMinimum level steps limit s)
      (({ p with objective := g } : Problem R E SessionM).sectionFrom isMinimum level steps
        limit s) := by
  induction steps generalizing limit s with
  | zero => exact c.pure s
  | succ steps ih =>
    refine c.ite (c.pure s) (c.ite ?_ ?_)
    · exact c.bind (value _) fun _ => ih _ _
    · exact c.bind (value _) fun _ => ih _ _

theorem extremeValue_congr (isMinimum : Bool) (start stop : R) :
    Rel (p.extremeValue isMinimum start stop)
      (({ p with objective := g } : Problem R E SessionM).extremeValue isMinimum start stop) := by
  refine c.bind (value _) fun _ => c.bind (value _) fun _ => ?_
  refine c.bind (p.sectionFrom_congr c value _ _ _ _ _) fun s => ?_
  exact c.ite (value _) (c.ite (value _) (value _))

/-! ## Quadrature -/

theorem lobattoNodes_congr (x1 x3 y1 y3 : R) :
    Rel (p.lobattoNodes x1 x3 y1 y3)
      (({ p with objective := g } : Problem R E SessionM).lobattoNodes x1 x3 y1 y3) := by
  refine c.bind (value _) fun _ => c.bind (value _) fun _ => c.bind (value _) fun _ => ?_
  exact c.bind (value _) fun _ => c.bind (value _) fun _ => c.pure _

omit p value in
theorem sumParts_congr {rule rule' : R → R → R → R → MethodM R E SessionM R}
    (alike : ∀ x1 x3 y1 y3, Rel (rule x1 x3 y1 y3) (rule' x1 x3 y1 y3))
    (n : LobattoNodes R) : Rel (sumParts rule n) (sumParts rule' n) := by
  unfold sumParts
  split
  · refine c.bind (alike _ _ _ _) fun _ => c.bind (alike _ _ _ _) fun _ => ?_
    refine c.bind (alike _ _ _ _) fun _ => c.bind (alike _ _ _ _) fun _ => ?_
    exact c.bind (alike _ _ _ _) fun _ => c.bind (alike _ _ _ _) fun _ => c.pure _
  · exact c.pure 0

theorem lobattoPart_congr (tolerance : R) (depth : Nat) (x1 x3 y1 y3 : R) :
    Rel (p.lobattoPart tolerance depth x1 x3 y1 y3)
      (({ p with objective := g } : Problem R E SessionM).lobattoPart tolerance depth x1 x3 y1
        y3) := by
  induction depth generalizing x1 x3 y1 y3 with
  | zero => exact c.bind (p.lobattoNodes_congr c value x1 x3 y1 y3) fun n => c.pure n.seven
  | succ depth ih =>
    refine c.bind (p.lobattoNodes_congr c value x1 x3 y1 y3) fun n => c.ite (c.pure n.seven) ?_
    exact sumParts_congr c ih n

theorem lobatto_congr (left right : R) :
    Rel (p.lobatto left right)
      (({ p with objective := g } : Problem R E SessionM).lobatto left right) := by
  refine c.bind (value left) fun y1 => ?_
  refine c.bind (value right) fun y3 => ?_
  refine c.bind (p.lobattoNodes_congr c value left right y1 y3) fun n => ?_
  exact sumParts_congr c (p.lobattoPart_congr c value _ _) n

/-! ## Slopes -/

theorem slopeFrom_congr (x tolerance : R) (levels : Nat) (step : R) (row : List R) (error : R) :
    Rel (p.slopeFrom x tolerance levels step row error)
      (({ p with objective := g } : Problem R E SessionM).slopeFrom x tolerance levels step row
        error) := by
  induction levels generalizing step row error with
  | zero => exact c.pure _
  | succ levels ih =>
    refine c.bind (value _) fun _ => c.bind (value _) fun _ => ?_
    refine c.ite (ih _ _ _) ?_
    dsimp only
    exact c.ite (c.pure _) (ih _ _ _)

theorem slopeWith_congr (step x : R) :
    Rel (p.slopeWith step x)
      (({ p with objective := g } : Problem R E SessionM).slopeWith step x) :=
  c.bind (p.slopeFrom_congr c value x _ _ _ _ _) fun _ => c.pure _

end Values

/-! ## The double exponential rule -/

section Singular

include value?

/-- Both sums use the same nodes. -/
theorem tanhSinhLevel_congr (left right tolerance : R) (nodes : List (QuadratureNode R))
    (s : LevelSum R) :
    Rel (p.tanhSinhLevel left right tolerance nodes s)
      (({ p with objective := g } : Problem R E SessionM).tanhSinhLevel left right tolerance
        nodes s) := by
  induction nodes generalizing s with
  | nil => exact c.pure s.sum
  | cons node rest ih =>
    refine c.getD (value? _) fun lower => ?_
    refine c.getD (value? _) fun upper => ?_
    dsimp only
    exact c.ite (c.pure _) (ih _)

theorem tanhSinhFrom_congr (left right : R) (s : TanhSinhSum R)
    (levels : List (List (QuadratureNode R))) :
    Rel (p.tanhSinhFrom left right s levels)
      (({ p with objective := g } : Problem R E SessionM).tanhSinhFrom left right s levels) := by
  induction levels generalizing s with
  | nil => exact c.pure s
  | cons level rest ih =>
    refine c.bind (p.tanhSinhLevel_congr c value? left right _ level _) fun part => ?_
    exact c.ite (c.pure _) (ih _)

include value in
theorem tanhSinh_congr (table : List (List (QuadratureNode R))) (left right : R) :
    Rel (p.tanhSinh table left right)
      (({ p with objective := g } : Problem R E SessionM).tanhSinh table left right) := by
  refine c.bind (value _) fun centre => ?_
  refine c.bind (p.tanhSinhFrom_congr c value? left right _ table) fun s => ?_
  dsimp only
  exact c.ite (c.pure _) (c.pure _)

end Singular

end Problem

/-! ## Whole methods -/

/-- A congruence of computations that also look at the last unit, and that fail. No method fails
since a function or a block is missing. -/
structure MethodM.FullCongruence
    (Rel : ∀ {α : Type}, MethodM R E SessionM α → MethodM R E SessionM α → Prop) : Prop
    extends MethodM.Congruence Rel where
  get : Rel (MonadState.get : MethodM R E SessionM (Option (MeasureUnit R E))) MonadState.get
  throw {α : Type} {e : CalcError} (known : e.isMissing = false) :
    Rel (MonadExcept.throw e : MethodM R E SessionM α) (MonadExcept.throw e)

/-- A check that stops a method. -/
theorem MethodM.FullCongruence.check
    {Rel : ∀ {α : Type}, MethodM R E SessionM α → MethodM R E SessionM α → Prop}
    (c : MethodM.FullCongruence Rel) {p : Prop} [Decidable p] {e : CalcError}
    {k k' : PUnit → MethodM R E SessionM α} (known : e.isMissing = false)
    (behind : Rel (k ⟨⟩) (k' ⟨⟩)) :
    Rel (if p then MonadExcept.throw e >>= k else k ⟨⟩)
      (if p then MonadExcept.throw e >>= k' else k' ⟨⟩) :=
  c.guard (c.throw known) behind

namespace Problem

open MethodM

variable {Rel : ∀ {α : Type}, MethodM R E SessionM α → MethodM R E SessionM α → Prop}
  (c : FullCongruence Rel) [Scalar R] (p : Problem R E SessionM) {g : R → SessionM (Quantity R E)}
  (alike : ∀ x, Rel (p.eval x) (({ p with objective := g } : Problem R E SessionM).eval x))

include c alike

theorem value_congr (x : R) :
    Rel (p.value x) (({ p with objective := g } : Problem R E SessionM).value x) :=
  c.bind (alike x) fun _ => c.check rfl (c.check rfl (c.pure _))

theorem value?_congr (x : R) :
    Rel (p.value? x) (({ p with objective := g } : Problem R E SessionM).value? x) :=
  c.bind (alike x) fun _ => c.check rfl (c.pure _)

theorem complexValue_congr (x : R) :
    Rel (p.complexValue x)
      (({ p with objective := g } : Problem R E SessionM).complexValue x) :=
  c.bind (alike x) fun _ => c.check rfl (c.pure _)

theorem quantity_congr (x : R) :
    Rel (p.quantity x)
      (({ p with objective := g } : Problem R E SessionM).quantity x) :=
  c.bind (alike x) fun _ => c.check rfl (c.pure _)

/-! ### Units of areas and slopes -/

section Units

variable [Exponent E] [Narrowing R E]

omit alike in
theorem withAreaUnit_congr (area : R) :
    Rel (p.withAreaUnit area)
      (({ p with objective := g } : Problem R E SessionM).withAreaUnit area) := by
  refine c.bind c.get fun unit => ?_
  simp only
  split
  · exact c.pure area
  · exact c.bind (c.set _) fun _ => c.pure area
  · exact c.bind (c.set _) fun _ => c.pure _

theorem signedIntegral_congr {rule rule' : R → R → MethodM R E SessionM R}
    (same : ∀ left right, Rel (rule left right) (rule' left right)) (start stop : R) :
    Rel (p.signedIntegral rule start stop)
      (({ p with objective := g } : Problem R E SessionM).signedIntegral rule' start stop) := by
  unfold signedIntegral
  generalize (if stop < start then (stop, start, (-1 : R)) else (start, stop, 1)) = ends
  obtain ⟨left, right, sign⟩ := ends
  refine c.ite ?_ ?_
  · refine c.bind (p.value_congr c alike _) fun _ => c.bind (c.pure _) fun _ => ?_
    exact p.withAreaUnit_congr c _
  · exact c.bind (same left right) fun _ => p.withAreaUnit_congr c _

theorem area_congr (start stop : R) :
    Rel (p.area start stop)
      (({ p with objective := g } : Problem R E SessionM).area start stop) :=
  p.signedIntegral_congr c alike (p.lobatto_congr c.toCongruence (p.value_congr c alike))
    start stop

theorem integral_congr (table : List (List (QuadratureNode R))) (start stop : R) :
    Rel (p.integral table start stop)
      (({ p with objective := g } : Problem R E SessionM).integral table start stop) :=
  p.signedIntegral_congr c alike (p.tanhSinh_congr c.toCongruence (p.value_congr c alike)
    (p.value?_congr c alike) table) start stop

omit alike in
theorem withSlopeUnit_congr (slope : R) :
    Rel (p.withSlopeUnit slope)
      (({ p with objective := g } : Problem R E SessionM).withSlopeUnit slope) := by
  refine c.bind c.get fun unit => ?_
  simp only
  split
  · exact c.pure slope
  · exact c.bind (c.set _) fun _ => c.pure slope
  · exact c.bind (c.set _) fun _ => c.pure _

end Units

theorem slope_congr [Exponent E] [Narrowing R E] (x : R) :
    Rel (p.slope x)
      (({ p with objective := g } : Problem R E SessionM).slope x) :=
  c.bind (p.slopeWith_congr c.toCongruence (p.value_congr c alike) _ x) fun slope =>
    p.withSlopeUnit_congr c slope

/-! ### Iteration -/

omit p alike in
theorem integerBounds_congr (start stop : R) :
    Rel (integerBounds start stop : MethodM R E SessionM _) (integerBounds start stop) :=
  c.ite (c.throw rfl) (c.pure _)

omit p alike in
theorem repeatFrom_congr {S : Type} {step step' : S → R → MethodM R E SessionM S}
    (alike : ∀ s x, Rel (step s x) (step' s x)) (stop : S → Bool) (count : Nat)
    (k : Int) (s : S) :
    Rel (repeatFrom step stop count k s) (repeatFrom step' stop count k s) := by
  induction count generalizing k s with
  | zero => exact c.pure s
  | succ count ih => exact c.bind (alike s _) fun s => c.ite (c.pure s) (ih _ s)

theorem iterate_congr (start stop : R) :
    Rel (p.iterate start stop)
      (({ p with objective := g } : Problem R E SessionM).iterate start stop) :=
  c.bind (integerBounds_congr c start stop) fun _ =>
    repeatFrom_congr c (fun _ => p.quantity_congr c alike) _ _ _ _

theorem complexIterate_congr (start stop : R) :
    Rel (p.complexIterate start stop)
      (({ p with objective := g } : Problem R E SessionM).complexIterate start stop) :=
  c.bind (integerBounds_congr c start stop) fun _ =>
    repeatFrom_congr c (fun _ => p.complexValue_congr c alike) _ _ _ _

section Terms

variable [Exponent E]

omit p alike in
theorem termFactor_congr (unit : Option (MeasureUnit R E)) :
    Rel (termFactor unit) (termFactor unit) := by
  refine c.bind c.get fun last => ?_
  split
  · exact c.pure 1
  · exact c.ite (c.pure _) (c.throw rfl)
  · exact c.throw rfl

theorem sum_congr (start stop : R) :
    Rel (p.sum start stop)
      (({ p with objective := g } : Problem R E SessionM).sum start stop) := by
  refine c.bind (integerBounds_congr c start stop) fun _ => ?_
  refine c.bind (p.value_congr c alike _) fun term => c.bind c.get fun unit => ?_
  refine c.bind (repeatFrom_congr c (fun s x => ?_) _ _ _ _) fun s =>
    c.bind (c.set _) fun _ => c.pure _
  exact c.bind (p.value_congr c alike x) fun y =>
    c.bind (termFactor_congr c unit) fun k => c.pure _

theorem complexSum_congr (start stop : R) :
    Rel (p.complexSum start stop)
      (({ p with objective := g } : Problem R E SessionM).complexSum start stop) := by
  refine c.bind (integerBounds_congr c start stop) fun _ => ?_
  refine c.bind (p.complexValue_congr c alike _) fun term => c.bind c.get fun unit => ?_
  refine c.bind (repeatFrom_congr c (fun s x => ?_) _ _ _ _) fun s =>
    c.bind (c.set _) fun _ => c.pure _
  exact c.bind (p.complexValue_congr c alike x) fun y =>
    c.bind (termFactor_congr c unit) fun k => c.pure _

variable [Narrowing R E]

omit p alike in
theorem productFactor_congr (tracksUnits : Bool) (unit : Option (MeasureUnit R E)) :
    Rel (productFactor tracksUnits unit) (productFactor tracksUnits unit) := by
  refine c.bind c.get fun last => ?_
  split
  · exact c.pure _
  · exact c.pure _

theorem product_congr (start stop : R) :
    Rel (p.product start stop)
      (({ p with objective := g } : Problem R E SessionM).product start stop) := by
  refine c.bind (integerBounds_congr c start stop) fun _ => ?_
  refine c.bind (p.value_congr c alike _) fun term => c.bind c.get fun unit => ?_
  refine c.bind (repeatFrom_congr c (fun s x => ?_) _ _ _ _) fun s =>
    c.bind (c.set _) fun _ => c.pure _
  exact c.bind (p.value_congr c alike x) fun y =>
    c.bind (productFactor_congr c _ _) fun _ => c.pure _

theorem complexProduct_congr (start stop : R) :
    Rel (p.complexProduct start stop)
      (({ p with objective := g } : Problem R E SessionM).complexProduct start stop) := by
  refine c.bind (integerBounds_congr c start stop) fun _ => ?_
  refine c.bind (p.complexValue_congr c alike _) fun term => c.bind c.get fun unit => ?_
  refine c.bind (repeatFrom_congr c (fun s x => ?_) _ _ _ _) fun s =>
    c.bind (c.set _) fun _ => c.pure _
  exact c.bind (p.complexValue_congr c alike x) fun y =>
    c.bind (productFactor_congr c _ _) fun _ => c.pure _

end Terms

end Problem

/-- Every method keeps to what its objective does. -/
theorem Method.compute_congr {Rel : ∀ {α : Type}, MethodM Float Float32 SessionM α →
      MethodM Float Float32 SessionM α → Prop}
    (c : MethodM.FullCongruence Rel) (method : Method) (p : Problem Float Float32 SessionM)
    {g : Float → SessionM Value}
    (alike : ∀ x, Rel (p.eval x) (Problem.eval { p with objective := g } x))
    (start stop target : Float) :
    Rel (method.compute p start stop target)
      (method.compute { p with objective := g } start stop target) := by
  have value := p.value_congr c alike
  cases method with
  | find => exact c.bind (p.find_congr c.toCongruence value start stop) fun _ => c.pure _
  | root => exact c.bind (p.root_congr c.toCongruence value start stop target) fun _ => c.pure _
  | supremum =>
    exact c.bind (p.extremeValue_congr c.toCongruence value false start stop) fun _ => c.pure _
  | infimum =>
    exact c.bind (p.extremeValue_congr c.toCongruence value true start stop) fun _ => c.pure _
  | area => exact c.bind (p.area_congr c alike start stop) fun _ => c.pure _
  | integral => exact c.bind (p.integral_congr c alike _ start stop) fun _ => c.pure _
  | slope => exact c.bind (p.slope_congr c alike start) fun _ => c.pure _
  | iterate =>
    exact c.ite (p.complexIterate_congr c alike start stop)
      (c.bind (p.iterate_congr c alike start stop) fun _ => c.pure _)
  | sum =>
    exact c.ite (p.complexSum_congr c alike start stop)
      (c.bind (p.sum_congr c alike start stop) fun _ => c.pure _)
  | product =>
    exact c.ite (p.complexProduct_congr c alike start stop)
      (c.bind (p.product_congr c alike start stop) fun _ => c.pure _)

end UnitCalc

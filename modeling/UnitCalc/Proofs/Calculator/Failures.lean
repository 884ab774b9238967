/-
# What operations fail for

An operation on quantities fails for its operands: their units do not go together, their numbers
are out of its domain, or there are none. It never fails since a function or a block is missing.

## Main definitions

* `CalcError.isOfOperands`: the error is about the operands of an operation.
* `CalcError.isMissing`: the error is about a function or a block that does not exist.
* `Ends F P`: a result is a value in `P`, or an error in `F`.
* `Finds lenient P`: a result is a value in `P`, or an error about something else than a function or
  a block that is missing.

## Main results

* `Calculator.operates_operator`, `Calculator.operates_function`,
  `Calculator.operates_binaryFunction`, `Calculator.operates_multiFunction`: operations fail for
  their operands only.
-/

import UnitCalc.Calculator.Evaluation
import UnitCalc.Quantity.Target

namespace UnitCalc

variable {α β : Type} {lenient : Prop} {F : CalcError → Prop} {P : α → Prop} {Q : β → Prop}

/-- The error is about a function or a block that does not exist. -/
def CalcError.isMissing : CalcError → Bool
  | .functionNotDefined _ | .unknownMethod _ => true
  | _ => false

/-- The error is about the operands of an operation: their units, their numbers, or that there are
none. -/
def CalcError.isOfOperands : CalcError → Bool
  | .units _ | .inconsistentTarget .. | .unitsNotAccepted .. | .powerNotUnitless
  | .complexPowerOfUnits | .rootIndexNotInteger | .rootIndexNotUnitless | .factorialNotUnitless
  | .factorialNotNatural | .factorialTooLarge | .notIntegers | .argumentOutOfRange _
  | .argumentCount => true
  | _ => false

theorem CalcError.isMissing_of_isOfOperands {e : CalcError} (operands : e.isOfOperands = true) :
    e.isMissing = false := by
  cases e <;> first | rfl | simp [isOfOperands] at operands

/-- The result is a value in `P`, or an error in `F`. -/
def Ends (F : CalcError → Prop) (P : α → Prop) : Except CalcError α → Prop
  | .ok a => P a
  | .error e => F e

/-- The result is a value in `P`, or an error. Errors about missing functions and blocks are for
the `lenient` case. -/
def Finds (lenient : Prop) (P : α → Prop) (r : Except CalcError α) : Prop :=
  Ends (fun e => e.isMissing = true → lenient) P r

/-- The result is a value, or an error about operands. -/
def Operates (r : Except CalcError α) : Prop :=
  Ends (·.isOfOperands = true) (fun _ => True) r

namespace Ends

variable {r : Except CalcError α}

/-- What is known of the value of a result tells more of it. -/
theorem imp {P' : α → Prop} (finds : Ends F P r) (more : ∀ a, r = .ok a → P a → P' a) :
    Ends F P' r := by
  cases r with
  | error e => exact finds
  | ok a => exact more a rfl finds

theorem mono {P' : α → Prop} (finds : Ends F P r) (more : ∀ a, P a → P' a) :
    Ends F P' r :=
  finds.imp fun a _ => more a

theorem bind {f : α → Except CalcError β} (first : Ends F P r)
    (second : ∀ a, P a → Ends F Q (f a)) : Ends F Q (r >>= f) := by
  cases r with
  | error e => exact first
  | ok a => exact second a first

theorem map {f : α → β} (finds : Ends F P r) (holds : ∀ a, P a → Q (f a)) :
    Ends F Q (r.map f) := by
  cases r with
  | error e => exact finds
  | ok a => exact holds a finds

/-- Results are looked for one after the other. -/
theorem mapM {f : α → Except CalcError β} {xs : List α} (each : ∀ a ∈ xs, Ends F Q (f a)) :
    Ends F (fun ys => ∀ y ∈ ys, Q y) (xs.mapM f) := by
  induction xs with
  | nil => exact List.forall_mem_nil _
  | cons a xs ih =>
    rw [List.forall_mem_cons] at each
    rw [List.mapM_cons]
    exact each.1.bind fun y holds => (ih each.2).bind fun ys all =>
      List.forall_mem_cons.2 ⟨holds, all⟩

theorem foldlM {f : β → α → Except CalcError β} {b : β} {xs : List α} (start : Q b)
    (each : ∀ b, ∀ a ∈ xs, Q b → Ends F Q (f b a)) : Ends F Q (xs.foldlM f b) := by
  induction xs generalizing b with
  | nil => exact start
  | cons a xs ih =>
    rw [List.foldlM_cons]
    refine (each b a List.mem_cons_self start).bind fun b' holds => ih holds fun b a within => ?_
    exact each b a (List.mem_cons_of_mem _ within)

/-- The value of a result. -/
theorem of_ok {a : α} (finds : Ends F P r) (ended : r = .ok a) : P a := by
  rw [ended] at finds
  exact finds

end Ends

/-- What fails for its operands misses nothing. -/
theorem Operates.finds {r : Except CalcError α} (operates : Operates r) :
    Finds lenient (fun _ => True) r := by
  cases r with
  | ok a => exact trivial
  | error e =>
    intro missing
    rw [CalcError.isMissing_of_isOfOperands operates] at missing
    cases missing

variable {R E : Type} [Scalar R] [Exponent E]

namespace Quantity

theorem operates_sumUnit (a b : Quantity R E) (op : Char) :
    Operates (a.sumUnit b op) := by
  unfold sumUnit
  split
  · trivial
  · rfl

variable [Narrowing R E]

theorem operates_powerUnit (a b : Quantity R E) : Operates (a.powerUnit b) := by
  unfold powerUnit
  repeat' split
  all_goals trivial

/-- A result that cannot be converted has another dimension. -/
theorem operates_applyTarget (q : Quantity R E) (target : Option (MeasureUnit R E)) :
    Operates (q.applyTarget target) := by
  unfold applyTarget inTarget
  repeat' split
  all_goals trivial

end Quantity

namespace Calculator

theorem operates_unitless (name : String) (q : Quantity R E) :
    Operates (unitless name q) := by
  unfold unitless
  repeat' split
  all_goals trivial

theorem operates_radians (c : Calculator R) (name : String) (q : Quantity R E) :
    Operates (c.radians name q) := by
  unfold radians
  split
  · split
    · trivial
    · exact (operates_unitless name q).map fun _ _ => trivial
  · trivial

omit [Exponent E] in
theorem operates_factorial (q : Quantity R E) : Operates (factorial q) := by
  unfold factorial
  repeat' split
  all_goals trivial

theorem operates_aligned (first : Quantity R E) (args : List (Quantity R E)) :
    Operates (aligned first args) := by
  refine (Ends.mapM (Q := fun _ => True) fun q _ => ?_).mono fun _ _ => trivial
  exact (first.operates_sumUnit q ';').bind fun _ _ => trivial

theorem operates_magnitudes (name : String) (args : List (Quantity R E)) :
    Operates (magnitudes name args) := by
  refine (Ends.mapM (Q := fun _ => True) fun q _ => ?_).mono fun _ _ => trivial
  refine (operates_unitless name q).bind fun x _ => ?_
  dsimp only
  split
  · rfl
  · split
    · rfl
    · trivial

theorem operates_switch (name : String) (args : List (Quantity R E)) :
    Operates (switch name args) := by
  induction args using switch.induct with
  | case1 condition value rest ih =>
    refine (operates_unitless name condition).bind fun c _ => ?_
    split
    · trivial
    · exact ih
  | case2 otherwise => trivial
  | case3 => trivial

variable [Narrowing R E]

/-- An operator fails for the units of its operands. -/
theorem operates_operator (c : Calculator R) (o : Operator) (a b : Quantity R E) :
    Operates (c.operator o a b) := by
  have result : Operates (c.operatorResult o a b) := by
    cases o with
    | power => exact (Quantity.operates_powerUnit a b).bind fun _ _ => trivial
    | modulo | subtract | add | less | greater | lessOrEqual | greaterOrEqual | equal | notEqual =>
      exact (Quantity.operates_sumUnit a b _).bind fun _ _ => trivial
    | _ => trivial
  exact result.map fun _ _ => trivial

/-- A function fails for the unit of its argument, and a factorial for its number. -/
theorem operates_function (c : Calculator R) (f : Function) (a : Quantity R E) :
    Operates (c.function f a) := by
  have angle : Operates (c.radians f.name a) := c.operates_radians f.name a
  have plain : Operates (unitless f.name a) := operates_unitless f.name a
  unfold function
  cases f with
  | sin | cos | tan | csc | sec | cot => exact angle.bind fun _ _ => trivial
  | factorial => exact operates_factorial a
  | sign | sqr | sqrt | cbrt | phase | abs | round | floor | ceiling | trunc | re | im | random
  | negate => trivial
  | _ => exact plain.bind fun _ _ => trivial

theorem operates_binaryFunction (c : Calculator R) (f : BinaryFunction) (a b : Quantity R E) :
    Operates (c.binaryFunction f a b) := by
  cases f with
  | atan2 => exact (Quantity.operates_sumUnit a b _).bind fun _ _ => trivial
  | root =>
    unfold binaryFunction
    dsimp only
    repeat' split
    all_goals trivial

theorem operates_product (c : Calculator R) (first : Quantity R E) (rest : List (Quantity R E)) :
    Operates (c.product first rest) :=
  Ends.foldlM trivial fun b a _ _ => c.operates_operator .multiply b a

/-- A function of many arguments fails for the number of its arguments, or for their units and
numbers. -/
theorem operates_multiFunction (c : Calculator R) (f : MultiFunction) (args : List (Quantity R E)) :
    Operates (c.multiFunction f args) := by
  unfold multiFunction
  cases args with
  | nil => rfl
  | cons first rest =>
    have numbers : Operates (aligned first (first :: rest)) :=
      operates_aligned first _
    have integers : Operates (magnitudes f.name (first :: rest)) :=
      operates_magnitudes f.name _
    have whole : Operates (c.product first rest) := c.operates_product first rest
    cases f with
    | min | max | sum | average | sumsq | srss => exact numbers.bind fun _ _ => trivial
    | product => exact whole
    | mean => exact whole.bind fun _ _ => trivial
    | switch => exact operates_switch _ _
    | and | or | xor => trivial
    | gcd => exact integers.bind fun _ _ => trivial
    | lcm =>
      refine integers.bind fun ns _ => ?_
      split <;> trivial

end Calculator

end UnitCalc

/-
# Values of blocks

A block evaluates its bounds, and lets its numerical method evaluate the objective at values
of the variable. The bounds are brought to one unit, in which the method works. The right
side of an equation has to be the same at both bounds.

## Main definitions

* `Method.compute` runs a method.
* `Block.text` shows a block.
* `SessionM.evaluateBlock` is the value of a block.
-/

import UnitCalc.Method.Extremum
import UnitCalc.Method.Iteration
import UnitCalc.Method.Quadrature
import UnitCalc.Method.Root
import UnitCalc.Method.Slope
import UnitCalc.Postfix.Infix
import UnitCalc.Session.Code

namespace UnitCalc

/-- The nodes of the double exponential rule. -/
def integralTable : List (List (QuadratureNode Float)) :=
  TanhSinh.table

/-- The answer of a method on an interval; `target` is the right side of an equation. -/
def Method.compute (method : Method) (p : Problem Float Float32 SessionM)
    (start stop target : Float) : MethodM Float Float32 SessionM (Complex Float) := do
  match method with
  | .find => return .ofReal (← p.find start stop)
  | .root => return .ofReal (← p.root start stop target)
  | .supremum => return .ofReal (← p.extremeValue false start stop)
  | .infimum => return .ofReal (← p.extremeValue true start stop)
  | .area => return .ofReal (← p.area start stop)
  | .integral => return .ofReal (← p.integral integralTable start stop)
  | .slope => return .ofReal (← p.slope start)
  | .iterate =>
    if p.isComplex then p.complexIterate start stop else return (← p.iterate start stop).num
  | .sum => if p.isComplex then p.complexSum start stop else return .ofReal (← p.sum start stop)
  | .product =>
    if p.isComplex then p.complexProduct start stop else return .ofReal (← p.product start stop)

namespace Block

/-- The text of an interval of the variable. -/
def intervalText (b : Block) : String :=
  b.unknownName ++ " ∈ [" ++ Postfix.infixText b.lower.program ++ "; " ++
    b.upper.elim "" (fun part => Postfix.infixText part.program) ++ "]"

/-- A block as it is shown. -/
def text (b : Block) : String :=
  let objective := Postfix.infixText b.objective.program
  let inside := match b.method with
    | .slope =>
      objective ++ "; " ++ b.unknownName ++ " = " ++ Postfix.infixText b.lower.program
    | .root =>
      objective ++ " = " ++ b.equation.elim "0" (fun part => Postfix.infixText part.program) ++
        "; " ++ b.intervalText
    | _ => objective ++ "; " ++ b.intervalText
  b.method.symbol ++ "\x7b" ++ inside ++ "\x7d"

/-- Compiles the parts of a block. -/
def compile (b : Block) (c : Compilation) : Except CalcError BlockCode := do
  return {
    objective := ← Code.ofPostfix c b.objective.program
    lower := ← Code.ofPostfix c b.lower.program
    upper := ← b.upper.mapM fun part => Code.ofPostfix c part.program
    equation := ← b.equation.mapM fun part => Code.ofPostfix c part.program }

/-- The second bound in the unit of the first one. -/
def alignedBound (b : Block) (lower upper : Value) : Except CalcError Value :=
  match conversion lower.unit upper.unit ':' with
  | .ok k => .ok { num := upper.num.scale k, unit := lower.unit }
  | .error _ =>
    .error (.inconsistentBounds b.objective.text b.lower.text (b.upper.elim "" Part.text))

/-- The right side of an equation in the unit of the objective; its values at both bounds
must not differ by more than this. -/
def equationTolerance : Float := 1e-14

/-- The right side of an equation in the unit of the objective, from its values at both
bounds. -/
def alignedTarget (b : Block) (unit : Option ValueUnit) (first second : Value) :
    Except CalcError Float :=
  let text := b.equation.elim "" Part.text
  if equationTolerance < (first.re - second.re).abs then .error (.notConstant text)
  else match conversion unit first.unit '=' with
    | .ok k => .ok (first.re * k)
    | .error _ => .error (.inconsistentEquation b.objective.text text)

end Block

namespace SessionM

/-- The code of a block, which is compiled when there is none. -/
def blockCode (index : Nat) (b : Block) : SessionM BlockCode := do
  match b.code with
  | some code => return code
  | none =>
    let code ← read fun s => b.compile s.compilation
    modify fun s => s.modifyBlock index fun b => { b with code := some code }
    return code

/-- Gives the variable of a block a real value with a unit. -/
def setUnknown (b : Block) (x : Float) (unit : Option ValueUnit) : SessionM Unit :=
  modify fun s => s.store b.parameter { num := .ofReal x, unit }

/-- The bounds of a block in the unit of the first one. A block with one bound has it
twice. -/
def blockBounds (calls : Calls) (b : Block) (code : BlockCode) : SessionM (Value × Value) := do
  let lower ← code.lower.run calls
  match code.upper with
  | some upper => return (lower, ← ofExcept (b.alignedBound lower (← upper.run calls)))
  | none => return (lower, lower)

/-- The right side of the equation that a block solves; zero when there is none. -/
def blockTarget (calls : Calls) (b : Block) (code : BlockCode) (lower upper : Value) :
    SessionM Float := do
  match b.method, code.equation with
  | .root, some equation =>
    let unit := (← code.objective.run calls).unit
    let first ← equation.run calls
    setUnknown b upper.re upper.unit
    let second ← equation.run calls
    setUnknown b lower.re lower.unit
    ofExcept (b.alignedTarget unit first second)
  | _, _ => return 0

/-- The problem that the method of a block works on. -/
def blockProblem (calls : Calls) (b : Block) (code : BlockCode) (unit : Option ValueUnit) :
    SessionM (Problem Float Float32 SessionM) := do
  let s ← get
  let objective (x : Float) : SessionM Value := do
    checkCancelled
    setUnknown b x unit
    code.objective.run calls
  return { objective, isComplex := s.settings.complex, unit, precision := s.precision }

/-- Runs an action whose errors are worded with the objective and the variable of a
block. -/
def wordedBy {α : Type} (b : Block) (action : SessionM α) : SessionM α :=
  tryCatch action fun e => throw (e.inBlock b.objective.text b.unknownName)

/-- The value of a block. -/
def evaluateBlock (calls : Calls) (index : Nat) : SessionM Value := do
  match (← get).blocks[index]? with
  | none => throw (.unknownMethod ("#" ++ toString index))
  | some b =>
    checkCancelled
    let code ← blockCode index b
    let (lower, upper) ← blockBounds calls b code
    setUnknown b lower.re lower.unit
    let target ← blockTarget calls b code lower upper
    let problem ← blockProblem calls b code lower.unit
    let (num, unit) ← wordedBy b ((b.method.compute problem lower.re upper.re target).run none)
    if let some id := b.extremum then
      modify fun s => s.assign id (s.cell b.parameter).value
    if num.re.isNaN && !(← get).isPlotting then throw (.noSolution b.text)
    return { num, unit }

end SessionM

end UnitCalc

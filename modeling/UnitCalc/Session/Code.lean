/-
# Running code

Compiled code reads and changes the session it runs in. What the calls of custom functions
and the blocks in it evaluate to is a parameter, since they run code in turn.

## Main definitions

* `Calls` says how calls and blocks are evaluated.
* `Code.run` runs code.
-/

import UnitCalc.Session.Change

namespace UnitCalc

/-- How calls of custom functions and blocks are evaluated. -/
structure Calls where
  function : Nat → List Value → SessionM Value
  block : Nat → SessionM Value

namespace SessionM

/-- Applies a function of one argument. A random number is drawn for each use. -/
def applyFunction (f : Function) (a : Value) : SessionM Value := do
  let result ← read fun s => s.calculator.function f a
  if f = .random then modify fun s => { s with random := s.random.advance }
  return result

/-- Applies an operator. -/
def applyOperator (o : Operator) (a b : Value) : SessionM Value :=
  read fun s => s.calculator.operator o a b

/-- Applies a function of two arguments. -/
def applyBinaryFunction (f : BinaryFunction) (a b : Value) : SessionM Value :=
  read fun s => s.calculator.binaryFunction f a b

/-- Applies a function of many arguments. -/
def applyMultiFunction (f : MultiFunction) (args : List Value) : SessionM Value :=
  read fun s => s.calculator.multiFunction f args

/-- One of the unit of a name. -/
def unitValue (name : String) : SessionM Value := do
  match (← get).unit? name with
  | some u => return .literal u
  | none => throw (.undefinedName name)

/-- Defines a unit of the session. -/
def defineUnit (name : String) (value : Value) : SessionM Unit := do
  set (← read fun s => s.defineUnit name value)

end SessionM

open SessionM

mutual

/-- Runs code. Operands are evaluated from left to right, and a conditional evaluates only
the branch that it takes. -/
def Code.run (calls : Calls) : Code → SessionM Value
  | .const value => return value
  | .read cell name => do
    match (← get).assigned? cell with
    | some value => return value
    | none => unitValue name
  | .assign cell code => do
    let value ← code.run calls
    modify fun s => s.assign cell value
    return value
  | .defineUnit name code => do
    let value ← code.run calls
    SessionM.defineUnit name value
    return value
  | .function f a => do applyFunction f (← a.run calls)
  | .operator o a b => do
    let x ← a.run calls
    applyOperator o x (← b.run calls)
  | .binaryFunction f a b => do
    let x ← a.run calls
    applyBinaryFunction f x (← b.run calls)
  | .conditional condition whenTrue whenFalse => do
    if (← condition.run calls).isFalse then whenFalse.run calls else whenTrue.run calls
  | .multiFunction f args => do applyMultiFunction f (← Code.runAll calls args)
  | .call index args => do calls.function index (← Code.runAll calls args)
  | .block index => calls.block index

/-- Runs codes one after the other. -/
def Code.runAll (calls : Calls) : List Code → SessionM (List Value)
  | [] => return []
  | code :: rest => do
    let value ← code.run calls
    return value :: (← Code.runAll calls rest)

end

end UnitCalc

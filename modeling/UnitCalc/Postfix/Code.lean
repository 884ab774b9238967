/-
# Compiled code

An expression that is evaluated many times is compiled into a tree. Parts that depend on
nothing but literals are evaluated once and kept as constants, a conditional evaluates
only the branch that it takes, and names that were never assigned are resolved to units.

## Main definitions

* `Code` is a compiled expression.
* `Code.ofPostfix` compiles a postfix program.
-/

import UnitCalc.Calculator.Evaluation
import UnitCalc.Token.Basic

namespace UnitCalc

/-- A compiled expression. -/
inductive Code where
  | const (value : Value)
  | read (cell : CellId) (name : String)
  | assign (cell : CellId) (value : Code)
  | defineUnit (name : String) (value : Code)
  | function (f : Function) (a : Code)
  | operator (o : Operator) (a b : Code)
  | binaryFunction (f : BinaryFunction) (a b : Code)
  | conditional (condition whenTrue whenFalse : Code)
  | multiFunction (f : MultiFunction) (args : List Code)
  | call (index : Nat) (args : List Code)
  | block (index : Nat)

instance : Inhabited Code := ⟨.const (.real 0)⟩

/-- What compilation reads from a session: the calculator, the variables that were
assigned, and the units that names denote. -/
structure Compilation where
  calculator : Calculator Float
  isAssigned : CellId → Bool
  unit? : String → Option ValueUnit

/-- Numbers below this magnitude count as false in a condition. -/
def falseLimit : Float := 1e-12

/-- A condition fails when its real part is zero up to rounding. -/
def Quantity.isFalse (condition : Value) : Bool :=
  condition.re.abs < falseLimit

namespace Code

/-- The value of a constant. -/
def const? : Code → Option Value
  | const value => some value
  | _ => none

/-- A variable that was assigned is read when the code runs. One that was not is a unit, if
it names one. -/
def ofVariable (c : Compilation) (cell : Option CellId) (name : String) : Except CalcError Code :=
  match cell with
  | none => .error (.undefinedName name)
  | some cell =>
    if c.isAssigned cell then .ok (read cell name)
    else match c.unit? name with
      | some u => .ok (const (Quantity.literal u).collapsed)
      | none => .ok (read cell name)

/-- A function of one argument; drawing a random number is left to the run. -/
def ofFunction (c : Compilation) (f : Function) (a : Code) : Except CalcError Code :=
  match a with
  | const x => if f = .random then .ok (function f a) else (c.calculator.function f x).map const
  | _ => .ok (function f a)

/-- An operator. -/
def ofOperator (c : Compilation) (o : Operator) (a b : Code) : Except CalcError Code :=
  match a, b with
  | const x, const y => (c.calculator.operator o x y).map const
  | _, _ => .ok (operator o a b)

/-- A function of two arguments. -/
def ofBinaryFunction (c : Compilation) (f : BinaryFunction) (a b : Code) :
    Except CalcError Code :=
  match a, b with
  | const x, const y => (c.calculator.binaryFunction f x y).map const
  | _, _ => .ok (binaryFunction f a b)

/-- A function of many arguments. -/
def ofMultiFunction (c : Compilation) (f : MultiFunction) (args : List Code) :
    Except CalcError Code :=
  match args.mapM const? with
  | some values => (c.calculator.multiFunction f values).map const
  | none => .ok (multiFunction f args)

/-- A conditional; a constant condition picks its branch at once. -/
def ofConditional (condition whenTrue whenFalse : Code) : Code :=
  match condition with
  | const c => if c.isFalse then whenFalse else whenTrue
  | _ => conditional condition whenTrue whenFalse

/-- An assignment to the first token of a program. -/
def ofAssignment (target : Token) (value : Code) : Except CalcError Code :=
  match target with
  | .variable (some cell) _ => .ok (assign cell value)
  | .unit none name => .ok (defineUnit name value)
  | _ => .error .assignmentWithoutTarget

/-- The value of a literal. -/
def literal (value : Option Value) (name : String) : Except CalcError Value :=
  match value with
  | some value => .ok value
  | none => .error (.undefinedName name)

/-- One step of compilation on a stack of codes, the last one on top. `first` is the first
token of the program. -/
def step (c : Compilation) (first : Token) (stack : List Code) (t : Token) :
    Except CalcError (List Code) :=
  match t with
  | .constant value text => do return const (← literal value text) :: stack
  | .unit none _ => .ok (const (.real 0) :: stack)
  | .unit (some value) _ => .ok (const value.collapsed :: stack)
  | .input (some value) => .ok (const value :: stack)
  | .input none => .error .undefinedInput
  | .variable cell name => do return (← ofVariable c cell name) :: stack
  | .negation _ => match stack with
    | a :: rest => do return (← ofFunction c .negate a) :: rest
    | _ => .error .stackEmpty
  | .operator symbol _ => match stack with
    | b :: a :: rest =>
      if symbol == '=' then do return (← ofAssignment first b) :: rest
      else do return (← ofOperator c (Token.operatorOf symbol) a b) :: rest
    | _ => .error .stackEmpty
  | .factorial => match stack with
    | a :: rest => do return (← ofFunction c .factorial a) :: rest
    | _ => .error .stackEmpty
  | .function name => match stack with
    | a :: rest => do return (← ofFunction c (Token.functionOf name) a) :: rest
    | _ => .error .stackEmpty
  | .binaryFunction name => match stack with
    | b :: a :: rest =>
      do return (← ofBinaryFunction c (Token.binaryFunctionOf name) a b) :: rest
    | _ => .error .stackEmpty
  | .conditional => match stack with
    | whenFalse :: whenTrue :: condition :: rest =>
      .ok (ofConditional condition whenTrue whenFalse :: rest)
    | _ => .error .stackEmpty
  | .multiFunction name count =>
    if count ≤ stack.length then do
      let args := (stack.take count).reverse
      return (← ofMultiFunction c (Token.multiFunctionOf name) args) :: stack.drop count
    else .error .stackEmpty
  | .call none name _ => .error (.functionNotDefined name)
  | .call (some index) _ count =>
    if count ≤ stack.length then .ok (call index (stack.take count).reverse :: stack.drop count)
    else .error .stackEmpty
  | .block index _ => .ok (block index :: stack)
  | .blank _ | .openBracket | .closeBracket | .separator => .error (.illegalPair t.content "")

/-- Compiles a postfix program, which has to leave one value. -/
def ofPostfix (c : Compilation) (program : List Token) : Except CalcError Code :=
  match program with
  | [] => .error .emptyExpression
  | first :: _ => do
    match ← program.foldlM (step c first) [] with
    | [code] => return code
    | [] => throw .stackEmpty
    | _ => throw .valuesLeft

end Code

end UnitCalc

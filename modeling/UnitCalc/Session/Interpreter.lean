/-
# Running postfix programs

A statement is run on a stack of values with a fixed number of places. A program that ends
in an assignment leaves its first token aside and assigns to it at the end. Functions and
blocks of a session never lead back to themselves, so their number bounds how deeply calls
are nested.

## Main definitions

* `Session.calls` evaluates the calls and the blocks of a session.
* `Postfix.run` runs a program.
-/

import UnitCalc.Session.BlockValue
import UnitCalc.Session.FunctionCall

namespace UnitCalc

/-- Calls and blocks that are nested at most so deep. -/
def Calls.ofDepth : Nat → Calls
  | 0 => ⟨fun _ _ => throw .stackOverflow, fun _ => throw .stackOverflow⟩
  | depth + 1 =>
    let inner := ofDepth depth
    ⟨SessionM.evaluateCall inner, SessionM.evaluateBlock inner⟩

/-- The calls and the blocks of a session. -/
def Session.calls (s : Session) : Calls :=
  .ofDepth (s.functions.size + s.blocks.size + 1)

/-- The outcome of a statement: its value, whether a variable was read, and the value that
the assigned variable had before. -/
structure Outcome where
  value : Value
  readsVariable : Bool := false
  replaced : Option Value := none

namespace Postfix

/-- The number of values that the stack holds. -/
def stackSize : Nat := 100

/-- The stack of a run, the last value first, and whether a variable was read. -/
structure Machine where
  stack : List Value := []
  readsVariable : Bool := false

namespace Machine

/-- Puts a value on a stack. -/
def push (m : Machine) (stack : List Value) (value : Value) : SessionM Machine :=
  if stack.length < stackSize then return { m with stack := value :: stack }
  else throw .stackOverflow

end Machine

/-- The value of a variable, or one of the unit that its name denotes. The flag tells the
two apart. -/
def readVariable (cell : Option CellId) (name : String) : SessionM (Value × Bool) := do
  match cell.bind (← get).assigned? with
  | some value => return (value, true)
  | none => return (← SessionM.unitValue name, false)

/-- Runs a token other than an assignment. -/
def step (calls : Calls) (m : Machine) (t : Token) : SessionM Machine := do
  match t with
  | .constant (some value) _ | .unit (some value) _ | .input (some value) =>
    m.push m.stack value
  | .constant none name | .unit none name => throw (.undefinedName name)
  | .input none => throw .undefinedInput
  | .variable cell name =>
    let (value, isVariable) ← readVariable cell name
    { m with readsVariable := m.readsVariable || isVariable }.push m.stack value
  | .negation _ => match m.stack with
    | a :: rest => m.push rest (← SessionM.applyFunction .negate a)
    | _ => throw .missingOperand
  | .operator symbol _ => match m.stack with
    | b :: a :: rest => m.push rest (← SessionM.applyOperator (Token.operatorOf symbol) a b)
    | _ => throw .missingOperand
  | .factorial => match m.stack with
    | a :: rest => m.push rest (← SessionM.applyFunction .factorial a)
    | _ => throw .missingOperand
  | .function name => match m.stack with
    | a :: rest => m.push rest (← SessionM.applyFunction (Token.functionOf name) a)
    | _ => throw .missingOperand
  | .binaryFunction name => match m.stack with
    | b :: a :: rest =>
      m.push rest (← SessionM.applyBinaryFunction (Token.binaryFunctionOf name) a b)
    | _ => throw .missingOperand
  | .conditional => match m.stack with
    | whenFalse :: whenTrue :: condition :: rest =>
      m.push rest (if condition.isFalse then whenFalse else whenTrue)
    | _ => throw .stackEmpty
  | .multiFunction name count =>
    if count ≤ m.stack.length then
      let args := (m.stack.take count).reverse
      m.push (m.stack.drop count)
        (← SessionM.applyMultiFunction (Token.multiFunctionOf name) args)
    else throw .stackEmpty
  | .call none name _ => throw (.functionNotDefined name)
  | .call (some index) _ count =>
    if count ≤ m.stack.length then
      m.push (m.stack.drop count) (← calls.function index (m.stack.take count).reverse)
    else throw .stackEmpty
  | .block index _ => m.push m.stack (← calls.block index)
  | .blank _ | .openBracket | .closeBracket | .separator => throw (.illegalPair t.content "")

/-- Assigns a value to the first token of a program. -/
def assign (target : Token) (m : Machine) (value : Value) : SessionM Outcome := do
  match target with
  | .variable (some id) _ =>
    let replaced := (← get).assigned? id
    modify fun s => s.assign id value
    return { value, readsVariable := m.readsVariable, replaced }
  | .unit none name =>
    SessionM.defineUnit name value
    return { value, readsVariable := m.readsVariable }
  | _ => throw .assignmentWithoutTarget

/-- Ends a run with the only value of the stack. -/
def finish (unit : Option ValueUnit) (m : Machine) : SessionM Outcome := do
  match m.stack with
  | [value] =>
    return { value := ← ofExcept (value.applyTarget unit), readsVariable := m.readsVariable }
  | [] => throw .stackEmpty
  | _ => throw .valuesLeft

/-- Runs the rest of a program. The value of the program is converted into `unit`, and
assigned to `target` at the first assignment. -/
def runFrom (calls : Calls) (target : Option Token) (unit : Option ValueUnit) (m : Machine) :
    List Token → SessionM Outcome
  | [] => finish unit m
  | t :: rest => do
    if t.isAssignment then
      match target, m.stack with
      | some target, value :: _ => assign target m (← ofExcept (value.applyTarget unit))
      | some _, [] => throw .stackEmpty
      | none, _ => throw .assignmentWithoutTarget
    else runFrom calls target unit (← step calls m t) rest

/-- The token that a program assigns to: its first one, when that is a variable or a unit
and an assignment ends the program. -/
def assignee? : List Token → Option Token
  | [] | [_] => none
  | t :: rest => match t with
    | .variable _ _ | .unit _ _ => if rest.getLast?.any Token.isAssignment then some t else none
    | _ => none

/-- Runs a program whose value is wanted in a unit. -/
def run (calls : Calls) (program : List Token) (unit : Option ValueUnit) :
    SessionM Outcome := do
  SessionM.checkCancelled
  match program, assignee? program with
  | [], _ => throw .emptyExpression
  | program, none => runFrom calls none unit {} program
  | _ :: rest, some target => runFrom calls (some target) unit {} rest

end Postfix

end UnitCalc

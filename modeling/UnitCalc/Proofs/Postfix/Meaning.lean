/-
# Meanings of programs

What the value of a program depends on is a calculator and the values of names, calls and
blocks. Every token puts one value on the stack in place of its operands, so the value of a
program is computed at once, without a session. Assignments and random numbers change the
session and have no value here.

## Main definitions

* `Meaning` gives values to names, calls and blocks.
* `Postfix.value?` is the value of a program.
-/

import UnitCalc.Postfix.Code

namespace UnitCalc

theorem ok_of_toOption {α : Type} {r : Except CalcError α} {a : α} (some : r.toOption = some a) :
    r = .ok a := by
  cases r with
  | error e => simp [Except.toOption] at some
  | ok b => simpa [Except.toOption] using some

/-- What the values of programs depend on. -/
structure Meaning where
  calculator : Calculator Float
  name : Option CellId → String → Option Value
  call : Nat → List Value → Option Value
  block : Nat → Option Value

namespace Meaning

/-- The value of a function of one argument. -/
def function (m : Meaning) (f : Function) (a : Value) : Option Value :=
  if f = .random then none else (m.calculator.function f a).toOption

/-- The value of a function of two arguments. -/
def binaryFunction (m : Meaning) (f : BinaryFunction) (a b : Value) : Option Value :=
  (m.calculator.binaryFunction f a b).toOption

/-- The value of a function of many arguments. -/
def multiFunction (m : Meaning) (f : MultiFunction) (args : List Value) : Option Value :=
  (m.calculator.multiFunction f args).toOption

/-- The value of an operator. -/
def operator (m : Meaning) (symbol : Char) (a b : Value) : Option Value :=
  if symbol == '=' then none else (m.calculator.operator (Token.operatorOf symbol) a b).toOption

variable {m : Meaning} {a b x : Value}

theorem function_ok {f : Function} (applied : m.function f a = some x) :
    f ≠ .random ∧ m.calculator.function f a = .ok x := by
  unfold Meaning.function at applied
  split at applied
  · cases applied
  · next plain => exact ⟨plain, ok_of_toOption applied⟩

theorem operator_ok {symbol : Char} (applied : m.operator symbol a b = some x) :
    (symbol == '=') = false ∧ m.calculator.operator (Token.operatorOf symbol) a b = .ok x := by
  unfold Meaning.operator at applied
  split at applied
  · cases applied
  · next other => exact ⟨Bool.eq_false_iff.2 other, ok_of_toOption applied⟩

end Meaning

namespace Postfix

/-- Puts the value of a token on the stack in place of its operands, the last one first. -/
def push? (m : Meaning) (stack : List Value) (t : Token) : Option (List Value) :=
  match t with
  | .constant value _ | .unit value _ | .input value => value.map (· :: stack)
  | .variable cell name => (m.name cell name).map (· :: stack)
  | .negation _ => match stack with
    | a :: rest => (m.function .negate a).map (· :: rest)
    | _ => none
  | .factorial => match stack with
    | a :: rest => (m.function .factorial a).map (· :: rest)
    | _ => none
  | .function name => match stack with
    | a :: rest => (m.function (Token.functionOf name) a).map (· :: rest)
    | _ => none
  | .operator symbol _ => match stack with
    | b :: a :: rest => (m.operator symbol a b).map (· :: rest)
    | _ => none
  | .binaryFunction name => match stack with
    | b :: a :: rest => (m.binaryFunction (Token.binaryFunctionOf name) a b).map (· :: rest)
    | _ => none
  | .conditional => match stack with
    | whenFalse :: whenTrue :: condition :: rest =>
      some ((if condition.isFalse then whenFalse else whenTrue) :: rest)
    | _ => none
  | .multiFunction name count =>
    if count ≤ stack.length then
      (m.multiFunction (Token.multiFunctionOf name) (stack.take count).reverse).map
        (· :: stack.drop count)
    else none
  | .call index _ count =>
    if count ≤ stack.length then
      (index.bind fun i => m.call i (stack.take count).reverse).map (· :: stack.drop count)
    else none
  | .block index _ => (m.block index).map (· :: stack)
  | .blank _ | .openBracket | .closeBracket | .separator => none

/-- The value of a program that leaves a single one. -/
def value? (m : Meaning) (program : List Token) : Option Value :=
  match program.foldlM (push? m) [] with
  | some [value] => some value
  | _ => none

theorem value?_eq_some_iff {m : Meaning} {program : List Token} {value : Value} :
    value? m program = some value ↔ program.foldlM (push? m) [] = some [value] := by
  unfold value?
  split
  · next found => simp [found]
  · next other => simpa using other value

/-- The first token of a program puts its value on the stack, and the others follow. -/
theorem foldlM_push_cons {m : Meaning} {t : Token} {program : List Token}
    {values final : List Value} :
    (t :: program).foldlM (push? m) values = some final ↔
      ∃ between, push? m values t = some between ∧
        program.foldlM (push? m) between = some final := by
  rw [List.foldlM_cons]
  exact Option.bind_eq_some_iff

end Postfix

end UnitCalc

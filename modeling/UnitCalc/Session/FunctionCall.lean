/-
# Calls of custom functions

A call stores its arguments in the cells of the parameters and runs the body, which is
compiled at the first call. Functions of one or two parameters keep their results until
something they depend on changes, or until there are too many.

## Main definitions

* `UserFunction.result?` is a kept result, and `UserFunction.keep` keeps one.
* `SessionM.evaluateCall` calls a function.
-/

import UnitCalc.Quantity.Target
import UnitCalc.Session.Code

namespace UnitCalc

namespace UserFunction

/-- The number of parameters. -/
def arity (f : UserFunction) : Nat :=
  f.parameters.length

/-- Functions of one or two parameters keep their results. -/
def keepsResults (f : UserFunction) : Bool :=
  f.arity == 1 || f.arity == 2

/-- The result that was kept for some arguments. -/
def result? (f : UserFunction) (args : List Value) : Option Value :=
  if f.keepsResults then f.results.lookup (args.map ArgumentKey.ofValue) else none

/-- No function keeps more results. -/
def maxResults : Nat := 1000

/-- Drops all results when there are too many. -/
def limited (f : UserFunction) : UserFunction :=
  if maxResults ≤ f.results.length then { f with results := [] } else f

/-- Keeps a result. -/
def keep (f : UserFunction) (args : List Value) (result : Value) : UserFunction :=
  let f := f.limited
  if f.keepsResults then
    { f with results := (args.map ArgumentKey.ofValue, result) :: f.results }
  else f

end UserFunction

/-- Stores values in the cells of parameters, which nobody is told about. -/
def Session.storeAll (s : Session) (parameters : List CellId) (args : List Value) : Session :=
  (parameters.zip args).foldl (fun s (id, value) => s.store id value) s

namespace SessionM

/-- The code of a function, which is compiled when there is none. -/
def functionCode (index : Nat) (f : UserFunction) : SessionM Code := do
  match f.code with
  | some code => return code
  | none =>
    let code ← read fun s => Code.ofPostfix s.compilation f.body
    modify fun s => s.modifyFunction index fun f => { f with code := some code }
    return code

/-- Evaluates the body of a function for some arguments. -/
def runFunction (calls : Calls) (index : Nat) (f : UserFunction) (args : List Value) :
    SessionM Value := do
  modify fun s => s.storeAll (f.parameters.map Prod.snd) args
  let code ← functionCode index f
  let value ← code.run calls
  ofExcept (value.applyTarget f.unit)

/-- Calls a function. A circular function has no value. -/
def evaluateCall (calls : Calls) (index : Nat) (args : List Value) : SessionM Value := do
  match (← get).functions[index]? with
  | none => throw (.functionNotDefined ("#" ++ toString index))
  | some f =>
    if f.isCircular then return .undefined
    checkCancelled
    if args.length ≠ f.arity then throw .argumentCount
    match f.result? args with
    | some result =>
      modify fun s => s.modifyFunction index fun f => { f with hits := f.hits + 1 }
      return result
    | none =>
      modify fun s => s.modifyFunction index fun f => { f with misses := f.misses + 1 }
      let result ← runFunction calls index f args
      modify fun s => s.modifyFunction index fun f => f.keep args result
      return result

end SessionM

end UnitCalc

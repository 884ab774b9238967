/-
# Evaluating statements

Statements are read and evaluated in a session, and expressions are compiled over named
parameters for repeated calls, as plots need them.

## Main definitions

* `SessionM.parse` reads a statement, `runStatement` evaluates one, and `evaluate` does both.
* `SessionM.compile` compiles an expression, and `Formula.call` calls it.
* `Session.render` shows a program with its blocks in full.
-/

import UnitCalc.Session.Interpreter
import UnitCalc.Statement.Parse

namespace UnitCalc

/-- Drops the results of functions that keep too many. -/
def Session.limitResults (s : Session) : Session :=
  { s with functions := s.functions.map UserFunction.limited }

/-- A program with its blocks in full. -/
def Session.render (s : Session) (program : List Token) : String :=
  Postfix.textWith (fun index => s.blocks[index]?.map Block.text) program

/-- How often results of a function were found, how often they were not, and how many are
kept. -/
structure ResultStatistics where
  hits : Nat
  misses : Nat
  kept : Nat

/-- What a function kept so far. -/
def Session.statistics? (s : Session) (name : String) : Option ResultStatistics := do
  let index ← s.functionNames.lookup name
  let f ← s.functions[index]?
  return ⟨f.hits, f.misses, f.results.length⟩

/-- The size of plots and the step between their points. -/
structure PlotFrame where
  width : Float
  height : Float
  step : Float

/-- The settings of plots, from the variables of these names. -/
def Session.plotFrame (s : Session) : PlotFrame :=
  let read (name : String) (default : Float) : Float :=
    ((s.value? name).map Quantity.re).getD default
  ⟨read "PlotWidth" 500, read "PlotHeight" 300, read "PlotStep" 0⟩

/-- An expression over the cells of its parameters. -/
structure Formula where
  parameters : List CellId
  code : Code
  unit : Option ValueUnit

namespace SessionM

/-- Reads a statement, which may assign. -/
def parse (text : String) : SessionM Statement := do
  modify Session.limitResults
  parseStatement text.toList true

/-- Reads the setting for the results of inverse trigonometric functions from the variable
of that name. -/
def updateReturnAngles : SessionM Unit :=
  modify fun s =>
    { s with returnAngles := (s.value? "ReturnAngleUnits").any fun q => q.re != 0 }

/-- Runs a program. A cancelled run takes the cancellation back. -/
def runProgram (program : List Token) (unit : Option ValueUnit) : SessionM Outcome := do
  updateReturnAngles
  let calls := (← get).calls
  tryCatch (Postfix.run calls program unit) fun e => do
    if e = .interrupted then modify fun s => { s with isCancelled := false }
    throw e

/-- Evaluates a statement. A definition has no value. -/
def runStatement (statement : Statement) : SessionM Outcome := do
  if !(← get).isEnabled then throw .notActive
  if statement.isDefinition then return { value := .undefined }
  runProgram statement.program statement.unit

/-- Reads and evaluates a statement. -/
def evaluate (text : String) : SessionM Outcome := do
  runStatement (← parse text)

/-- The real value of a statement. -/
def evaluateReal (text : String) : SessionM Float := do
  let value := (← evaluate text).value
  if value.isReal then return value.re else throw (.notReal value.messageText)

/-- Reads an expression over named parameters. -/
def parsePlotted (text : String) : SessionM Statement :=
  ExceptT.mk do
    let wasPlotting := (← get).isPlotting
    modify fun s => { s with isPlotting := true }
    let result ← (parseStatement text.toList false).run
    modify fun s => { s with isPlotting := wasPlotting }
    return result

/-- Compiles an expression over named parameters. -/
def compile (text : String) (names : List String) : SessionM Formula := do
  let statement ← parsePlotted text
  if statement.isDefinition then throw .invalidDefinition
  let parameters ← modifyGet fun s => s.newParameters names
  let program ← bindProgram parameters statement.program
  let code ← read fun s => Code.ofPostfix s.compilation program
  return ⟨parameters.map Prod.snd, code, statement.unit⟩

end SessionM

/-- Calls a compiled expression. -/
def Formula.call (e : Formula) (args : List Value) : SessionM Value := do
  if args.length ≠ e.parameters.length then throw .argumentCount
  modify fun s => s.storeAll e.parameters args
  let value ← e.code.run (← get).calls
  ofExcept (value.applyTarget e.unit)

end UnitCalc

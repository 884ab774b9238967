/-
# Statements

A statement is an expression, an assignment or the definition of a function. A bar separates
it from the unit that its result is wanted in, and a quote starts a comment. Functions are
defined, and blocks are added to the session, when a statement is read.

## Main definitions

* `Statement` is a statement that was read, and `Statement.text` shows it.
* `SessionM.parseStatement` reads a statement.
-/

import UnitCalc.Postfix.Infix
import UnitCalc.Statement.Block
import UnitCalc.Token.Legality

namespace UnitCalc

/-- A statement: its program, the unit that its result is wanted in, the index of the function
that it defined, and its characters. -/
structure Statement where
  program : List Token
  unit : Option ValueUnit
  function : Option Nat
  source : String

namespace Statement

/-- The statement defined a function. -/
def isDefinition (s : Statement) : Bool :=
  s.function.isSome

/-- A statement as it is shown: a definition as it was written, else the program and the
unit. -/
def text (s : Statement) : String :=
  if s.isDefinition then Text.trim s.source
  else Postfix.infixText s.program ++ s.unit.elim "" fun u => " | " ++ u.text

/-- The characters of the expression, and those behind the bar. -/
def split (text : List Char) : List Char × Option (List Char) :=
  Text.cutAt '|' (Text.withoutComment 0 text)

theorem length_split (text : List Char) : (split text).1.length ≤ text.length :=
  Nat.le_trans (Text.length_cutAt '|' _).1 (Text.length_withoutComment 0 text)

end Statement

namespace SessionM

/-- Reads the unit behind the bar of a statement. -/
def parseUnit (text : Option (List Char)) : SessionM (Option ValueUnit) := do
  match Text.trimList (text.getD []) with
  | [] => return none
  | cs => read fun s =>
    match MeasureUnit.parse s.unit? (String.ofList cs) with
    | .ok u => .ok (some u)
    | .error e => .error (.units e)

/-- Where names that were never assigned stand for units: not in definitions and blocks,
whose variables may get values later, and not in expressions over named parameters. -/
def unitNames (isDefinition : Bool) : SessionM (Option (String → Option ValueUnit)) := do
  let s ← get
  return if isDefinition || s.inBlock || s.isPlotting then none else some s.unit?

/-- Makes a statement of tokens. -/
def ofScan (source : List Char) (unit : Option ValueUnit) (scan : Scan) :
    SessionM Statement := do
  if scan.tokens.isEmpty then throw .emptyExpression
  let (tokens, isDefinition) ← ofExcept (Token.check scan.tokens)
  if isDefinition && (← get).inBlock then throw .definitionInBlock
  let names ← unitNames isDefinition
  let tokens := Token.bind (← get).isAssigned names scan.assignment tokens
  let source := String.ofList source
  if isDefinition then
    return { program := [], unit, function := some (← define tokens unit), source }
  else return { program := ← ofExcept (Postfix.ofTokens tokens), unit, function := none, source }

/-- Reads a statement; `allowed` tells whether it may assign. -/
def parseStatement (source : List Char) (allowed : Bool) : SessionM Statement := do
  let unit ← parseUnit (Statement.split source).2
  let create (method : Method) (script : Shorter source.length) : SessionM Nat :=
    createBlock (fun part allowed => return (← parseStatement part.1 allowed).program) method
      script
  let scan ← Scan.run source.length create allowed (Statement.split source).1
    (Statement.length_split source) {}
  ofScan source unit scan
termination_by source.length
decreasing_by exact part.2

end SessionM

end UnitCalc

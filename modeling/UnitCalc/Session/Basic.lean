/-
# Sessions

A session holds what statements share: variables, units of its own, custom functions and
the blocks of numerical methods. Variables live in cells, so that code can refer to a
variable that has no value yet, and the parameters of functions and blocks are cells
without a name. Cells are never given back, so a statement can outlive a reset.

## Main definitions

* `Session` is the state, and `SessionM` a computation that may fail in it.
* `Dependent` names a function or a block, which keep results that were derived from cells.
-/

import UnitCalc.Method.Basic
import UnitCalc.Postfix.Code
import UnitCalc.Settings

namespace UnitCalc

/-- What keeps something derived from variables: a custom function, or a block. -/
inductive Dependent where
  | function (index : Nat)
  | block (index : Nat)
deriving Repr, DecidableEq

/-- A variable: its value, whether it was ever assigned, and what depends on it. -/
structure Cell where
  value : Value := .real 0
  isAssigned : Bool := false
  dependents : List Dependent := []

instance : Inhabited Cell := ⟨{}⟩

/-- What tells the arguments of a call apart: the bits of the number and the text of the
unit. -/
structure ArgumentKey where
  re : UInt64
  im : UInt64
  unit : Option String
deriving Repr, DecidableEq

/-- The key of an argument. -/
def ArgumentKey.ofValue (q : Value) : ArgumentKey :=
  ⟨q.re.toBits, q.im.toBits, q.unit.map MeasureUnit.text⟩

/-- A custom function: the cells of its parameters, its body, the unit that its results are
converted to, and what was kept from earlier calls. A function that leads back to itself is
circular and has no value. -/
structure UserFunction where
  name : String
  parameters : List (String × CellId)
  body : List Token
  unit : Option ValueUnit
  isCircular : Bool := false
  dependents : List Dependent := []
  code : Option Code := none
  results : List (List ArgumentKey × Value) := []
  hits : Nat := 0
  misses : Nat := 0

/-- A part of a block: its text and its program. -/
structure Part where
  text : String
  program : List Token

/-- The code of the parts of a block. -/
structure BlockCode where
  objective : Code
  lower : Code
  upper : Option Code
  equation : Option Code

/-- A block: the method, the objective, the variable as it was written, the bounds, and the
right side of an equation. The objective and the right side read the variable from a cell
of the block. Searches for an extreme value leave its place in another variable. -/
structure Block where
  method : Method
  objective : Part
  unknown : Token
  lower : Part
  upper : Option Part
  equation : Option Part
  parameter : CellId
  extremum : Option CellId := none
  dependents : List Dependent := []
  code : Option BlockCode := none

/-- The name of the variable of a block. -/
def Block.unknownName (b : Block) : String :=
  b.unknown.content

/-- All tokens of a block. -/
def Block.tokens (b : Block) : List Token :=
  b.objective.program ++ b.unknown :: b.lower.program ++ (b.upper.elim [] Part.program) ++
    (b.equation.elim [] Part.program)

/-- A source of random numbers between zero and one, the next of which is known. -/
structure RandomSource where
  next : Float
  generator : StdGen

namespace RandomSource

/-- The source that goes on with a generator. -/
def ofGenerator (g : StdGen) : RandomSource :=
  let (n, generator) := stdNext g
  ⟨Float.ofNat (n - 1) / 2147483562.0, generator⟩

/-- The source behind its next number. -/
def advance (r : RandomSource) : RandomSource :=
  ofGenerator r.generator

end RandomSource

/-- The state of a session. In lists of names the first entry of a name counts.
`blockDepth` counts the blocks that are being read, and `isPlotting` tells that an
expression over named parameters is being read. -/
structure Session where
  settings : Settings
  random : RandomSource
  cells : Array Cell := #[]
  cellNames : List (String × CellId) := []
  units : List (String × ValueUnit) := []
  functions : Array UserFunction := #[]
  functionNames : List (String × Nat) := []
  blocks : Array Block := #[]
  input : List String := []
  isEnabled : Bool := true
  isCancelled : Bool := false
  isPlotting : Bool := false
  blockDepth : Nat := 0
  /-- Inverse trigonometric functions attach the angle unit to their results. -/
  returnAngles : Bool := false

/-- A computation in a session. What it changed before an error stays changed. -/
abbrev SessionM := ExceptT CalcError (StateM Session)

namespace Session

/-- A cell of the session. -/
def cell (s : Session) (id : CellId) : Cell :=
  s.cells.getD id {}

/-- The cell was assigned a value. -/
def isAssigned (s : Session) (id : CellId) : Bool :=
  (s.cell id).isAssigned

/-- The value of a cell that was assigned one. -/
def assigned? (s : Session) (id : CellId) : Option Value :=
  let c := s.cell id
  if c.isAssigned then some c.value else none

/-- The value of the variable of a name. -/
def value? (s : Session) (name : String) : Option Value :=
  (s.cellNames.lookup name).bind s.assigned?

/-- The unit of a name; the units of the session come before the built-in ones. -/
def unit? (s : Session) (name : String) : Option ValueUnit :=
  match s.units.lookup name with
  | some u => some u
  | none => Catalogue.find? name

/-- A block is being read. -/
def inBlock (s : Session) : Bool :=
  0 < s.blockDepth

/-- The calculator of the session. -/
def calculator (s : Session) : Calculator Float :=
  { kernel := .ofMode s.settings.complex, angle := s.settings.angle,
    returnAngles := s.returnAngles, draw := s.random.next }

/-- What compilation reads from the session. -/
def compilation (s : Session) : Compilation :=
  { calculator := s.calculator, isAssigned := s.isAssigned, unit? := s.unit? }

/-- The precision of numerical methods when the session sets none. -/
def defaultPrecision : Float := 1e-14

/-- The precision of numerical methods, from the variable of that name. -/
def precision (s : Session) : Float :=
  Scalar.clamp 1e-15 1e-2 (((s.value? "Precision").map Quantity.re).getD defaultPrecision)

/-- All functions and blocks. -/
def dependents (s : Session) : List Dependent :=
  (List.range s.functions.size).map .function ++ (List.range s.blocks.size).map .block

/-- What depends on a function or a block. -/
def dependentsOf (s : Session) : Dependent → List Dependent
  | .function i => s.functions[i]?.elim [] UserFunction.dependents
  | .block i => s.blocks[i]?.elim [] Block.dependents

/-- The tokens that a function or a block consists of. -/
def tokensOf (s : Session) : Dependent → List Token
  | .function i => s.functions[i]?.elim [] UserFunction.body
  | .block i => s.blocks[i]?.elim [] Block.tokens

end Session

/-- The function or block that a token refers to. -/
def Token.reference? : Token → Option Dependent
  | .call (some index) _ _ => some (.function index)
  | .block index _ => some (.block index)
  | _ => none

/-- The functions and blocks that a function or a block refers to. -/
def Session.references (s : Session) (d : Dependent) : List Dependent :=
  (s.tokensOf d).filterMap Token.reference?

namespace SessionM

/-- Fails when the session was cancelled. -/
def checkCancelled : SessionM Unit := do
  if (← get).isCancelled then throw .interrupted

/-- Reads something from the session that may fail. -/
def read {α : Type} (f : Session → Except CalcError α) : SessionM α := do
  ofExcept (f (← get))

end SessionM

end UnitCalc

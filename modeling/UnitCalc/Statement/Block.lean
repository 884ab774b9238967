/-
# Reading blocks

The parts of a block are statements of their own, shorter than the one that contains the
block. While they are read the session counts the blocks around them. A block is added to
the session behind the blocks inside of it.

## Main definitions

* `SessionM.insideBlock` counts a block while an action runs.
* `Session.addBlock` adds a block to the session.
* `SessionM.createBlock` reads a block from its script.
-/

import UnitCalc.Statement.Definition
import UnitCalc.Statement.Script

namespace UnitCalc

/-- Adds a block to the session, which gives it its index. It depends on what its tokens
refer to, its own variable apart. -/
def Session.addBlock (s : Session) (b : Block) : Nat × Session :=
  let index := s.blocks.size
  let outer := b.tokens.filter fun t => t.cell? != some b.parameter
  (index, { s with blocks := s.blocks.push b }.dependOnAll (.block index) outer)

/-- What the name of a variable is followed by in the name of the variable that a search for
an extreme value leaves its place in. -/
def Method.placeSuffix? : Method → Option String
  | .supremum => some "_sup"
  | .infimum => some "_inf"
  | _ => none

namespace SessionM

/-- Runs an action as part of a block that is being read. -/
def insideBlock {α : Type} (action : SessionM α) : SessionM α :=
  ExceptT.mk do
    modify fun s => { s with blockDepth := s.blockDepth + 1 }
    let result ← action.run
    modify fun s => { s with blockDepth := s.blockDepth - 1 }
    return result

/-- The variable that a block leaves the place of an extreme value in. It has no value until
the block is evaluated. -/
def extremumCell (method : Method) (unknown : String) : SessionM (Option CellId) := do
  match method.placeSuffix? with
  | none => return none
  | some suffix =>
    let id ← modifyGet fun s => s.cellOf (unknown ++ suffix)
    modify fun s => s.assign id .undefined
    return some id

variable {limit : Nat}

/-- Reads the parts of a block. Only the objective of a repetition may assign. -/
def readBlock (parse : Shorter limit → Bool → SessionM (List Token)) (method : Method)
    (script : Script limit) : SessionM Block := do
  let part (text : Shorter limit) (allowed : Bool) : SessionM Part := do
    return ⟨String.ofList text.1, ← parse text allowed⟩
  let objective ← part script.objective (method = .iterate)
  let unknown ← part script.unknown false
  let lower ← part script.lower false
  let upper ← script.upper.mapM fun text => part text false
  let equation ← script.equation.mapM fun text => part text false
  match unknown.program with
  | [.variable cell name] =>
    let parameter ← modifyGet Session.newParameter
    return { method, objective, unknown := .variable cell name, lower, upper, equation, parameter }
  | _ => throw (.invalidBlockVariable unknown.text)

/-- Makes the objective and the right side of the equation of a block read its variable. -/
def bindUnknown (b : Block) : SessionM Block := do
  let bindPart (part : Part) : SessionM Part := do
    return { part with program := ← bindProgram [(b.unknownName, b.parameter)] part.program }
  let objective ← bindPart b.objective
  let equation ← b.equation.mapM bindPart
  return { b with objective, equation }

/-- Reads a block from its script, adds it to the session and returns its index. -/
def createBlock (parse : Shorter limit → Bool → SessionM (List Token)) (method : Method)
    (text : Shorter limit) : SessionM Nat :=
  insideBlock do
    let script ← ofExcept (Script.read method text)
    let b ← bindUnknown (← readBlock parse method script)
    let extremum ← extremumCell method b.unknownName
    modifyGet fun s => s.addBlock { b with extremum }

end SessionM

end UnitCalc

/-
# Scripts of blocks

Between the braces of a block stand its parts: the objective, the variable, one or two
bounds, and for equations their right side. An equation can also be written as one.

## Main definitions

* `Script` holds the texts of the parts, and `Script.read` cuts a script into them.
-/

import UnitCalc.Error
import UnitCalc.Statement.Scan

namespace UnitCalc

/-- The texts of the parts of a block. -/
structure Script (limit : Nat) where
  objective : Shorter limit
  unknown : Shorter limit
  lower : Shorter limit
  upper : Option (Shorter limit)
  equation : Option (Shorter limit)

namespace Method

/-- The marks that end the parts of a block. -/
def marks : Method → List (List Char)
  | slope => [['@'], ['=', ':']]
  | root => [['@'], ['=', ':'], [':'], [':']]
  | _ => [['@'], ['=', ':'], [':']]

end Method

namespace Script

variable {limit : Nat}

/-- A text without the blanks at both ends. -/
def trimmed (cs : Shorter limit) : Shorter limit :=
  ⟨Text.trimList cs.1, Nat.lt_of_le_of_lt (Text.length_trimList_le cs.1) cs.2⟩

/-- The parts of a script. -/
def parts (method : Method) (script : Shorter limit) : List (Shorter limit) :=
  (Text.partsOutside method.marks script.1).attach.map fun ⟨part, member⟩ =>
    trimmed ⟨part, Nat.lt_of_le_of_lt (Text.length_of_mem_partsOutside member) script.2⟩

/-- The mark that is missing when a part is. -/
def missingMark (place : Nat) : Char :=
  ['@', '@', '=', ':'].getD place ':'

/-- The sides of an equation, cut at the first sign of equality outside of braces. -/
def sides (text : Shorter limit) : Shorter limit × Option (Shorter limit) :=
  have bounds := Text.length_cutOutside ['='] 0 text.1
  (trimmed ⟨(Text.cutOutside ['='] 0 text.1).1, Nat.lt_of_le_of_lt bounds.1 text.2⟩,
    (Text.cutOutside ['='] 0 text.1).2.attach.map fun ⟨back, member⟩ =>
      trimmed ⟨back, Nat.lt_of_le_of_lt (bounds.2 back member) text.2⟩)

/-- The objective and the right side of an equation, which may be a part of its own. -/
def readEquation (objective : Shorter limit) (separate : Option (Shorter limit)) :
    Except CalcError (Shorter limit × Option (Shorter limit)) :=
  match sides objective with
  | (left, some right) =>
    if (sides right).2.isSome || separate.isSome then
      .error (.multipleEquations (String.ofList objective.1))
    else .ok (left, some right)
  | (_, none) => .ok (objective, separate)

/-- Cuts a script into its parts. -/
def read (method : Method) (script : Shorter limit) : Except CalcError (Script limit) := do
  let missing (place : Nat) : CalcError :=
    .missingBlockDelimiter (missingMark place) (String.ofList script.1)
  let parts := parts method script
  if parts.length < method.partCount then throw (missing parts.length)
  if let some place := parts.findIdx? fun part => part.1.isEmpty then throw (missing place)
  match parts with
  | objective :: unknown :: lower :: bounds =>
    let (objective, equation) ←
      if method = .root then readEquation objective bounds[1]? else pure (objective, none)
    return { objective, unknown, lower, upper := bounds[0]?,
             equation := equation.filter fun side => !side.1.isEmpty }
  | _ => throw (missing parts.length)

end Script

end UnitCalc

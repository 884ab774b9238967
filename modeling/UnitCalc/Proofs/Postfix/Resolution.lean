/-
# Names of units

A statement resolves names that were never assigned to units before its operators are ordered.
Expressions over parameters keep such names, and they are resolved when the code is made. The two
programs of a text differ in these names, in the cells of variables and in orders that do not matter
any more, and have the same value as long as operators take the same operands.

## Main definitions

* `Token.StandsFor`: a token of one program stands for one of the other.
* `Session.KeepsOperands`: the units that names are resolved to do not regroup a text.
* `Session.valueMeaning`: names mean their values, whatever their cells are.

## Main results

* `Postfix.value?_eq_of_standsFor`: programs that stand for each other have the same value.
-/

import UnitCalc.Proofs.Calculator.Plain
import UnitCalc.Proofs.Postfix.Refinement
import UnitCalc.Proofs.Postfix.Stack
import UnitCalc.Proofs.Token.Placeless
import UnitCalc.Statement.Parse

namespace UnitCalc

open List (Forall₂)
open SessionM
open Token (withoutCell)

/-- Names mean their values in a session or units, and calls have the given answers. -/
def Session.valueMeaning (s : Session) (answer : Nat → List Value → Option Value) : Meaning where
  calculator := s.calculator
  name _ name := (s.value? name).or ((s.unit? name).map Quantity.literal)
  call := answer
  block _ := none

namespace Token

variable {s s' : Session} {t u v : Token} {answer : Nat → List Value → Option Value}

/-- A token of a program stands for one in which names are not resolved. -/
inductive StandsFor (s : Session) : Token → Token → Prop where
  | alike {t u : Token} (same : t.withoutCell = u.withoutCell) : StandsFor s t u
  | operator (symbol : Char) (order order' : Int) :
    StandsFor s (.operator symbol order) (.operator symbol order')
  | unit {cell : Option CellId} {name : String} {u : ValueUnit} (unassigned : s.value? name = none)
    (found : s.unit? name = some u) :
    StandsFor s (.unit (some (.literal u)) name) (.variable cell name)

/-- The results of the token are angles. -/
def returnsAngle : Token → Bool
  | .function name => (functionOf name).returnsAngle
  | .binaryFunction name => (binaryFunctionOf name).returnsAngle
  | _ => false

/-- A token that neither assigns nor draws a random number, and whose unit is no plain number. -/
def IsSteady (s : Session) : Token → Prop
  | .operator symbol _ => symbol ≠ '='
  | .function name => functionOf name ≠ .random
  | .unit value _ => ∀ x ∈ value, x.HasDimension
  | .variable _ name => s.value? name = none →
    ∀ u ∈ s.unit? name, (Quantity.literal u : Value).HasDimension
  | _ => True

theorem IsPure.isSteady (plain : t.IsPure s)
    (cells : ∀ cell name, t = .variable cell name → cell.bind s.assigned? = s.value? name) :
    t.IsSteady s := by
  cases t with
  | «variable» cell name =>
    intro unassigned
    exact plain.2 ((cells cell name rfl).trans unassigned)
  | operator | function | unit => exact plain
  | _ => trivial

theorem IsSteady.ordinary (steady : t.IsSteady s) : t.isAssignment = false := by
  cases t <;> simp_all [isAssignment, isOperator, IsSteady]

theorem IsSteady.drawsNothing (steady : t.IsSteady s) :
    ∀ name, t = .function name → functionOf name ≠ .random := by
  rintro name rfl
  exact steady

namespace StandsFor

theorem trans_alike (stands : StandsFor s t u) (same : u.withoutCell = v.withoutCell) :
    StandsFor s t v := by
  cases stands with
  | alike same' => exact .alike (same'.trans same)
  | operator symbol order order' =>
    rcases eq_or_variable same with rfl | ⟨cell, cell', name, token, -⟩
    · exact .operator symbol order order'
    · cases token
  | unit unassigned found =>
    rcases eq_or_variable same with rfl | ⟨cell, cell', name, token, rfl⟩
    · exact .unit unassigned found
    · cases token
      exact .unit unassigned found

theorem isSteady (stands : StandsFor s t u) (steady : t.IsSteady s) : u.IsSteady s := by
  cases stands with
  | alike same => exact (congr_withoutCell (f := IsSteady s) (fun _ _ _ => rfl) same) ▸ steady
  | operator => exact steady
  | @unit cell name u unassigned found =>
    intro _ v found'
    cases found.symm.trans found'
    exact steady _ rfl

theorem returnsAngle_eq (stands : StandsFor s t u) : t.returnsAngle = u.returnsAngle := by
  cases stands with
  | alike same => exact congr_withoutCell (fun _ _ _ => rfl) same
  | operator | unit => rfl

theorem push?_eq (stands : StandsFor s t u) (stack : List Value) :
    Postfix.push? (s.valueMeaning answer) stack t =
      Postfix.push? (s.valueMeaning answer) stack u := by
  cases stands with
  | alike same => exact congr_withoutCell (fun _ _ _ => rfl) same
  | operator => rfl
  | unit unassigned found => simp [Postfix.push?, Session.valueMeaning, unassigned, found]

end StandsFor

/-- Two sessions do the same for a token that draws no random number, if its results are no angles
or both attach the same unit to angles. -/
theorem agrees_of_settings (settings : s.settings = s'.settings)
    (angles : t.returnsAngle = true → s.returnAngles = s'.returnAngles)
    (drawsNothing : ∀ name, t = .function name → functionOf name ≠ .random) :
    t.Agrees s.calculator s'.calculator := by
  have alike := Session.calculator_alike settings
  cases t with
  | negation => exact alike.function (by decide) rfl
  | factorial => exact alike.function (by decide) rfl
  | operator => exact alike.operator _
  | multiFunction => exact alike.multiFunction _
  | function name =>
    intro x
    have plain := drawsNothing name rfl
    -- Only functions whose results are angles look at the setting for angles.
    cases angle : (functionOf name).returnsAngle with
    | false => exact alike.function plain angle x
    | true =>
      have drawn : s.calculator.kernel.function s.calculator.draw (functionOf name) =
          s'.calculator.kernel.function s'.calculator.draw (functionOf name) := by
        funext z
        rw [alike.drawsNothing _ plain, alike.kernel]
      have flag : s.calculator.returnAngles = s'.calculator.returnAngles := angles angle
      generalize functionOf name = f at drawn angle ⊢
      cases f with
      | asin | acos | atan | acsc | asec | acot | phase =>
        simp only [Calculator.function, Calculator.angleResult, drawn, alike.angle, flag]
      | _ => cases angle
  | binaryFunction name =>
    intro x y
    cases angle : (binaryFunctionOf name).returnsAngle with
    | false => exact alike.binaryFunction angle x y
    | true =>
      have flag : s.calculator.returnAngles = s'.calculator.returnAngles := angles angle
      generalize binaryFunctionOf name = f at angle ⊢
      cases f with
      | root => cases angle
      | atan2 =>
        simp only [Calculator.binaryFunction, Calculator.angleResult, alike.angle, flag]
  | _ => trivial

end Token

namespace Postfix

variable {s : Session} {program plain tokens stack : List Token} {t : Token}
  {answer : Nat → List Value → Option Value}

/-- Programs that stand for each other have the same value. -/
theorem value?_eq_of_standsFor (stand : Forall₂ (Token.StandsFor s) program plain) :
    value? (s.valueMeaning answer) program = value? (s.valueMeaning answer) plain := by
  -- Both programs push the same values, one after the other, onto any stack.
  have steps : ∀ stack, program.foldlM (push? (s.valueMeaning answer)) stack =
      plain.foldlM (push? (s.valueMeaning answer)) stack := by
    induction stand with
    | nil => exact fun _ => rfl
    | cons stands _ ih =>
      intro stack
      rw [List.foldlM_cons, List.foldlM_cons, stands.push?_eq]
      exact congrArg _ (funext ih)
  rw [value?, value?, steps]

end Postfix

end UnitCalc

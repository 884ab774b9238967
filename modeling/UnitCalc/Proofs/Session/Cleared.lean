/-
# Cleared sessions

A cleared session has no units, functions and blocks, and its names are the constants again. All
the rest stays: the settings, the flags, and what was prepared as input. One of the flags is not a
choice of the user. Whether results are returned with the unit of angles is read from a variable
whenever a statement is run. The variable is gone after clearing, and the flag stays until the next
statement is run. Statements do not notice it. A formula that is called first does.

## Main results

* `Session.clear_eq`: what clearing leaves as it is.
* `Session.value?_clear`: the variables of a cleared session are those of a new one.
* `Session.runStatement_returnAngles`: a statement does not depend on the flag that was left.
* `Session.clear_keeps_angles`: a formula does.
-/

import UnitCalc.Proofs.Session.Routes

namespace UnitCalc

open SessionM

namespace Session

variable {s s' s'' : Session}

/-- Without functions and blocks there is nobody to tell of an assignment. -/
theorem assign_of_nothing (nothing : s.dependents = []) (id : CellId) (value : Value) :
    s.assign id value = s.store id value := by
  have nobody : (s.store id value).affected (s.cell id).dependents = [] := by
    refine List.eq_nil_iff_forall_not_mem.2 fun d affected => ?_
    have known := Graph.reach_subset _ _ _ affected
    rw [(s.runsTo_store id value).dependents_eq, nothing] at known
    cases known
  rw [assign, forgetFrom_eq, nobody]
  rfl

/-- A session that differs in its variables only. -/
def SetsVariables (s s' : Session) : Prop :=
  s' = { s with cells := s'.cells, cellNames := s'.cellNames }

theorem SetsVariables.trans (first : s.SetsVariables s') (second : s'.SetsVariables s'') :
    s.SetsVariables s'' := by
  unfold SetsVariables at first second ⊢
  rw [second, first]

theorem SetsVariables.dependents_eq (sets : s.SetsVariables s') :
    s'.dependents = s.dependents := by
  rw [sets]
  rfl

theorem setsVariables_setValue (nothing : s.dependents = []) (name : String) (value : Value) :
    s.SetsVariables (s.setValue name value) := by
  have adds : s.SetsVariables (s.cellOf name).2 := (s.addsCells_cellOf name).same
  have nothing' := adds.dependents_eq.trans nothing
  have stored : s.setValue name value = (s.cellOf name).2.store (s.cellOf name).1 value :=
    assign_of_nothing nothing' _ value
  rw [stored]
  exact adds.trans rfl

theorem setsVariables_assignAll (nothing : s.dependents = []) (values : List (String × Value)) :
    s.SetsVariables (s.assignAll values) := by
  unfold assignAll
  induction values generalizing s with
  | nil => exact rfl
  | cons first values ih =>
    have sets := setsVariables_setValue nothing first.1 first.2
    exact sets.trans (ih (sets.dependents_eq.trans nothing))

/-! ## What is left -/

/-- Clearing a session sets its variables anew, and drops units, functions and blocks. -/
theorem clear_eq (s : Session) : s.clear = { s with
    cells := s.clear.cells, cellNames := s.clear.cellNames,
    units := [], functions := #[], functionNames := [], blocks := #[] } :=
  setsVariables_assignAll (s := { s with
    blocks := #[], functions := #[], functionNames := [], units := [], cellNames := [] }) rfl
    (constants s.settings.complex)

theorem nodup_constants (complex : Bool) : ((constants complex).map Prod.fst).Nodup := by
  cases complex <;> decide

/-- The variables of a cleared session are the constants. -/
theorem value?_clear (s : Session) (name : String) :
    s.clear.value? name = (constants s.settings.complex).lookup name := by
  have separates : SeparatesNames { s with
      blocks := #[], functions := #[], functionNames := [], units := [], cellNames := [] } :=
    ⟨nofun, nofun⟩
  have assigned := value?_assignAll separates (nodup_constants s.settings.complex) name
  exact assigned.trans Option.or_none

/-- So they are those of a new session. -/
theorem value?_clear_eq_start (s : Session) (g : StdGen) (name : String) :
    s.clear.value? name = (start s.settings g).value? name := by
  rw [value?_clear, start, value?_clear]

/-! ## The flag of angles -/

/-- A statement sets the flag before it reads it. -/
theorem runStatement_returnAngles (s : Session) (statement : Statement) (returnAngles : Bool) :
    (outcome (runStatement statement) { s with returnAngles }).1 =
      (outcome (runStatement statement) s).1 := by
  have program : outcome (runProgram statement.program statement.unit) { s with returnAngles } =
      outcome (runProgram statement.program statement.unit) s := rfl
  unfold runStatement
  rw [outcome_bind_ok (outcome_get _), outcome_bind_ok (outcome_get _)]
  by_cases enabled : (!s.isEnabled) = true
  · rw [if_pos enabled]
    rfl
  · rw [if_neg enabled]
    beta_reduce
    by_cases definition : statement.isDefinition = true
    · rw [if_pos definition]
      rfl
    · rw [if_neg definition]
      exact congrArg Prod.fst program

/-- A formula over an angle has its unit in a session that was cleared, and none in a new one. -/
theorem clear_keeps_angles : ∃ s : Session, s.Occurs ∧
    unitText? (s.clear.byFormula "asin(x)" ["x"] [.real 1]) = some "°" ∧
    unitText? ((start s.settings ⟨1, 1⟩).byFormula "asin(x)" ["x"] [.real 1]) = none := by
  let program : List Token := [.constant (some (.real 1)) "1"]
  let s := ((start {} ⟨1, 1⟩).after (.assign "ReturnAngleUnits" (.real 1))).after
    (.run ⟨program, none, none, "1"⟩)
  have occurs : s.Occurs := .request _ (.request _ (.start _ _))
  exact ⟨s, occurs, by decide +kernel, by decide +kernel⟩

end Session

end UnitCalc

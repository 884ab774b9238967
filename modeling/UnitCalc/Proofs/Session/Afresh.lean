/-
# Calls that are evaluated afresh

A function that keeps neither code nor results is evaluated afresh when it is called: its body is
compiled in the session of the call, with the units and under the settings that there are then. That
is so for every function behind a unit that was defined anew, and behind an assignment for those
that lead to the variable, also when the variable is a setting. What was resolved when the body was
read is not read again: a unit behind a number stays the one that its name stood for.

## Main definitions

* `SessionM.callAfresh`: a call whose body is compiled first.
* `Session.CallsAfresh`: a function is evaluated afresh when it is called next.

## Main results

* `Session.runStatement_definesUnit`: what the definition of a unit reaches.
* `Session.Occurs.callsAfresh_setValue`: what an assignment reaches, also one to a setting.
-/

import UnitCalc.Proofs.Session.Running
import UnitCalc.Proofs.Session.Values
import UnitCalc.Proofs.Session.Whole

namespace UnitCalc

open SessionM

/-- Evaluates a call, and compiles the body first. Code and result are kept. -/
def SessionM.callAfresh (calls : Calls) (index : Nat) (f : UserFunction) (args : List Value) :
    SessionM Value := do
  modify fun s => s.prepared index f args
  let code ← read fun s => Code.ofPostfix s.compilation f.body
  modify fun s => s.modifyFunction index fun f => { f with code := some code }
  let value ← code.run calls
  let result ← ofExcept (value.applyTarget f.unit)
  modify fun s => s.modifyFunction index fun f => f.keep args result
  return result

namespace Session

variable {s s' : Session} {i : Nat} {name : String} {value : Value}

/-- Whenever the function has a value or fails for some arguments, it does so afresh. -/
def CallsAfresh (s : Session) (i : Nat) : Prop :=
  ∀ f args, s.functions[i]? = some f → f.isCircular = false → s.isCancelled = false →
    args.length = f.arity → outcome (s.calls.function i args) s =
      outcome (callAfresh (.ofDepth (s.functions.size + s.blocks.size)) i f args) s

theorem KeepsNothing.callsAfresh (nothing : s.KeepsNothing (.function i)) : s.CallsAfresh i := by
  intro f args found closed going enough
  obtain ⟨noCode, noResult⟩ := nothing f found
  have missed : f.result? args = none := by
    simp [UserFunction.result?, noResult]
  have missing : functionCode i f = (do
      let code ← read fun s => Code.ofPostfix s.compilation f.body
      modify fun s => s.modifyFunction i fun f => { f with code := some code }
      return code) := by
    rw [functionCode, noCode]
  have called : s.calls.function =
      evaluateCall (.ofDepth (s.functions.size + s.blocks.size)) := rfl
  rw [called, outcome_evaluateCall_of_missed found closed going enough missed, missing, callAfresh,
    outcome_bind_ok (outcome_modify _ s)]
  simp only [bind_assoc, pure_bind]

/-! ## Units -/

/-- When the name was a unit of the session, no function keeps anything behind its definition. -/
theorem keepsNothing_defineUnit (defined : s.defineUnit name value = .ok s')
    (known : (s.units.lookup name).isSome = true) (i : Nat) : s'.KeepsNothing (.function i) := by
  obtain ⟨u, made, -, -⟩ := exists_of_defineUnit defined
  have told :
      s' = ({ s with units := (name, u) :: s.units } : Session).forgetFrom s.dependents := by
    unfold defineUnit at defined
    rw [made] at defined
    simpa [bind, Except.bind, pure, Except.pure, known] using defined.symm
  by_cases within : .function i ∈ s.dependents
  · rw [told]
    exact keepsNothing_forgetFrom (Graph.mem_reach_of_pending within within)
  · -- there is no such function
    intro f found
    have same := s.writes_evolves.defineUnit s s' name value .refl defined
    have absent : i < s.functions.size := by
      rw [← same.runsTo.functions_size]
      exact (Array.getElem?_eq_some_iff.1 found).1
    exact absurd (function_mem_dependents absent) within

/-- Units are never taken away while something is evaluated. -/
theorem through_units (s₀ : Session) : s₀.Through fun s => s₀.Evolves s ∧
    ∀ name, (s₀.units.lookup name).isSome = true → (s.units.lookup name).isSome = true where
  evolves _ holds := holds.1
  follows _ _ holds evolves units := ⟨holds.1.trans evolves, units ▸ holds.2⟩
  defineUnit s s' name value holds defined := by
    refine ⟨s₀.writes_evolves.defineUnit s s' name value holds.1 defined, fun other known => ?_⟩
    obtain ⟨u, -, units, -⟩ := exists_of_defineUnit defined
    rw [units, List.lookup_cons]
    split
    · rfl
    · exact holds.2 other known

variable {statement : Statement} {o : Outcome}

/-- A statement that defines a unit leaves the bodies of functions as they are. When the name was a
unit of the session before, all functions are evaluated afresh from then on. -/
theorem runStatement_definesUnit (defines : statement.target? = some (.unit none name))
    (ended : outcome (runStatement statement) s = (.ok o, s')) :
    (∃ u, unitOfValue name o.value = .ok u ∧ s'.unit? name = some u) ∧
      (∀ i, s'.definitionOf i = s.definitionOf i) ∧
      ((s.units.lookup name).isSome = true → ∀ i, s'.CallsAfresh i) := by
  have completes := s.through_units.completes ⟨.refl, fun _ => id⟩ statement
  rw [defines, ended] at completes
  cases completes with
  | @unit _ s₁ _ _ holds _ defined =>
    obtain ⟨u, made, units, -⟩ := exists_of_defineUnit defined
    have behind := s₁.writes_evolves.defineUnit s₁ s' name o.value .refl defined
    refine ⟨⟨u, made, ?_⟩, fun i => ?_, fun known i => ?_⟩
    · rw [unit?, units, List.lookup_cons_self]
    · exact (behind.runsTo.definitionOf_eq i).trans (holds.1.runsTo.definitionOf_eq i)
    · exact (keepsNothing_defineUnit defined (holds.2 name known) i).callsAfresh

/-- A function that was called with a unit, which is then defined anew. -/
theorem runStatement_definesUnit_again : ∃ (s s' : Session) (statement : Statement) (o : Outcome),
    s.Occurs ∧ ¬ s.KeepsNothing (.function 0) ∧ statement.target? = some (.unit none "€") ∧
      outcome (runStatement statement) s = (.ok o, s') ∧ s'.definitionOf 0 = s.definitionOf 0 ∧
      s'.CallsAfresh 0 := by
  let defining (x : Float) : Statement :=
    ⟨[.unit none "€", .constant (some (.real x)) "", .ofSymbol '='], none, none, ""⟩
  let call : Statement := ⟨[.constant (some (.real 1)) "1", .call (some 0) "f" 1], none, none, ""⟩
  let s := (((start {} ⟨1, 1⟩).after (.run (defining 2))).after (.read "f(x) = x*3€")).after
    (.run call)
  have occurs : s.Occurs := .request _ (.request _ (.request _ (.start _ _)))
  have kept : (s.functions[0]?.any fun f => f.results.length == 1) = true := by decide +kernel
  have known : (s.units.lookup "€").isSome = true := by decide +kernel
  have ends : (outcome (runStatement (defining 5)) s).1.toOption.isSome = true := by decide +kernel
  obtain ⟨o, value⟩ := Option.isSome_iff_exists.1 ends
  have ended : outcome (runStatement (defining 5)) s =
      (.ok o, (outcome (runStatement (defining 5)) s).2) := Prod.ext (ok_of_toOption value) rfl
  obtain ⟨-, bodies, afresh⟩ := runStatement_definesUnit rfl ended
  refine ⟨s, _, _, o, occurs, fun nothing => ?_, rfl, ended, bodies 0, afresh known 0⟩
  obtain ⟨f, found, one⟩ := (Option.any_eq_true _ _).1 kept
  rw [(nothing f found).2] at one
  cases one

/-! ## Variables -/

/-- A function that leads to a variable is evaluated afresh behind an assignment to it. When the
variable is a setting, the setting has changed by then. -/
theorem Occurs.callsAfresh_setValue (occurs : s.Occurs) {id : CellId}
    (named : s.cellNames.lookup name = some id) (value : Value)
    (reaches : s.Reaches (fun t => t.cell? = some id) (.function i)) :
    let s' := (s.setValue name value).settled
    s'.CallsAfresh i ∧ (∀ j, s'.definitionOf j = s.definitionOf j) ∧
      (name = "ReturnAngleUnits" → s'.calculator.returnAngles = (value.re != 0)) ∧
      (name = "Precision" → s'.precision = Scalar.clamp 1e-15 1e-2 value.re) := by
  intro s'
  have informed := occurs.informed
  have assigned : s.setValue name value = s.assign id value := by
    simp [setValue, cellOf, named]
  have nothing : (s.assign id value).KeepsNothing (.function i) :=
    informed.keepsNothing_assign ⟨name, named⟩ value reaches
  have read : s'.value? name = some value := by
    have value? := value?_setValue informed.toSeparatesNames name value name
    rwa [if_pos rfl] at value?
  refine ⟨?_, fun j => ?_, ?_, ?_⟩
  · have nothing' : s'.KeepsNothing (.function i) := by
      rw [← assigned] at nothing
      exact nothing
    exact nothing'.callsAfresh
  · have runs := (s.evolves_assign id value).runsTo
    rw [← assigned] at runs
    exact runs.definitionOf_eq j
  · rintro rfl
    have flag : s'.returnAngles = (s'.value? "ReturnAngleUnits").any fun q => q.re != 0 := rfl
    rw [calculator, flag, read]
    rfl
  · rintro rfl
    rw [precision, read]
    rfl

/-- A function that mentions the setting, and that was called before. -/
theorem callsAfresh_setValue_returnAngles : ∃ s : Session, s.Occurs ∧
    ¬ s.KeepsNothing (.function 0) ∧ s.calculator.returnAngles = false ∧
      let s' := (s.setValue "ReturnAngleUnits" (.real 1)).settled
      s'.CallsAfresh 0 ∧ s'.calculator.returnAngles = true := by
  let call : Statement := ⟨[.constant (some (.real 1)) "1", .call (some 0) "f" 1], none, none, ""⟩
  let s := (((start {} ⟨1, 1⟩).after (.assign "ReturnAngleUnits" (.real 0))).after
    (.read "f(x) = asin(x)+0*ReturnAngleUnits")).after (.run call)
  have occurs : s.Occurs := .request _ (.request _ (.request _ (.start _ _)))
  have kept : (s.functions[0]?.any fun f => f.results.length == 1) = true := by decide +kernel
  have settings : s.calculator.returnAngles = false := by decide +kernel
  have mentions : ((s.cellNames.lookup "ReturnAngleUnits").any fun id =>
      (s.tokensOf (.function 0)).any fun t => t.cell? == some id) = true := by decide +kernel
  obtain ⟨id, named, within⟩ := (Option.any_eq_true _ _).1 mentions
  obtain ⟨t, member, same⟩ := List.any_eq_true.1 within
  obtain ⟨afresh, -, angles, -⟩ :=
    occurs.callsAfresh_setValue named (.real 1) (.mention member (beq_iff_eq.1 same))
  refine ⟨s, occurs, fun nothing => ?_, settings, afresh, ?_⟩
  · obtain ⟨f, found, one⟩ := (Option.any_eq_true _ _).1 kept
    rw [(nothing f found).2] at one
    cases one
  · rw [angles rfl]
    decide +kernel

end Session

end UnitCalc

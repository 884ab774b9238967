/-
# All or nothing

A statement first computes its value and converts it, and then it assigns it. Nothing can fail any
more behind the assignment of a variable, and a unit is only added once it is known that the value
can be one. So a statement that fails leaves all variables and units as they were, and one that
succeeds changes only what is on the left of its sign. This needs that no block is entered, since
blocks leave the places of extreme values in variables.

## Main definitions

* `Statement.target?`: what a statement assigns to.
* `Session.Completes P`: how a run ends that stays among the sessions of `P` before its end.
* `Session.SameBut`, `Session.Assigned`: what is the same in two sessions, and what is assigned.
* `Session.EndsWhole`: a statement did all that it does, or nothing.

## Main results

* `Session.Completes.runStatement`: what evaluation stays in, statements stay in before they end.
* `Session.Becomes.allOrNothing`: evaluation is all or nothing.
-/

import UnitCalc.Proofs.Session.Untouched

namespace UnitCalc

open SessionM

/-- What a statement assigns to. A definition assigns nothing. -/
def Statement.target? (statement : Statement) : Option Token :=
  if statement.isDefinition then none else Postfix.assignee? statement.program

namespace Session

variable {P : Session → Prop} {s s' s₀ s₁ : Session} {i : Nat} {id : CellId}
  {target : Option Token} {calls : Calls} {callee : Entry → Prop} {program : List Token}
  {unit : Option ValueUnit} {statement : Statement}

/-- A run stays among the sessions of `P`, and then it fails, or it has a value. The value is
assigned to the target if there is one. -/
inductive Completes (P : Session → Prop) :
    Option Token → Except CalcError Outcome × Session → Prop where
  | fails {target : Option Token} {e : CalcError} {s : Session} (holds : P s) :
    Completes P target (.error e, s)
  | value {o : Outcome} {s : Session} (holds : P s) (replaced : o.replaced = none) :
    Completes P none (.ok o, s)
  | variable {o : Outcome} {s : Session} {id : CellId} {name : String}
    (holds : P s) (replaced : o.replaced = s.assigned? id) :
    Completes P (some (.variable (some id) name)) (.ok o, s.assign id o.value)
  | unit {o : Outcome} {s s' : Session} {name : String} (holds : P s)
    (replaced : o.replaced = none) (defined : s.defineUnit name o.value = .ok s') :
    Completes P (some (.unit none name)) (.ok o, s')

/-! ## Runs -/

/-- A program that assigns begins with what it assigns to, and ends in an assignment. -/
theorem exists_of_assignee? {t first : Token} {rest : List Token}
    (found : Postfix.assignee? (first :: rest) = some t) :
    t = first ∧ ∃ u ∈ rest, u.isAssignment = true := by
  cases rest with
  | nil => cases found
  | cons second rest =>
    have closes : (if (second :: rest).getLast?.any Token.isAssignment then some first else none) =
        some t → t = first ∧ ∃ u ∈ second :: rest, u.isAssignment = true := by
      intro found
      obtain ⟨ends, same⟩ := Option.ite_none_right_eq_some.1 found
      obtain ⟨u, last, sign⟩ := (Option.any_eq_true _ _).1 ends
      exact ⟨(Option.some.inj same).symm, u, List.mem_of_getLast? last, sign⟩
    simp only [Postfix.assignee?] at found
    split at found
    · exact closes found
    · exact closes found
    · cases found

namespace Completes

/-- A part of a run that stays in `P`. -/
theorem bind {α : Type} {x : SessionM α} {f : α → SessionM Outcome} (first : Matches P True x x)
    (second : ∀ a s, P s → Completes P target (outcome (f a) s)) (holds : P s) :
    Completes P target (outcome (x >>= f) s) := by
  obtain ⟨-, holds', -⟩ := first s holds
  rw [outcome_bind]
  cases ended : outcome x s with
  | mk r s' =>
    rw [ended] at holds'
    cases r with
    | error e => exact .fails holds'
    | ok a => exact second a s' holds'

theorem finish (m : Postfix.Machine) (holds : P s) :
    Completes P none (outcome (Postfix.finish unit m) s) := by
  unfold Postfix.finish
  split
  · next value _ =>
    exact bind (matches_applyTarget value unit) (fun _ _ holds' => .value holds' rfl) holds
  · exact .fails holds
  · exact .fails holds

theorem assign (target : Token) (m : Postfix.Machine) (value : Value) (holds : P s) :
    Completes P (some target) (outcome (Postfix.assign target m value) s) := by
  unfold Postfix.assign
  split
  · exact .variable holds rfl
  · next name =>
    unfold SessionM.defineUnit
    rw [bind_assoc, outcome_bind, outcome_read]
    cases defined : s.defineUnit name value with
    | error e => exact .fails holds
    | ok s' => exact .unit holds rfl defined
  · exact .fails holds

variable (stays : s₀.Stays P)

include stays

/-- The rest of a program stays in `P` before its end. -/
theorem runFrom (agree : calls.Match P True callee calls)
    (known : ∀ t ∈ program, ∀ e ∈ t.entry?, callee e)
    (closes : target.isSome = true → ∃ t ∈ program, t.isAssignment = true)
    (m : Postfix.Machine) (holds : P s) :
    Completes P target (outcome (Postfix.runFrom calls target unit m program) s) := by
  -- The induction is on the program. What is behind an assignment is not run.
  induction program generalizing m s with
  | nil =>
    cases target with
    | none => exact finish m holds
    | some t =>
      obtain ⟨u, within, -⟩ := closes rfl
      cases within
  | cons t rest ih =>
    rw [List.forall_mem_cons] at known
    unfold Postfix.runFrom
    by_cases assigns : t.isAssignment = true
    · rw [if_pos assigns]
      split
      · next target value _ _ =>
        exact bind (matches_applyTarget value unit)
          (fun value' _ holds' => assign target m value' holds') holds
      · exact .fails holds
      · exact .fails holds
    · rw [if_neg assigns]
      have closes' : target.isSome = true → ∃ t ∈ rest, t.isAssignment = true := by
        intro some
        obtain ⟨u, within, sign⟩ := closes some
        rcases List.mem_cons.1 within with rfl | within
        · exact absurd sign assigns
        · exact ⟨u, within, sign⟩
      have first := Postfix.matches_step (fun _ => stays.draws) agree m known.1 fun _ => trivial
      exact bind first (fun m' _ holds' => ih known.2 closes' m' holds') holds

theorem run (agree : calls.Match P True callee calls)
    (known : ∀ t ∈ program, ∀ e ∈ t.entry?, callee e) (holds : P s) :
    Completes P (Postfix.assignee? program) (outcome (Postfix.run calls program unit) s) := by
  unfold Postfix.run
  refine bind matches_checkCancelled (fun _ s' holds' => ?_) holds
  split
  · exact .fails holds'
  · next plain =>
    rw [plain]
    exact runFrom stays agree known (fun none => by cases none) {} holds'
  · next first rest target found =>
    rw [List.forall_mem_cons] at known
    rw [found]
    exact runFrom stays agree known.2 (fun _ => (exists_of_assignee? found).2) {} holds'

variable (agree : ∀ depth, (Calls.ofDepth depth).Match P True callee (.ofDepth depth))

include agree

theorem runProgram (known : ∀ t ∈ program, ∀ e ∈ t.entry?, callee e) (holds : P s) :
    Completes P (Postfix.assignee? program) (outcome (runProgram program unit) s) := by
  have settles : Matches P True updateReturnAngles updateReturnAngles :=
    .modify fun s holds => stays.quiet s _ holds (.other rfl rfl rfl rfl rfl) rfl rfl
  refine bind settles (fun _ s₁ holds₁ => ?_) holds
  rw [outcome_bind_ok (outcome_get s₁), outcome_tryCatch]
  have ran : Completes P (Postfix.assignee? program)
      (outcome (Postfix.run s₁.calls program unit) s₁) := run stays (agree _) known holds₁
  generalize outcome (Postfix.run s₁.calls program unit) s₁ = r at ran
  generalize Postfix.assignee? program = target at ran
  cases ran with
  | @fails _ e s₂ holds₂ =>
    -- a cancelled run takes the cancellation back
    by_cases interrupted : e = .interrupted
    · simp only [interrupted, if_true]
      exact .fails (stays.quiet s₂ _ holds₂ (.other rfl rfl rfl rfl rfl) rfl rfl)
    · simp only [interrupted, if_false]
      exact .fails holds₂
  | value holds₂ replaced => exact .value holds₂ replaced
  | «variable» holds₂ replaced => exact .variable holds₂ replaced
  | unit holds₂ replaced defined => exact .unit holds₂ replaced defined

/-- A statement stays in `P` before it ends. -/
theorem runStatement (known : ∀ t ∈ statement.program, ∀ e ∈ t.entry?, callee e) (holds : P s) :
    Completes P statement.target? (outcome (runStatement statement) s) := by
  unfold SessionM.runStatement Statement.target?
  rw [outcome_bind_ok (outcome_get s)]
  by_cases disabled : (!s.isEnabled) = true
  · rw [if_pos disabled]
    exact .fails holds
  rw [if_neg disabled]
  beta_reduce
  split
  · exact .value holds rfl
  · exact runProgram stays agree known holds

end Completes

/-- A statement runs code before it ends, whatever it enters. -/
theorem Through.completes {s₀ : Session} (through : s₀.Through P) (holds : P s)
    (statement : Statement) :
    Completes P statement.target? (outcome (runStatement statement) s) :=
  .runStatement through.stays
    (Calls.match_ofDepth through fun e _ => s₀.confined_all e.dependent)
    (fun _ _ _ _ => trivial) holds

theorem completes_evolves (s : Session) (statement : Statement) :
    Completes s.Evolves statement.target? (outcome (runStatement statement) s) :=
  s.through_evolves.completes .refl statement

/-! ## Assignments -/

/-- A unit is added in front of the others. -/
theorem exists_of_defineUnit {name : String} {value : Value}
    (defined : s.defineUnit name value = .ok s') :
    ∃ u, unitOfValue name value = .ok u ∧ s'.units = (name, u) :: s.units ∧
      ∀ id, s'.cell id = s.cell id := by
  unfold defineUnit at defined
  cases made : unitOfValue name value with
  | error e =>
    rw [made] at defined
    cases defined
  | ok u =>
    rw [made] at defined
    refine ⟨u, rfl, ?_⟩
    cases defined
    split
    · have after := afterCalls_forgetFrom { s with units := (name, u) :: s.units } s.dependents
      exact ⟨after.units, fun id => after.cells id fun none => none⟩
    · exact ⟨rfl, fun _ => rfl⟩

/-- Two sessions have the same functions. Apart from what `target` names, their variables have the
same values, if any, and their units are the same. -/
structure SameBut (target : Option Token) (s s' : Session) : Prop where
  cellNames : s'.cellNames = s.cellNames
  functionNames : s'.functionNames = s.functionNames
  definitions : ∀ i, s'.definitionOf i = s.definitionOf i
  cells : ∀ id, s.IsNamed id → (∀ name, target ≠ some (.variable (some id) name)) →
    s'.cell id = s.cell id
  units : ∀ name, target ≠ some (.unit none name) → s'.units.lookup name = s.units.lookup name

/-- What is assigned to holds the value of the outcome, or is the unit that the value defines. A
variable is replaced if it had a value. -/
def Assigned (s s' : Session) (o : Outcome) : Option Token → Prop
  | none => o.replaced = none
  | some (.variable (some id) _) =>
    s'.cell id = { s.cell id with value := o.value, isAssigned := true } ∧
      o.replaced = s.assigned? id
  | some (.unit none name) =>
    (∃ u, unitOfValue name o.value = .ok u ∧ s'.units.lookup name = some u) ∧ o.replaced = none
  | some _ => False

/-- A statement changes nothing, or only what it assigns its value to. -/
def EndsWhole (s : Session) (target : Option Token) : Except CalcError Outcome × Session → Prop
  | (.error _, s') => s.SameBut none s'
  | (.ok o, s') => s.SameBut target s' ∧ s.Assigned s' o target

/-- Evaluation that changes only what `target` names. -/
theorem SameBut.after (same : s.SameBut target s₁) (evolves : s₁.Evolves s')
    (cells : ∀ id, (∀ name, target ≠ some (.variable (some id) name)) → s'.cell id = s₁.cell id)
    (units : ∀ name, target ≠ some (.unit none name) →
      s'.units.lookup name = s₁.units.lookup name) : s.SameBut target s' where
  cellNames := evolves.runsTo.cellNames.trans same.cellNames
  functionNames := evolves.runsTo.functionNames.trans same.functionNames
  definitions i := (evolves.runsTo.definitionOf_eq i).trans (same.definitions i)
  cells id named other := (cells id other).trans (same.cells id named other)
  units name other := (units name other).trans (same.units name other)

section Ends

variable (isVariable : ∀ id, s.IsNamed id → s.IsVariable id)

include isVariable

theorem Untouched.sameBut (untouched : s.Untouched s') : s.SameBut target s' where
  cellNames := untouched.evolves.runsTo.cellNames
  functionNames := untouched.evolves.runsTo.functionNames
  definitions := untouched.evolves.runsTo.definitionOf_eq
  cells id named _ := untouched.cell id (isVariable id named)
  units name _ := by rw [untouched.units]

/-- A statement that touches nothing before its end does all or nothing. -/
theorem Completes.endsWhole {r : Except CalcError Outcome × Session}
    (completes : Completes s.Untouched target r)
    (assignable : ∀ id name, target = some (.variable (some id) name) → s.IsVariable id) :
    s.EndsWhole target r := by
  cases completes with
  | fails untouched => exact untouched.sameBut isVariable
  | value untouched replaced => exact ⟨untouched.sameBut isVariable, replaced⟩
  | @«variable» o s₁ id name untouched replaced =>
    have target := assignable id name rfl
    have after := s₁.afterCalls_assign id o.value
    have within : id < s₁.cells.size := by
      rw [untouched.evolves.runsTo.size]
      exact target.exists_
    refine ⟨(untouched.sameBut isVariable).after (s₁.evolves_assign id o.value)
      (fun id' other => after.cells id' fun here => other name (here ▸ rfl))
      (fun name' _ => by rw [after.units]), ?_, ?_⟩
    · rw [s₁.cell_assign within, untouched.cell id target]
    · rw [replaced, assigned?, assigned?, untouched.cell id target]
  | @unit o s₁ s' name untouched replaced defined =>
    obtain ⟨u, made, units, cells⟩ := exists_of_defineUnit defined
    refine ⟨(untouched.sameBut isVariable).after
      (s₁.writes_evolves.defineUnit s₁ s' name o.value .refl defined) (fun id _ => cells id)
      (fun name' other => ?_), ⟨u, made, ?_⟩, replaced⟩
    · have different : name' ≠ name := fun here => other (here ▸ rfl)
      rw [units, List.lookup_cons, beq_false_of_ne different]
    · rw [units, List.lookup_cons_self]

end Ends

/-! ## Statements that were read -/

theorem mem_of_target? {t : Token} (assigns : statement.target? = some t) :
    t ∈ statement.program := by
  unfold Statement.target? at assigns
  split at assigns
  · cases assigns
  · cases program : statement.program with
    | nil =>
      rw [program] at assigns
      cases assigns
    | cons first rest =>
      rw [program] at assigns
      rw [(exists_of_assignee? assigns).1]
      exact List.mem_cons_self

/-- A program without blocks whose functions enter no block. -/
theorem avoids_of_program
    (noBlock : ∀ t ∈ program, t.blockIndex? = none)
    (avoids : ∀ i name count, .call (some i) name count ∈ program → s.EntersNoBlock i) :
    ∀ t ∈ program, ∀ e ∈ t.entry?, s.Avoids e := by
  intro t within e enters
  cases t with
  | block index name => cases noBlock _ within
  | call index name count =>
    cases index with
    | none => cases enters
    | some i =>
      cases enters
      exact avoids i name count within
  | _ => cases enters

/-- Evaluation is all or nothing. A statement may be evaluated long after it was read, when the
session answered other requests. Unless it enters a block, it leaves functions, and all variables
and units but the one that it assigns to, as they were. It assigns to this one only if it ends with
a value, and just this value. -/
theorem Becomes.allOrNothing {settings : Settings} {g : StdGen} {text : String}
    (before : (Session.start settings g).Becomes s₁)
    (read : (outcome (parse text) s₁).1 = .ok statement)
    (later : (s₁.after (.read text)).Becomes s)
    (noBlock : ∀ t ∈ statement.program, t.blockIndex? = none)
    (avoids : ∀ i name count, .call (some i) name count ∈ statement.program →
      s.EntersNoBlock i) :
    s.EndsWhole statement.target? (outcome (runStatement statement) s) := by
  have started : (Session.start settings g).Informed := (replaced_clear _).informed
  have informed₁ := before.informed started
  have behind : (Session.start settings g).Becomes (s₁.after (.read text)) := .request _ before
  have informed₂ := behind.informed started
  have pure₂ := behind.hasPureFunctions started (hasPureFunctions_clear _)
  have informed := later.informed informed₂
  have pure := later.hasPureFunctions informed₂ pure₂
  have completes := Completes.runStatement (stays_untouched pure) (informed.match_untouched pure)
    (avoids_of_program noBlock avoids) (Untouched.refl s)
  refine completes.endsWhole (fun id => pure.isVariable informed.toSeparatesNames) ?_
  -- what is assigned to had a name when the statement was read
  intro id name assigns
  have named := ((informed₁.advances_parse text).2 statement read).2 _ (mem_of_target? assigns)
  have isVariable := pure₂.isVariable informed₂.toSeparatesNames ⟨name, named.cell id name rfl⟩
  exact later.isVariable informed₂ isVariable

/-- A function that refers to nothing enters no block. -/
theorem entersNoBlock_of_references (alone : s.references (.function i) = []) :
    s.EntersNoBlock i := by
  intro _ reaches
  cases reaches with
  | @mention _ t within isBlock =>
    have refers : t.reference?.isSome = true := by
      cases t with
      | block => rfl
      | _ => cases isBlock
    obtain ⟨e, refers⟩ := Option.isSome_iff_exists.1 refers
    have listed : e ∈ s.references (.function i) := List.mem_filterMap.2 ⟨t, within, refers⟩
    rw [alone] at listed
    cases listed
  | through refers =>
    rw [alone] at refers
    cases refers

/-- An assignment to a variable that it reads itself, through a function. -/
theorem allOrNothing_call : ∃ (s₁ s : Session) (statement : Statement) (id : CellId),
    (Session.start {} ⟨1, 1⟩).Becomes s₁ ∧
      (outcome (parse "x = f(2)") s₁).1 = .ok statement ∧
      (s₁.after (.read "x = f(2)")).Becomes s ∧
      (∀ t ∈ statement.program, t.blockIndex? = none) ∧
      (∀ i name count, .call (some i) name count ∈ statement.program → s.EntersNoBlock i) ∧
      statement.target?.bind Token.cell? = some id ∧ s.cellNames.lookup "x" = some id ∧
      (outcome (runStatement statement) s).1.isOk = true ∧
      s.EndsWhole statement.target? (outcome (runStatement statement) s) := by
  let s₁ := ((Session.start {} ⟨1, 1⟩).after (.assign "x" (.real 3))).after (.read "f(t) = t + x")
  let s := s₁.after (.read "x = f(2)")
  have before : (Session.start {} ⟨1, 1⟩).Becomes s₁ := .request _ (.request _ .start)
  have seen : (outcome (parse "x = f(2)") s₁).1.toOption.any (fun statement =>
      statement.program.all (fun t => t.reference?.all (· == .function 0)) &&
      statement.target?.bind Token.cell? == some 4 &&
      (outcome (runStatement statement) s).1.isOk) = true := by
    decide +kernel
  obtain ⟨statement, made, told⟩ := (Option.any_eq_true _ _).1 seen
  simp only [Bool.and_eq_true, List.all_eq_true, beq_iff_eq, Option.all_eq_true] at told
  obtain ⟨⟨refers, target⟩, ends⟩ := told
  have noBlock : ∀ t ∈ statement.program, t.blockIndex? = none := by
    intro t within
    cases t with
    | block j => cases refers _ within (.block j) rfl
    | _ => rfl
  have avoids : ∀ i name count, .call (some i) name count ∈ statement.program →
      s.EntersNoBlock i := by
    intro i name count within
    cases refers _ within (.function i) rfl
    exact entersNoBlock_of_references (by decide +kernel)
  have read := ok_of_toOption made
  have whole := before.allOrNothing read .start noBlock avoids
  exact ⟨s₁, s, statement, 4, before, read, .start, noBlock, avoids, target, by decide +kernel,
    ends, whole⟩

end Session

end UnitCalc

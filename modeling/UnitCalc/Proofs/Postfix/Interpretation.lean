/-
# Runs that follow a meaning

The interpreter runs a program on a stack of values of a bounded size. When every token that it
meets does in the session what it means, the run finds the value of the program, and the stack
holds the values of its parts meanwhile. Calls may change the session, as long as they leave alone
what the program reads.

## Main definitions

* `Meaning.Covers`: in the sessions of a run, a token does what it means.

## Main results

* `Postfix.run_means`: a run ends with the value of the program.
-/

import UnitCalc.Proofs.Postfix.Compilation
import UnitCalc.Session.Interpreter

namespace UnitCalc

open SessionM

/-- What a session reads for a name: the variable in a cell, or a unit. -/
def Session.read? (s : Session) (cell : Option CellId) (name : String) : Option Value :=
  (cell.bind s.assigned?).or ((s.unit? name).map Quantity.literal)

/-- In the sessions of a run a token neither assigns nor draws a random number, operations are those
of the meaning, and names, calls and blocks have no other value than they mean. -/
structure Meaning.Covers (m : Meaning) (calls : Calls) (J : Session → Prop) (t : Token) :
    Prop where
  ordinary : t.isAssignment = false
  drawsNothing : ∀ name, t = .function name → Token.functionOf name ≠ .random
  runs : ∀ s, J s → t.Agrees s.calculator m.calculator
  name : ∀ cell name, t = .variable cell name → ∀ s, J s → ∀ value,
    s.read? cell name = some value → m.name cell name = some value
  call : ∀ index name count args, t = .call (some index) name count →
    Keeps J (fun value => m.call index args = some value) (calls.function index args)
  block : ∀ index name, t = .block index name →
    Keeps J (fun value => m.block index = some value) (calls.block index)

theorem toOption_ok {α : Type} {r : Except CalcError α} {a : α} (ok : r = .ok a) :
    r.toOption = some a := by
  rw [ok]
  rfl

namespace Postfix

variable {calls : Calls} {J : Session → Prop} {m : Meaning} {t : Token} {machine : Machine}
  {stack : List Value} {value : Value}

theorem push_keeps {P : List Value → Prop} (holds : P (value :: stack)) :
    Keeps J (fun machine' => P machine'.stack) (machine.push stack value) := by
  unfold Machine.push
  split
  · exact .pure holds
  · exact .throw _

/-- The result of an operation is put on the stack. -/
theorem apply_keeps {r : Option Value} {x : SessionM Value}
    (applied : Keeps J (fun value => r = some value) x) :
    Keeps J (fun machine' => r.map (· :: stack) = some machine'.stack)
      (x >>= machine.push stack) :=
  applied.bind fun _ result => push_keeps (P := fun final => r.map (· :: stack) = some final)
    (congrArg (Option.map (· :: stack)) result)

theorem function_keeps {f : Function} {x : Value} (plain : f ≠ .random)
    (runs : ∀ s, J s → ∀ x : Value, s.calculator.function f x = m.calculator.function f x) :
    Keeps J (fun value => m.function f x = some value) (applyFunction f x) := by
  rw [Code.applyFunction_of_ne_random plain]
  refine .read fun s holds value applied => ?_
  rw [Meaning.function, if_neg plain]
  exact toOption_ok ((runs s holds x).symm.trans applied)

/-- What the interpreter reads for a name is what it means. -/
theorem readVariable_keeps {cell : Option CellId} {name : String}
    (covered : ∀ s, J s → ∀ value, s.read? cell name = some value → m.name cell name = some value) :
    Keeps J (fun r => m.name cell name = some r.1) (readVariable cell name) := by
  intro s holds
  have means := covered s holds
  unfold Session.read? at means
  unfold readVariable
  rw [outcome_bind_ok (outcome_get s)]
  -- A variable that has a value hides the unit of its name.
  cases assigned : cell.bind s.assigned? with
  | some x =>
    rw [assigned, Option.some_or] at means
    refine ⟨holds, fun r same => ?_⟩
    cases same
    exact means x rfl
  | none =>
    rw [assigned, Option.none_or] at means
    cases unit : s.unit? name with
    | none =>
      have refused : outcome (unitValue name) s = (.error (.undefinedName name), s) := by
        unfold unitValue
        rw [outcome_bind_ok (outcome_get s), unit]
        rfl
      rw [outcome_bind_error refused]
      exact ⟨holds, nofun⟩
    | some u =>
      have given : outcome (unitValue name) s = (.ok (.literal u), s) := by
        unfold unitValue
        rw [outcome_bind_ok (outcome_get s), unit]
        rfl
      rw [outcome_bind_ok given]
      refine ⟨holds, fun r same => ?_⟩
      cases same
      exact means _ (by rw [unit]; rfl)

/-- A step of the interpreter does what the meaning of the token says. -/
theorem step_means (covers : m.Covers calls J t) :
    Keeps J (fun machine' => push? m machine.stack t = some machine'.stack)
      (step calls machine t) := by
  obtain ⟨stack, readsVariable⟩ := machine
  have runs := covers.runs
  -- One case for each kind of token. An operation that lacks operands stops the run, so there
  -- is nothing to show for it.
  cases t with
  | constant value | unit value | input value =>
    cases value with
    | none => exact .throw _
    | some x => exact push_keeps (P := fun final => some (x :: stack) = some final) rfl
  | «variable» cell name =>
    refine (readVariable_keeps (covers.name cell name rfl)).bind fun r named => ?_
    exact push_keeps (P := fun final => (m.name cell name).map (· :: stack) = some final)
      (congrArg (Option.map (· :: stack)) named)
  | negation =>
    obtain _ | ⟨a, rest⟩ := stack
    · exact .throw _
    · exact apply_keeps (function_keeps (by decide) runs)
  | factorial =>
    obtain _ | ⟨a, rest⟩ := stack
    · exact .throw _
    · exact apply_keeps (function_keeps (by decide) runs)
  | function name =>
    obtain _ | ⟨a, rest⟩ := stack
    · exact .throw _
    · exact apply_keeps (function_keeps (covers.drawsNothing name rfl) runs)
  | operator symbol =>
    obtain _ | ⟨b, _ | ⟨a, rest⟩⟩ := stack
    · exact .throw _
    · exact .throw _
    · have other : (symbol == '=') = false := covers.ordinary
      refine apply_keeps (.read fun s holds value applied => ?_)
      rw [Meaning.operator, other]
      exact toOption_ok ((runs s holds a b).symm.trans applied)
  | binaryFunction name =>
    obtain _ | ⟨b, _ | ⟨a, rest⟩⟩ := stack
    · exact .throw _
    · exact .throw _
    · exact apply_keeps (.read fun s holds value applied =>
        toOption_ok ((runs s holds a b).symm.trans applied))
  | conditional =>
    obtain _ | ⟨whenFalse, _ | ⟨whenTrue, _ | ⟨condition, rest⟩⟩⟩ := stack
    · exact .throw _
    · exact .throw _
    · exact .throw _
    · exact push_keeps (P := fun final =>
        some ((if condition.isFalse then whenFalse else whenTrue) :: rest) = some final) rfl
  | multiFunction name count =>
    simp only [step, push?]
    split
    · exact apply_keeps (.read fun s holds value applied =>
        toOption_ok ((runs s holds _).symm.trans applied))
    · exact .throw _
  | call index name count =>
    cases index with
    | none => exact .throw _
    | some i =>
      simp only [step, push?]
      split
      · exact apply_keeps (covers.call i name count _ rfl)
      · exact .throw _
  | block index name => exact apply_keeps (covers.block index name rfl)
  | blank | openBracket | closeBracket | separator => exact .throw _

/-- What a run ends with: the value of the program, converted into the unit. -/
def Ends (unit : Option ValueUnit) (final : Option (List Value)) (result : Outcome) : Prop :=
  ∃ value, final = some [value] ∧ value.applyTarget unit = .ok result.value

/-- The rest of a program runs to its value. -/
theorem runFrom_means {program : List Token} (target : Option Token) (unit : Option ValueUnit)
    (covers : ∀ t ∈ program, m.Covers calls J t) :
    Keeps J (Ends unit (program.foldlM (push? m) machine.stack))
      (runFrom calls target unit machine program) := by
  -- The induction is on the rest of the program, for any stack that was reached so far.
  induction program generalizing machine with
  | nil =>
    rw [runFrom, finish]
    split
    · next value stack =>
      have converted : Keeps J (fun x => value.applyTarget unit = .ok x)
          (ofExcept (value.applyTarget unit) : SessionM Value) := by
        intro s holds
        rw [outcome_ofExcept]
        exact ⟨holds, fun x => id⟩
      exact converted.bind fun x same => .pure ⟨value, by rw [stack]; rfl, same⟩
    · exact .throw _
    · exact .throw _
  | cons t program ih =>
    rw [List.forall_mem_cons] at covers
    unfold runFrom
    rw [if_neg (by simp [covers.1.ordinary])]
    refine (step_means covers.1).bind fun between pushed => ?_
    -- What the token pushed is what the meaning pushes, so both go on from the same stack.
    have same : (t :: program).foldlM (push? m) machine.stack =
        program.foldlM (push? m) between.stack := by
      rw [List.foldlM_cons, pushed]
      rfl
    rw [same]
    exact ih covers.2

theorem assignee?_eq_none {program : List Token}
    (ordinary : ∀ t ∈ program, t.isAssignment = false) : assignee? program = none := by
  unfold assignee?
  split
  · rfl
  · rfl
  · next t rest _ =>
    have other : rest.getLast?.any Token.isAssignment = false := by
      cases last : rest.getLast? with
      | none => rfl
      | some u => exact ordinary u (List.mem_cons_of_mem t (List.mem_of_getLast? last))
    split <;> simp [other]

/-- A run ends with the value of the program. -/
theorem run_means {program : List Token} (unit : Option ValueUnit)
    (covers : ∀ t ∈ program, m.Covers calls J t) :
    Keeps J (fun result => ∃ value, value? m program = some value ∧
      value.applyTarget unit = .ok result.value) (run calls program unit) := by
  have going : Keeps J (fun _ => True) checkCancelled := by
    intro s holds
    unfold checkCancelled
    rw [outcome_bind_ok (outcome_get s)]
    split <;> exact ⟨holds, fun _ _ => trivial⟩
  unfold run
  refine going.bind fun _ _ => ?_
  -- Without an assignment there is no variable that the result is stored in.
  rw [assignee?_eq_none fun t within => (covers t within).ordinary]
  cases program with
  | nil => exact .throw _
  | cons t rest =>
    intro s holds
    obtain ⟨kept, ends⟩ := runFrom_means none unit covers s holds
    refine ⟨kept, fun result same => ?_⟩
    obtain ⟨value, valued, converted⟩ := ends result same
    exact ⟨value, value?_eq_some_iff.2 valued, converted⟩

end Postfix

end UnitCalc

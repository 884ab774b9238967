/-
# Answers of custom functions

A program may call custom functions, which change the session: they set their parameters and keep
results and code. As far as the program can tell this does not matter, if the answers depend on the
arguments only and what the program reads stays. Then the program has the same value in every
session that serves its tokens alike, whether it is interpreted or compiled.

## Main definitions

* `Session.Answers`: the functions that a program calls have answers that depend on arguments only.
* `Session.Serves`: a session serves a token as another one does by name.

## Main results

* `Session.AnswersIn.value_of_run`, `Session.AnswersIn.yields`: what a program and its code end
  with.
-/

import UnitCalc.Proofs.Postfix.Resolution

namespace UnitCalc

open SessionM

namespace Session

variable {s s₀ : Session} {program : List Token} {answer : Nat → List Value → Option Value}
  {J : Session → Prop} {t : Token} {c : Compilation} {d : Nat} {v : Value}

/-- From a session on, calls that a program makes have answers that depend on their arguments only,
and lead through sessions of `J`, in which what the program reads is as before. -/
structure AnswersIn (s : Session) (program : List Token) (answer : Nat → List Value → Option Value)
    (J : Session → Prop) : Prop where
  start : J s
  settings : ∀ s', J s' → s'.settings = s.settings
  units : ∀ s', J s' → s'.units = s.units
  returnAngles : ∀ s', J s' → s'.returnAngles = s.returnAngles
  reads : ∀ s', J s' → ∀ id name, .variable (some id) name ∈ program →
    s'.assigned? id = s.assigned? id
  answers : ∀ s', J s' → ∀ index name count, .call (some index) name count ∈ program →
    ∀ d, s.dependents.length ≤ d → ∀ args,
      (outcome ((Calls.ofDepth d).function index args) s').1.toOption = answer index args ∧
        J (outcome ((Calls.ofDepth d).function index args) s').2

/-- The custom functions that a program calls have answers that depend on their arguments only, and
change nothing that the program reads. -/
def Answers (s : Session) (program : List Token) (answer : Nat → List Value → Option Value) :
    Prop :=
  ∃ J, s.AnswersIn program answer J

/-- A token reads a cell in a session, and another one has that value by name. The sessions do the
same for the token otherwise, which is no block. -/
structure Serves (s s₀ : Session) (t : Token) : Prop where
  settings : s.settings = s₀.settings
  units : s.units = s₀.units
  angles : t.returnsAngle = true → s.returnAngles = s₀.returnAngles
  cell : ∀ cell name, t = .variable cell name →
    ∃ id, cell = some id ∧ s.assigned? id = s₀.value? name
  noBlock : t.blockIndex? = none

theorem unit?_of_units (units : s.units = s₀.units) : s.unit? = s₀.unit? := by
  funext name
  rw [unit?, unit?, units]

namespace AnswersIn

variable (answers : s.AnswersIn program answer J)

include answers

/-- A token of the program does in these sessions what it means by name. -/
theorem covers (within : t ∈ program) (depth : s.dependents.length ≤ d) (serves : s.Serves s₀ t)
    (steady : t.IsSteady s₀) : (s₀.valueMeaning answer).Covers (.ofDepth d) J t where
  ordinary := steady.ordinary
  drawsNothing := steady.drawsNothing
  runs s' holds := Token.agrees_of_settings ((answers.settings s' holds).trans serves.settings)
    (fun angle => (answers.returnAngles s' holds).trans (serves.angles angle)) steady.drawsNothing
  name cell name token s' holds value found := by
    obtain ⟨id, rfl, same⟩ := serves.cell cell name token
    subst token
    rw [read?, Option.bind_some, answers.reads s' holds id name within, same,
      unit?_of_units ((answers.units s' holds).trans serves.units)] at found
    exact found
  call index name count args token s' holds := by
    subst token
    obtain ⟨answered, kept⟩ := answers.answers s' holds index name count within d depth args
    exact ⟨kept, fun value same => answered.symm.trans (toOption_ok same)⟩
  block index name token := by
    subst token
    cases serves.noBlock

/-- Compilation in a session with the same operations and variables resolves a token of the program
to what it means by name. -/
theorem fits (within : t ∈ program) (depth : s.dependents.length ≤ d) (serves : s.Serves s₀ t)
    (steady : t.IsSteady s₀) (calculator : c.calculator = s.calculator) (unit : c.unit? = s.unit?)
    (assigned : ∀ id name, t = .variable (some id) name → c.isAssigned id = s.isAssigned id) :
    c.Fits (s₀.valueMeaning answer) (.ofDepth d) J t where
  folds := calculator ▸ (answers.covers within depth serves steady).runs s answers.start
  runs := (answers.covers within depth serves steady).runs
  unit value name token := by
    subst token
    exact Quantity.collapsed_of_hasDimension (steady value rfl)
  name cell name value token named := by
    obtain ⟨id, rfl, same⟩ := serves.cell cell name token
    have isAssigned := assigned id name token
    subst token
    rw [isAssigned_eq_isSome, same] at isAssigned
    simp only [valueMeaning] at named
    -- A name with a value is read from its cell, any other name is a unit.
    cases known : s₀.value? name with
    | some x =>
      rw [known, Option.some_or] at named
      obtain rfl := Option.some.inj named
      refine Code.means_assigned (by rw [isAssigned, known]; rfl) fun s' holds => ?_
      rw [answers.reads s' holds id name within, same, known]
    | none =>
      rw [known, Option.none_or, Option.map_eq_some_iff] at named
      obtain ⟨u, found, rfl⟩ := named
      refine Code.means_unit (by rw [isAssigned, known]; rfl) ?_ (steady known u found)
      rw [unit, unit?_of_units serves.units, found]
  call index name count args value token called s' holds := by
    subst token
    obtain ⟨answered, kept⟩ := answers.answers s' holds index name count within d depth args
    exact ⟨_, Prod.ext (ok_of_toOption (answered.trans called)) rfl, kept⟩
  block index name value token := by
    subst token
    cases serves.noBlock

/-- The interpreter ends with the value of the program. -/
theorem value_of_run {unit : Option ValueUnit} {result : Outcome} {s' : Session}
    (depth : s.dependents.length ≤ d) (serves : ∀ t ∈ program, s.Serves s₀ t)
    (steady : ∀ t ∈ program, t.IsSteady s₀)
    (ended : outcome (Postfix.run (.ofDepth d) program unit) s = (.ok result, s')) :
    ∃ v, Postfix.value? (s₀.valueMeaning answer) program = some v ∧
      v.applyTarget unit = .ok result.value := by
  -- Every token of the program is covered, so the run follows the meaning.
  have means := Postfix.run_means unit
    (fun t within => answers.covers within depth (serves t within) (steady t within)) s
    answers.start
  rw [ended] at means
  exact means.2 result rfl

/-- So does the code of the program. -/
theorem yields {code : Code} (depth : s.dependents.length ≤ d)
    (serves : ∀ t ∈ program, s.Serves s₀ t) (steady : ∀ t ∈ program, t.IsSteady s₀)
    (calculator : c.calculator = s.calculator) (unit : c.unit? = s.unit?)
    (assigned : ∀ id name, .variable (some id) name ∈ program → c.isAssigned id = s.isAssigned id)
    (valued : Postfix.value? (s₀.valueMeaning answer) program = some v)
    (compiled : Code.ofPostfix c program = .ok code) :
    ∃ s', outcome (code.run (.ofDepth d)) s = (.ok v, s') := by
  obtain ⟨code', compiled', means⟩ := Code.exists_means (fun t within =>
    answers.fits within depth (serves t within) (steady t within) calculator unit
      fun id name token => assigned id name (token ▸ within)) valued
  cases compiled.symm.trans compiled'
  obtain ⟨s', ended, -⟩ := means.yields s answers.start
  exact ⟨s', ended⟩

end AnswersIn

end Session

end UnitCalc

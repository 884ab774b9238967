/-
# Programs after a reset

A program that names statements and formulas by their places among those that it read and compiled
itself is answered after a reset as in a new session. The cells of the old session stay in front,
where nothing refers to them, and one flag stays, whether results are returned with the unit of
angles. A statement sets it from a variable before it reads it, so that only formulas notice it.
What these answer is what they answer in a new session with the same flag.

## Main definitions

* `Session.anew`: the new session that a session is compared to after a reset.
* `Program.Step`: a step of a program. `Program.Desk.answers` are the answers to all of its steps.

## Main results

* `Session.clear_eq_anew`: a session that was cleared is a new one behind dead cells.
* `Program.Desk.step_behind`: a step behind dead cells, with another flag.
* `Program.Desk.answers_clear`: programs after a reset.
* `Shell.transcript_clear`: lines after a reset.
-/

import UnitCalc.Proofs.Session.Cleared
import UnitCalc.Proofs.Session.Relocated
import UnitCalc.Shell

namespace UnitCalc

open SessionM
open Token (withoutCell)

namespace Session

variable (s : Session)

/-- The new session that a session is compared to after a reset: it has the same settings, the same
source of random numbers and prepared input, and the same choices of the user. -/
def anew : Session :=
  { start s.settings s.random.generator with
    random := s.random
    input := s.input
    isEnabled := s.isEnabled
    isCancelled := s.isCancelled
    isPlotting := s.isPlotting }

/-- A session with the variables, units, functions and blocks of another. -/
def adopting (t : Session) : Session :=
  { s with
    cells := t.cells, cellNames := t.cellNames, units := t.units, functions := t.functions
    functionNames := t.functionNames, blocks := t.blocks }

theorem forgetFrom_adopting (t : Session) (changed : List Dependent) :
    (s.adopting t).forgetFrom changed = s.adopting (t.forgetFrom changed) := by
  rw [forgetFrom_eq, forgetFrom_eq]
  exact List.foldl_hom s.adopting fun t d => by cases d <;> rfl

theorem setValue_adopting (t : Session) (name : String) (value : Value) :
    (s.adopting t).setValue name value = s.adopting (t.setValue name value) := by
  have cell : (s.adopting t).cellOf name = ((t.cellOf name).1, s.adopting (t.cellOf name).2) := by
    have names : (s.adopting t).cellNames = t.cellNames := rfl
    rw [cellOf, cellOf, names]
    cases t.cellNames.lookup name <;> rfl
  rw [setValue, setValue, cell]
  exact s.forgetFrom_adopting ((t.cellOf name).2.store (t.cellOf name).1 value) _

/-- Without cells clearing makes a new session, apart from what it leaves as it is. -/
theorem clear_eq_adopting :
    clear { s with cells := #[] } = s.adopting (start s.settings s.random.generator) := by
  let empty : Session := { settings := s.settings, random := .ofGenerator s.random.generator }
  have bare : ({ s with
      cells := #[], cellNames := [], units := [], functions := #[], functionNames := [],
      blocks := #[] } : Session) = s.adopting empty := rfl
  unfold start clear
  dsimp only
  rw [bare]
  exact List.foldl_hom s.adopting fun t (name, value) => s.setValue_adopting t name value

/-- A session with another flag of angles. -/
def withAngles (returnAngles : Bool) : Session :=
  { s with returnAngles }

theorem withAngles_behind (dead : Array Cell) (returnAngles : Bool) :
    (s.withAngles returnAngles).behind dead none = s.behind dead (some returnAngles) := rfl

/-- The flag of a new session is not set. -/
theorem anew_withAngles_false : s.anew.withAngles false = s.anew := by
  have flag : s.anew.returnAngles = false := by
    rw [anew, start, clear_eq]
  rw [withAngles, ← flag]

/-- What was cleared is a new session behind the cells of the old one, with its flag of angles. -/
theorem clear_eq_anew (between : s.blockDepth = 0) :
    s.clear = (s.anew.withAngles s.returnAngles).behind s.cells none := by
  have settings : (start s.settings s.random.generator).settings = s.settings := by
    rw [start, clear_eq]
  have depth : (start s.settings s.random.generator).blockDepth = 0 := by
    rw [start, clear_eq]
  rw [clear_eq_behind, clear_eq_adopting]
  simp only [adopting, anew, withAngles, settings, depth, between]

/-- A program is shown in the same way. -/
theorem render_behind (dead : Array Cell) (angles : Option Bool) (program : List Token) :
    (s.behind dead angles).render (program.map (Token.raised dead.size)) = s.render program := by
  have texts : (fun index : Nat => (s.behind dead angles).blocks[index]?.map Block.text) =
      fun index => s.blocks[index]?.map Block.text := by
    funext index
    rw [getElem?_blocks_behind, Option.map_map]
    exact congrArg (Option.map · _) (funext (Block.text_raised dead.size))
  rw [render, render, texts]
  exact Postfix.textWith_mapCell _ _ _

end Session

namespace SessionM

variable {α β : Type} {dead : Array Cell} {angles : Option Bool}

/-- Behind dead cells `y` does what `x` does elsewhere. When the flag of angles is another one, it
may be so behind them too. -/
def Resembles (dead : Array Cell) (angles : Option Bool) (raise : α → β) (x : SessionM α)
    (y : SessionM β) : Prop :=
  ∀ s, ∃ angles' : Option Bool, (angles = none → angles' = none) ∧
    outcome y (s.behind dead angles) =
      ((outcome x s).1.map raise, (outcome x s).2.behind dead angles')

theorem Relocates.resembles {raise : α → β} {x : SessionM α} {y : SessionM β}
    (relocates : Relocates dead angles raise x y) : Resembles dead angles raise x y :=
  fun s => ⟨angles, id, relocates.outcome_eq s⟩

theorem Relocates.bind_resembles {γ δ : Type} {raise : α → β} {raise' : γ → δ} {x : SessionM α}
    {y : SessionM β} {f : α → SessionM γ} {g : β → SessionM δ}
    (first : Relocates dead angles raise x y)
    (second : ∀ a, Resembles dead angles raise' (f a) (g (raise a))) :
    Resembles dead angles raise' (x >>= f) (y >>= g) := by
  intro s
  have ended := first.outcome_eq s
  rw [outcome_bind, outcome_bind, ended]
  cases outcome x s with
  | mk r s' =>
    cases r with
    | ok a => exact second a s'
    | error e => exact ⟨angles, id, rfl⟩

theorem Resembles.bind {γ δ : Type} {raise : α → β} {raise' : γ → δ} {x : SessionM α}
    {y : SessionM β} {f : α → SessionM γ} {g : β → SessionM δ}
    (first : Resembles dead angles raise x y)
    (second : ∀ a (angles : Option Bool), Relocates dead angles raise' (f a) (g (raise a))) :
    Resembles dead angles raise' (x >>= f) (y >>= g) := by
  intro s
  obtain ⟨angles', agrees, ended⟩ := first s
  refine ⟨angles', agrees, ?_⟩
  rw [outcome_bind, outcome_bind, ended]
  cases outcome x s with
  | mk r s' =>
    cases r with
    | ok a => exact (second a angles').outcome_eq s'
    | error e => rfl

theorem Resembles.get_bind {raise : α → β} {f : Session → SessionM α} {g : Session → SessionM β}
    (next : ∀ s, Resembles dead angles raise (f s) (g (s.behind dead angles))) :
    Resembles dead angles raise (get >>= f) (get >>= g) :=
  fun s => next s s

theorem Resembles.ite {raise : α → β} {x x' : SessionM α} {y y' : SessionM β} {c : Prop}
    [Decidable c] (first : Resembles dead angles raise x y)
    (second : Resembles dead angles raise x' y') :
    Resembles dead angles raise (if c then x else x') (if c then y else y') := by
  split
  · exact first
  · exact second

theorem Resembles.guard {raise : α → β} {c : Prop} [Decidable c] {e : CalcError}
    {k : PUnit → SessionM α} {k' : PUnit → SessionM β}
    (behind : Resembles dead angles raise (k ⟨⟩) (k' ⟨⟩)) :
    Resembles dead angles raise (if c then MonadExcept.throw e >>= k else k ⟨⟩)
      (if c then MonadExcept.throw e >>= k' else k' ⟨⟩) :=
  have stops : Relocates dead angles id (MonadExcept.throw e : SessionM PUnit)
      (MonadExcept.throw e) := .throw e
  ite (stops.bind_resembles fun _ => behind) behind

/-- A statement sets the flag before it reads it. -/
theorem resembles_runStatement (statement : Statement) :
    Resembles dead angles id (runStatement statement)
      (runStatement (statement.raised dead.size)) := by
  refine .get_bind fun s => .guard (.ite (Relocates.pure _).resembles ?_)
  -- What runs the program begins with the flag.
  exact fun s => ⟨none, fun _ => rfl,
    (relocates_runProgram statement.program statement.unit).outcome_eq s⟩

end SessionM

/-- A statement is shown in the same way. -/
theorem Statement.text_raised (n : Nat) (statement : Statement) :
    (statement.raised n).text = statement.text := by
  have program : Postfix.infixText (statement.raised n).program =
      Postfix.infixText statement.program := Postfix.textWith_mapCell _ _ _
  rw [text, text, program]
  rfl

/-! ## Programs -/

namespace Program

/-- A step of a program. Statements and formulas are named by their places among those that the
program read and compiled itself. -/
inductive Step where
  | read (text : String)
  | run (place : Nat)
  | evaluate (text : String)
  | assign (name : String) (value : Value)
  | lookUp (name : String)
  | compile (text : String) (names : List String)
  | call (place : Nat) (args : List Value)
  | clear

/-- The step compiles or calls a formula. -/
def Step.isFormal : Step → Bool
  | .compile .. | .call .. => true
  | _ => false

/-- The answer to a step. A statement is shown with its blocks in full, and without the places of
its cells. -/
inductive Answer where
  | done
  | missing
  | refused (e : CalcError)
  | statement (statement : Statement) (text : String)
  | outcome (outcome : Outcome)
  | variable (value : Option Value)
  | formula (arity : Nat)
  | value (value : Value)

/-- A session, and the statements and formulas that a program read and compiled in it. -/
structure Desk where
  session : Session
  statements : List Statement := []
  formulas : List Formula := []

namespace Desk

variable {α : Type}

/-- Does a computation in the session, and goes on with its value. -/
def perform (d : Desk) (x : SessionM α) (next : α → Desk → Answer × Desk) : Answer × Desk :=
  match outcome x d.session with
  | (.ok a, s) => next a { d with session := s }
  | (.error e, s) => (.refused e, { d with session := s })

/-- Keeps a statement that was read. -/
def keepStatement (statement : Statement) (d : Desk) : Answer × Desk :=
  (.statement { statement with program := statement.program.map withoutCell }
    (d.session.render statement.program),
    { d with statements := d.statements ++ [statement] })

/-- Keeps a formula that was compiled. -/
def keepFormula (e : Formula) (d : Desk) : Answer × Desk :=
  (.formula e.parameters.length, { d with formulas := d.formulas ++ [e] })

/-- Changes the session. -/
def change (d : Desk) (f : Session → Session) : Answer × Desk :=
  (.done, { d with session := f d.session })

/-- The answer to a step, and the desk behind it. -/
def step (d : Desk) : Step → Answer × Desk
  | .read text => d.perform (parse text) keepStatement
  | .run place =>
    match d.statements[place]? with
    | some statement => d.perform (runStatement statement) fun o d => (.outcome o, d)
    | none => (.missing, d)
  | .evaluate text => d.perform (SessionM.evaluate text) fun o d => (.outcome o, d)
  | .assign name value => d.change fun s => s.setValue name value
  | .lookUp name => (.variable (d.session.value? name), d)
  | .compile text names => d.perform (SessionM.compile text names) keepFormula
  | .call place args =>
    match d.formulas[place]? with
    | some e => d.perform (e.call args) fun value d => (.value value, d)
    | none => (.missing, d)
  | .clear => d.change Session.clear

/-- The answers to the steps of a program. -/
def answers (d : Desk) : List Step → List Answer
  | [] => []
  | t :: rest => (d.step t).1 :: (d.step t).2.answers rest

/-- A desk behind dead cells. -/
def behind (dead : Array Cell) (angles : Option Bool) (d : Desk) : Desk where
  session := d.session.behind dead angles
  statements := d.statements.map (Statement.raised dead.size)
  formulas := d.formulas.map (Formula.raised dead.size)

section

variable {β : Type} {dead : Array Cell} {angles : Option Bool}

theorem perform_behind {raise : α → β} {x : SessionM α} {y : SessionM β}
    {next : α → Desk → Answer × Desk} {next' : β → Desk → Answer × Desk}
    (resembles : Resembles dead angles raise x y)
    (goes : ∀ a d (angles : Option Bool), next' (raise a) (d.behind dead angles) =
      ((next a d).1, (next a d).2.behind dead angles)) (d : Desk) :
    ∃ angles' : Option Bool, (angles = none → angles' = none) ∧
      (d.behind dead angles).perform y next' =
        ((d.perform x next).1, (d.perform x next).2.behind dead angles') := by
  obtain ⟨angles', agrees, ended⟩ := resembles d.session
  refine ⟨angles', agrees, ?_⟩
  have session : (d.behind dead angles).session = d.session.behind dead angles := rfl
  rw [perform, perform, session, ended]
  cases outcome x d.session with
  | mk r s =>
    cases r with
    | ok a => exact goes a { d with session := s } angles'
    | error e => rfl

theorem keepStatement_behind (statement : Statement) (d : Desk) (angles : Option Bool) :
    keepStatement (statement.raised dead.size) (d.behind dead angles) =
      ((keepStatement statement d).1, (keepStatement statement d).2.behind dead angles) := by
  have cells : (statement.program.map (Token.raised dead.size)).map withoutCell =
      statement.program.map withoutCell := by
    rw [List.map_map]
    exact congrArg (statement.program.map ·) (funext (Token.withoutCell_mapCell _))
  have text := d.session.render_behind dead angles statement.program
  simp only [keepStatement, Statement.raised, behind, cells, text, List.map_append, List.map_cons,
    List.map_nil]

theorem keepFormula_behind (e : Formula) (d : Desk) (angles : Option Bool) :
    keepFormula (e.raised dead.size) (d.behind dead angles) =
      ((keepFormula e d).1, (keepFormula e d).2.behind dead angles) := by
  simp only [keepFormula, Formula.raised, behind, List.length_map, List.map_append, List.map_cons,
    List.map_nil]

theorem change_behind (d : Desk) (f : Session → Session)
    (same : ∀ s : Session, f (s.behind dead angles) = (f s).behind dead angles) :
    (d.behind dead angles).change f = ((d.change f).1, (d.change f).2.behind dead angles) := by
  simp only [change, behind, same]

/-- A step behind dead cells has the same answer, unless it is about a formula and the flag of
angles is another one. -/
theorem step_behind (d : Desk) (t : Step) (suits : t.isFormal = true → angles = none) :
    ∃ angles' : Option Bool, (angles = none → angles' = none) ∧
      (d.behind dead angles).step t = ((d.step t).1, (d.step t).2.behind dead angles') := by
  cases t with
  | read text => exact perform_behind (relocates_parse text).resembles keepStatement_behind d
  | run place =>
    have same : (d.behind dead angles).statements[place]? =
        d.statements[place]?.map (Statement.raised dead.size) := List.getElem?_map
    rw [step, step, same]
    cases d.statements[place]? with
    | none => exact ⟨angles, id, rfl⟩
    | some statement =>
      exact perform_behind (resembles_runStatement statement) (fun _ _ _ => rfl) d
  | evaluate text =>
    have resembles : Resembles dead angles id (SessionM.evaluate text) (SessionM.evaluate text) :=
      (relocates_parse text).bind_resembles resembles_runStatement
    exact perform_behind resembles (fun _ _ _ => rfl) d
  | assign name value =>
    refine ⟨angles, id, d.change_behind (fun s => s.setValue name value) fun s => ?_⟩
    exact s.setValue_behind dead angles name value
  | lookUp name =>
    have value : (d.behind dead angles).session.value? name = d.session.value? name :=
      d.session.value?_behind dead angles name
    refine ⟨angles, id, ?_⟩
    simp only [step, value]
  | compile text names =>
    cases suits rfl
    exact perform_behind (relocates_compile text names).resembles keepFormula_behind d
  | call place args =>
    cases suits rfl
    have same : (d.behind dead none).formulas[place]? =
        d.formulas[place]?.map (Formula.raised dead.size) := List.getElem?_map
    rw [step, step, same]
    cases d.formulas[place]? with
    | none => exact ⟨none, id, rfl⟩
    | some e => exact perform_behind (e.relocates_call args).resembles (fun _ _ _ => rfl) d
  | clear => exact ⟨angles, id, d.change_behind Session.clear fun s => s.clear_behind dead angles⟩

/-- So a program has the same answers. -/
theorem answers_behind (d : Desk) (program : List Step)
    (suits : ∀ t ∈ program, t.isFormal = true → angles = none) :
    (d.behind dead angles).answers program = d.answers program := by
  induction program generalizing d angles with
  | nil => rfl
  | cons t rest ih =>
    obtain ⟨angles', agrees, stepped⟩ := step_behind d t (suits t List.mem_cons_self)
    rw [answers, answers, stepped]
    refine congrArg ((d.step t).1 :: ·) (ih _ fun u later formal => ?_)
    exact agrees (suits u (List.mem_cons_of_mem t later) formal)

end

/-- After a reset a program is answered as in a new session, when the flag of angles was not left
set, or when the program is not about formulas. -/
theorem answers_clear (s : Session) (between : s.blockDepth = 0) (program : List Step)
    (suits : ∀ t ∈ program, t.isFormal = true → s.returnAngles = false) :
    answers ⟨s.clear, [], []⟩ program = answers ⟨s.anew, [], []⟩ program := by
  rw [s.clear_eq_anew between]
  cases flag : s.returnAngles with
  | false =>
    rw [s.anew_withAngles_false]
    exact answers_behind ⟨s.anew, [], []⟩ program fun _ _ _ => rfl
  | true =>
    rw [Session.withAngles_behind]
    refine answers_behind ⟨s.anew, [], []⟩ program fun t known formal => ?_
    rw [suits t known formal] at flag
    cases flag

/-- Statements after a reset of a session whose flag was left set. -/
theorem answers_clear_asin :
    let program : List Token := [.constant (some (.real 1)) "1"]
    let s := ((Session.start {} ⟨1, 1⟩).after (.assign "ReturnAngleUnits" (.real 1))).after
      (.run ⟨program, none, none, "1"⟩)
    let steps : List Step := [.read "asin(x)", .assign "x" (.real 1), .run 0, .lookUp "x"]
    s.blockDepth = 0 ∧ s.returnAngles = true ∧
      (∀ t ∈ steps, t.isFormal = true → s.returnAngles = false) ∧
      answers ⟨s.clear, [], []⟩ steps = answers ⟨s.anew, [], []⟩ steps := by
  intro program s steps
  have between : s.blockDepth = 0 := by decide +kernel
  have plain : ∀ t ∈ steps, t.isFormal = true → s.returnAngles = false := by
    simp [steps, Step.isFormal]
  exact ⟨between, by decide +kernel, plain, answers_clear s between steps plain⟩

/-- In any case it is answered as in a new session with the flag that was left. -/
theorem answers_clear_eq (s : Session) (between : s.blockDepth = 0) (program : List Step) :
    answers ⟨s.clear, [], []⟩ program =
      answers ⟨s.anew.withAngles s.returnAngles, [], []⟩ program := by
  rw [s.clear_eq_anew between]
  exact answers_behind ⟨s.anew.withAngles s.returnAngles, [], []⟩ program fun _ _ _ => rfl

end Desk

end Program

/-! ## Lines -/

namespace Shell

variable {dead : Array Cell} {angles : Option Bool}

theorem resembles_answer (line : String) :
    Resembles dead angles id (answer line) (answer line) := by
  refine (relocates_parse line).bind_resembles fun statement => ?_
  have definition : (statement.raised dead.size).isDefinition = statement.isDefinition := rfl
  rw [definition, statement.text_raised]
  refine .ite (Relocates.pure _).resembles ?_
  refine (resembles_runStatement statement).bind fun o angles => ?_
  refine .get_bind fun s => ?_
  have rendered : (s.behind dead angles).render (statement.raised dead.size).program =
      s.render statement.program := s.render_behind dead angles statement.program
  rw [rendered]
  exact Relocates.pure _

theorem run_respond (line : String) (s : Session) :
    (respond line).run s =
      if (Text.trim line).isEmpty = true then (none, s)
      else if (Text.trim line == clearCommand) = true then (none, s.clear)
      else match outcome (answer line) s with
        | (.ok text, s') => (some text, s')
        | (.error e, s') => (some ("Error: " ++ e.message), s') := by
  unfold respond
  dsimp only
  split
  · rfl
  · split
    · rfl
    · have ended : (answer line).run.run s = outcome (answer line) s := rfl
      rw [StateT.run_bind, ended]
      cases outcome (answer line) s with
      | mk r s' => cases r <;> rfl

/-- A line behind dead cells has the same answer. -/
theorem respond_behind (line : String) (s : Session) : ∃ angles' : Option Bool,
    (respond line).run (s.behind dead angles) =
      (((respond line).run s).1, ((respond line).run s).2.behind dead angles') := by
  obtain ⟨angles', -, answered⟩ := resembles_answer line s
  rw [run_respond, run_respond, answered]
  by_cases blank : (Text.trim line).isEmpty = true
  · simp only [if_pos blank]
    exact ⟨angles, rfl⟩
  · by_cases clears : (Text.trim line == clearCommand) = true
    · simp only [if_neg blank, if_pos clears, s.clear_behind]
      exact ⟨angles, rfl⟩
    · simp only [if_neg blank, if_neg clears]
      refine ⟨angles', ?_⟩
      cases outcome (answer line) s with
      | mk r s' => cases r <;> rfl

theorem transcript_behind (lines : List String) (s : Session) :
    ((transcript lines).run (s.behind dead angles)).1 = ((transcript lines).run s).1 := by
  have answers : ((lines.mapM respond).run (s.behind dead angles)).1 =
      ((lines.mapM respond).run s).1 := by
    induction lines generalizing s angles with
    | nil => rfl
    | cons line lines ih =>
      have first (f : String → StateM Session (Option String)) (t : Session) :
          (((line :: lines).mapM f).run t).1 =
            ((f line).run t).1 :: ((lines.mapM f).run ((f line).run t).2).1 := by
        rw [List.mapM_cons]
        rfl
      have responded : ∃ angles' : Option Bool, (respond line).run (s.behind dead angles) =
          (((respond line).run s).1, ((respond line).run s).2.behind dead angles') :=
        respond_behind line s
      obtain ⟨angles', responded⟩ := responded
      rw [first, first, responded]
      exact congrArg (((respond line).run s).1 :: ·) (ih _)
  exact congrArg List.reduceOption answers

/-- After a reset lines are answered as in a new session, whatever was left. -/
theorem transcript_clear (s : Session) (between : s.blockDepth = 0) (lines : List String) :
    ((transcript lines).run s.clear).1 = ((transcript lines).run s.anew).1 := by
  rw [s.clear_eq_anew between, Session.withAngles_behind, transcript_behind]

end Shell

end UnitCalc

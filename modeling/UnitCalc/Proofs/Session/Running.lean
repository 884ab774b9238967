/-
# Running numeric programs

The machine that runs the program of a numeric statement holds plain numbers only, and each of
its steps leaves the session sound. At its end it may assign one of them.

## Main results

* `Postfix.keeps_step`, `Postfix.keeps_run`: what steps and runs leave unchanged.
* `Session.Sound.runStatement`: running a numeric statement leaves a session sound.
-/

import UnitCalc.Proofs.Session.Memo
import UnitCalc.Proofs.Statement.Reading
import UnitCalc.Session.Evaluation

namespace UnitCalc

open SessionM

namespace Postfix

variable {calls : Calls} {callee : Nat → Prop} {J : Session → Prop} {m : Machine} {t : Token}
  {stack : List Value} {value : Value} {program : List Token}

/-- The machine holds plain numbers. -/
def Machine.IsPlain (m : Machine) : Prop :=
  ∀ a ∈ m.stack, a.IsPlain

theorem keeps_push (plain : ∀ a ∈ stack, a.IsPlain) (new : value.IsPlain) :
    Keeps J Machine.IsPlain (m.push stack value) := by
  unfold Machine.push
  split
  · exact .pure (List.forall_mem_cons.2 ⟨new, plain⟩)
  · exact .throw _

theorem keeps_readVariable (kept : calls.KeepPlain callee J) {name : String}
    (cell : Option CellId) (free : noUnit name = true) :
    Keeps J (fun r => r.1.IsPlain) (readVariable cell name) := by
  intro s holds
  unfold readVariable
  rw [outcome_bind_ok (outcome_get s)]
  cases assigned : cell.bind s.assigned? with
  | some x =>
    refine ⟨holds, fun r same => ?_⟩
    cases same
    obtain ⟨id, -, assigned⟩ := Option.bind_eq_some_iff.1 assigned
    exact kept.cells s holds id x assigned
  | none =>
    -- a name without a value is no unit
    have none : s.unit? name = none := kept.names s holds name free
    have refused : outcome (unitValue name) s = (.error (.undefinedName name), s) := by
      unfold unitValue
      rw [outcome_bind_ok (outcome_get s), none]
      rfl
    simp only
    rw [outcome_bind_error refused]
    exact ⟨holds, nofun⟩

theorem keeps_unary {f : Function} {a : Value} {rest : List Value} (plain : f ≠ .random)
    (noAngle : f.returnsAngle = false) (values : ∀ x ∈ a :: rest, x.IsPlain) :
    Keeps J Machine.IsPlain (do m.push rest (← applyFunction f a)) := by
  rw [List.forall_mem_cons] at values
  rw [Code.applyFunction_of_ne_random plain]
  refine .bind (.read fun s _ x applied => ?_) fun x plain' => keeps_push values.2 plain'
  exact Calculator.isPlain_function noAngle values.1 applied

/-- A step of a numeric token leaves plain numbers on the stack. -/
theorem keeps_step (kept : calls.KeepPlain callee J) (numeric : t.isNumeric = true)
    (known : ∀ index name count, t = .call (some index) name count → callee index)
    (plain : m.IsPlain) : Keeps J Machine.IsPlain (step calls m t) := by
  unfold Machine.IsPlain at plain
  -- A numeric token pushes a result of plain operands, or what a variable or a call is worth.
  cases t with
  | constant value text =>
    cases value with
    | none => exact .throw _
    | some x => exact keeps_push plain (Quantity.isPlain_iff.1 numeric)
  | unit | input | block => cases numeric
  | «variable» cell name =>
    exact (keeps_readVariable kept cell numeric).bind fun r plain' => keeps_push plain plain'
  | negation =>
    simp only [step]
    split
    · next a rest same => exact keeps_unary (by decide) rfl (same ▸ plain)
    · exact .throw _
  | factorial =>
    simp only [step]
    split
    · next a rest same => exact keeps_unary (by decide) rfl (same ▸ plain)
    · exact .throw _
  | function name =>
    simp only [Token.isNumeric, Bool.and_eq_true, bne_iff_ne, Bool.not_eq_true'] at numeric
    simp only [step]
    split
    · next a rest same => exact keeps_unary numeric.1 numeric.2 (same ▸ plain)
    · exact .throw _
  | operator symbol =>
    simp only [step]
    split
    · next b a rest same =>
      rw [same, List.forall_mem_cons, List.forall_mem_cons] at plain
      refine .bind (.read fun s _ x applied => ?_) fun x plain' => keeps_push plain.2.2 plain'
      exact Calculator.isPlain_operator plain.2.1 plain.1 applied
    · exact .throw _
  | binaryFunction name =>
    simp only [Token.isNumeric, Bool.not_eq_true'] at numeric
    simp only [step]
    split
    · next b a rest same =>
      rw [same, List.forall_mem_cons, List.forall_mem_cons] at plain
      refine .bind (.read fun s _ x applied => ?_) fun x plain' => keeps_push plain.2.2 plain'
      exact Calculator.isPlain_binaryFunction numeric plain.2.1 applied
    · exact .throw _
  | conditional =>
    simp only [step]
    split
    · next whenFalse whenTrue condition rest same =>
      rw [same, List.forall_mem_cons, List.forall_mem_cons, List.forall_mem_cons] at plain
      refine keeps_push plain.2.2.2 ?_
      split
      · exact plain.1
      · exact plain.2.1
    · exact .throw _
  | multiFunction name count =>
    simp only [step]
    split
    · refine .bind (.read fun s _ x applied => ?_) fun x plain' =>
        keeps_push (fun a within => plain a (List.mem_of_mem_drop within)) plain'
      exact Calculator.isPlain_multiFunction
        (fun a within => plain a (List.mem_of_mem_take (List.mem_reverse.1 within))) applied
    · exact .throw _
  | call index name count =>
    cases index with
    | none => exact .throw _
    | some index =>
      simp only [step]
      split
      · refine .bind (kept.called index _ (known index name count rfl) ?_) fun x plain' =>
          keeps_push (fun a within => plain a (List.mem_of_mem_drop within)) plain'
        exact fun a within => plain a (List.mem_of_mem_take (List.mem_reverse.1 within))
      · exact .throw _
  | blank | openBracket | closeBracket | separator => exact .throw _

/-- The sessions of `J` may be assigned plain numbers. -/
def KeepsAssigned (J : Session → Prop) : Prop :=
  ∀ s id (x : Value), J s → x.IsPlain → J (s.assign id x)

theorem keeps_assign (assigned : KeepsAssigned J) {target : Token}
    (numeric : target.isNumeric = true) (plain : value.IsPlain) :
    Keeps J (fun _ => True) (assign target m value) := by
  intro s holds
  refine ⟨?_, fun _ _ => trivial⟩
  unfold assign
  split
  · exact assigned s _ value holds plain
  · cases numeric
  · exact holds

theorem keeps_finish (plain : m.IsPlain) : Keeps J (fun _ => True) (finish none m) := by
  unfold finish
  split
  · next value same =>
    have single : value.IsPlain := plain value (same ▸ List.mem_cons_self)
    rw [single.applyTarget_none]
    exact .pure trivial
  · exact .throw _
  · exact .throw _

/-- A run of a numeric program ends among the sessions that its calls stay in, and that may be
assigned plain numbers. -/
theorem keeps_runFrom (kept : calls.KeepPlain callee J) (assigned : KeepsAssigned J)
    {target : Option Token} (numeric : ∀ t ∈ target, t.isNumeric = true)
    (arithmetic : ∀ t ∈ program, t.isArithmetic = true)
    (known : ∀ index name count, .call (some index) name count ∈ program → callee index)
    (plain : m.IsPlain) : Keeps J (fun _ => True) (runFrom calls target none m program) := by
  induction program generalizing m with
  | nil => exact keeps_finish plain
  | cons t rest ih =>
    rw [List.forall_mem_cons] at arithmetic
    unfold runFrom
    -- Behind the assignment nothing is evaluated any more.
    cases assigns : t.isAssignment with
    | true =>
      rw [if_pos rfl]
      split
      · next target value others same =>
        have top : value.IsPlain := plain value (same ▸ List.mem_cons_self)
        rw [top.applyTarget_none]
        exact keeps_assign assigned (numeric target rfl) top
      · exact .throw _
      · exact .throw _
    | false =>
      have ordinary : t.isNumeric = true := by
        simpa [Token.isArithmetic, assigns] using arithmetic.1
      rw [if_neg (by simp)]
      refine .bind (keeps_step kept ordinary ?_ plain) fun m' plain' => ?_
      · exact fun index name count same => known index name count (same ▸ List.mem_cons_self)
      · exact ih arithmetic.2 (fun index name count within =>
          known index name count (List.mem_cons_of_mem t within)) plain'

theorem isNumeric_of_assignee? {target : Token} (found : assignee? program = some target)
    (arithmetic : ∀ t ∈ program, t.isArithmetic = true) : target.isNumeric = true := by
  obtain _ | ⟨t, _ | ⟨u, rest⟩⟩ := program
  · cases found
  · cases found
  · simp only [assignee?] at found
    have first := arithmetic t List.mem_cons_self
    split at found
    · split at found <;> cases found
      exact Token.noUnit_of_isArithmetic first
    · cases first
    · cases found

theorem keeps_run (kept : calls.KeepPlain callee J) (assigned : KeepsAssigned J)
    (arithmetic : ∀ t ∈ program, t.isArithmetic = true)
    (known : ∀ index name count, .call (some index) name count ∈ program → callee index) :
    Keeps J (fun _ => True) (run calls program none) := by
  have checked : Keeps J (fun _ => True) checkCancelled := by
    intro s holds
    unfold checkCancelled
    rw [outcome_bind_ok (outcome_get s)]
    split <;> exact ⟨holds, fun _ _ => trivial⟩
  have empty : Machine.IsPlain {} := List.forall_mem_nil _
  unfold run
  refine checked.bind fun _ _ => ?_
  split
  · exact .throw _
  · exact keeps_runFrom kept assigned nofun arithmetic known empty
  · next t rest target found =>
    rw [List.forall_mem_cons] at arithmetic
    refine keeps_runFrom kept assigned (fun u same => ?_) arithmetic.2 (fun index name count within =>
      known index name count (List.mem_cons_of_mem t within)) empty
    cases same
    exact isNumeric_of_assignee? found (List.forall_mem_cons.2 arithmetic)

end Postfix

namespace Session

variable {s s' : Session} {settings : Settings} {calls : Calls} {d : Nat} {program : List Token}

theorem size_assign (s : Session) (id : CellId) (value : Value) :
    (s.assign id value).functions.size = s.functions.size :=
  (s.afterCalls_assign id value).functions_size

/-- The sound sessions in which calls cannot be nested too deeply. -/
def Runs (settings : Settings) (d : Nat) (s : Session) : Prop :=
  s.Sound settings ∧ s.functions.size < d

theorem Runs.keepsAssigned : Postfix.KeepsAssigned (Runs settings d) := by
  intro s id x holds plain
  refine ⟨holds.1.assign id plain, ?_⟩
  rw [size_assign]
  exact holds.2

/-- During a run all calls are answered. -/
theorem Runs.keepPlain (answer : calls.Answer settings d) :
    calls.KeepPlain (fun _ => True) (Runs settings d) where
  names s holds := holds.1.compilation
  cells s holds id x assigned := isPlain_of_assigned? holds.1.toIsNumeric assigned
  called index args _ plain s holds := by
    have fewer : s.rank index < d := Nat.lt_of_le_of_lt (s.rank_le index) holds.2
    have answered := answer s index args holds.1 fewer plain
    refine ⟨⟨answered.sound, ?_⟩, answered.plain⟩
    rw [answered.after.functions_size]
    exact holds.2

/-- A change of how results are presented. -/
theorem Sound.ofReturnAngles (sound : s.Sound settings) (b : Bool) :
    ({ s with returnAngles := b } : Session).Sound settings := by
  have after : s.AfterCalls (fun _ => False) { s with returnAngles := b } :=
    { AfterCalls.refl (fun _ => False) s with
      functions := fun _ => rfl
      dependents := fun _ => rfl
      cells := fun _ _ => rfl }
  exact after.sound sound.toIsNumeric (fun _ => False.elim) (fun _ => False.elim) sound.coherent

theorem getElem?_limitResults (s : Session) (i : Nat) :
    s.limitResults.functions[i]? = s.functions[i]?.map UserFunction.limited :=
  Array.getElem?_map

theorem afterCalls_limitResults (s : Session) : s.AfterCalls (fun _ => False) s.limitResults :=
  { AfterCalls.refl (fun _ => False) s with
    functions := fun i => by
      rw [getElem?_limitResults, Option.map_map]
      congr 1
      funext f
      exact f.bare_limited
    dependents := fun _ => rfl
    cells := fun _ _ => rfl }

/-- Functions may forget results at any time. -/
theorem Sound.limitResults (sound : s.Sound settings) : s.limitResults.Sound settings := by
  refine s.afterCalls_limitResults.sound sound.toIsNumeric (fun _ => False.elim)
    (fun _ => False.elim) fun i g here => ?_
  rw [getElem?_limitResults] at here
  obtain ⟨f, old, rfl⟩ := Option.map_eq_some_iff.1 here
  exact (sound.coherent i f old).of_fewer (UserFunction.eq_of_bare f.bare_limited).2.1
    (fun e => UserFunction.results_limited) fun code kept => f.code_limited ▸ kept

/-- Assignments by name leave a session sound. -/
theorem Sound.setValue (sound : s.Sound settings) (name : String) {value : Value}
    (plain : value.IsPlain) : (s.setValue name value).Sound settings :=
  ((s.extends_cellOf name).1.sound sound).assign _ plain

theorem Sound.setValues (sound : s.Sound settings) {values : List (String × Value)}
    (plain : ∀ e ∈ values, e.2.IsPlain) :
    (values.foldl (fun s (name, value) => s.setValue name value) s).Sound settings := by
  induction values generalizing s with
  | nil => exact sound
  | cons e values ih =>
    rw [List.forall_mem_cons] at plain
    exact ih (sound.setValue e.1 plain.1) plain.2

/-- A session without variables and functions is sound. -/
theorem sound_of_nothing (settings : Settings) (random : RandomSource) :
    ({ settings, random } : Session).Sound settings where
  settings := rfl
  units := rfl
  going := rfl
  plain id := by
    rw [Extends.cell_of_size_le (Nat.zero_le id)]
    exact .ofNumber _
  named := nofun
  functionNamed := nofun
  unit i f found := by simp at found
  numeric i f found := by simp at found
  binds i f found := by simp at found
  distinct i f found := by simp at found
  isPrivate i f found := by simp at found
  separate i j f g id found := by simp at found
  tells i f found := by simp at found
  acyclic i cycle := by
    obtain ⟨j, ⟨f, found, -⟩, -⟩ := Relation.TransGen.head'_iff.1 cycle
    simp at found
  coherent i f found := by simp at found

theorem isPlain_constants (complex : Bool) : ∀ e ∈ constants complex, e.2.IsPlain := by
  unfold constants
  rw [List.forall_mem_append]
  constructor
  · simp only [List.forall_mem_cons]
    exact ⟨.ofNumber _, .ofNumber _, .ofNumber _, .ofNumber _, List.forall_mem_nil _⟩
  · split
    · simp only [List.forall_mem_cons]
      exact ⟨.ofNumber _, .ofNumber _, .ofNumber _, List.forall_mem_nil _⟩
    · exact List.forall_mem_nil _

/-- A new session is sound. -/
theorem sound_start (settings : Settings) (g : StdGen) :
    (Session.start settings g).Sound settings :=
  (sound_of_nothing settings (.ofGenerator g)).setValues (isPlain_constants settings.complex)

/-- The session in which the program of a statement is run. -/
def settled (s : Session) : Session :=
  { s with returnAngles := (s.value? "ReturnAngleUnits").any fun q => q.re != 0 }

theorem Sound.settled (sound : s.Sound settings) : s.settled.Sound settings :=
  sound.ofReturnAngles _

theorem outcome_updateReturnAngles (s : Session) :
    outcome updateReturnAngles s = (.ok ⟨⟩, s.settled) := rfl

theorem Sound.runs (sound : s.Sound settings) :
    Runs settings (s.functions.size + s.blocks.size + 1) s :=
  ⟨sound, Nat.lt_succ_of_le (Nat.le_add_right _ _)⟩

/-- Running the program of a numeric statement leaves a session sound. -/
theorem Sound.runProgram (sound : s.Sound settings)
    (arithmetic : ∀ t ∈ program, t.isArithmetic = true) :
    (outcome (runProgram program none) s).2.Sound settings := by
  have start := sound.settled.runs
  have kept := Postfix.keeps_run (Runs.keepPlain (Calls.answer_ofDepth settings _))
    Runs.keepsAssigned arithmetic (fun _ _ _ _ => trivial) s.settled start
  unfold SessionM.runProgram
  rw [outcome_bind_ok (outcome_updateReturnAngles s), outcome_bind_ok (outcome_get _)]
  dsimp only
  rw [outcome_tryCatch]
  change Runs settings _ (outcome (Postfix.run s.settled.calls program none) s.settled).2 ∧ _ at kept
  cases ended : outcome (Postfix.run s.settled.calls program none) s.settled with
  | mk r s' =>
    rw [ended] at kept
    cases r with
    | ok value => exact kept.1.1
    | error e =>
      -- the run was not cancelled, so there is nothing to take back
      have same : ({ s' with isCancelled := false } : Session) = s' := by rw [← kept.1.1.going]
      by_cases interrupted : e = .interrupted
      · simp only [interrupted, if_true]
        change Sound settings { s' with isCancelled := false }
        rw [same]
        exact kept.1.1
      · simp only [interrupted, if_false]
        exact kept.1.1

/-- Running a numeric statement leaves a session sound. -/
theorem Sound.runStatement (sound : s.Sound settings) {statement : Statement}
    (arithmetic : IsArithmetic statement) :
    (outcome (runStatement statement) s).2.Sound settings := by
  unfold SessionM.runStatement
  rw [outcome_bind_ok (outcome_get s), arithmetic.1]
  by_cases disabled : (!s.isEnabled) = true
  · rw [if_pos disabled]
    exact sound
  rw [if_neg disabled]
  beta_reduce
  split
  · exact sound
  · exact sound.runProgram arithmetic.2

/-- Reading a numeric text leaves a session sound, and it is read into a numeric statement. -/
theorem Sound.parse (sound : s.Sound settings) {text : String}
    (reads : s.limitResults.ReadsNumbers text.toList) :
    (outcome (parse text) s).2.Sound settings ∧
      ∀ statement, (outcome (parse text) s).1 = .ok statement → IsArithmetic statement := by
  unfold SessionM.parse
  rw [outcome_bind_ok (outcome_modify _ s)]
  exact sound.limitResults.parseStatement reads

end Session

end UnitCalc

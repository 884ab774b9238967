/-
# The value of an assignment

An assignment stores what its expression has by itself. The expression is read and run in the same
way behind the name and the sign, and ends with one value, or with the same error. This holds
unless the expression begins with a name that becomes a unit: at the beginning of a statement names
are not resolved, and behind an assignment they are.

## Main definitions

* `Postfix.thenAssign`: what becomes of the outcome of an expression when it is assigned.
* `Session.ReadsExpression`: a text is read into the tokens of an expression.
* `Session.bound`: tokens after binding, in a statement that defines nothing.

## Main results

* `Postfix.run_assignment`: the run of an assignment.
* `Session.bound_assignment`: behind an assignment tokens are bound as they are by themselves.
* `Session.evaluate_assignment`: its evaluation.
-/

import UnitCalc.Proofs.Postfix.Assigned
import UnitCalc.Proofs.Postfix.Balance
import UnitCalc.Proofs.Postfix.Interpretation
import UnitCalc.Proofs.Session.Arity
import UnitCalc.Proofs.Session.Expressions
import UnitCalc.Proofs.Statement.Assigned
import UnitCalc.Proofs.Statement.Calls

namespace UnitCalc

open SessionM

/-! ## Runs -/

namespace Postfix

variable {calls : Calls} {m : Machine} {s : Session} {program : List Token} {id : CellId}
  {name : String} {unit : Option ValueUnit}

/-- A step takes the operands of its token from the stack and leaves one value. -/
theorem step_height (calls : Calls) (m : Machine) (t : Token) :
    Keeps (fun _ => True)
      (fun m' => t.arity ≤ m.stack.length ∧ m'.stack.length = m.stack.length - t.arity + 1)
      (step calls m t) := by
  have pushed {stack : List Value} {x : SessionM Value} (enough : t.arity ≤ m.stack.length)
      (height : stack.length = m.stack.length - t.arity) :
      Keeps (fun _ => True)
        (fun m' => t.arity ≤ m.stack.length ∧ m'.stack.length = m.stack.length - t.arity + 1)
        (x >>= m.push stack) := by
    have any : Keeps (fun _ => True) (fun _ => True) x := fun _ _ => ⟨trivial, fun _ _ => trivial⟩
    exact any.bind fun value _ => push_keeps
      (P := fun final => t.arity ≤ m.stack.length ∧ final.length = m.stack.length - t.arity + 1)
      ⟨enough, congrArg (· + 1) height⟩
  obtain ⟨stack, readsVariable⟩ := m
  have more {a : Value} {rest : List Value} {n : Nat} (enough : n ≤ rest.length) :
      n + 1 ≤ (a :: rest).length := Nat.succ_le_succ enough
  cases t with
  | constant value | unit value | input value =>
    cases value with
    | none => exact .throw _
    | some x => exact pushed (x := pure x) (Nat.zero_le _) rfl
  | «variable» cell name =>
    have any : Keeps (fun _ => True) (fun _ => True) (readVariable cell name) :=
      fun _ _ => ⟨trivial, fun _ _ => trivial⟩
    exact any.bind fun r _ => push_keeps
      (P := fun final => 0 ≤ stack.length ∧ final.length = stack.length + 1) ⟨Nat.zero_le _, rfl⟩
  | negation | factorial | function =>
    obtain _ | ⟨a, rest⟩ := stack
    · exact .throw _
    · exact pushed (more (Nat.zero_le _)) rfl
  | operator | binaryFunction =>
    obtain _ | ⟨b, _ | ⟨a, rest⟩⟩ := stack
    · exact .throw _
    · exact .throw _
    · exact pushed (more (more (Nat.zero_le _))) rfl
  | conditional =>
    obtain _ | ⟨c, _ | ⟨b, _ | ⟨a, rest⟩⟩⟩ := stack
    · exact .throw _
    · exact .throw _
    · exact .throw _
    · exact pushed (x := pure _) (more (more (more (Nat.zero_le _)))) rfl
  | multiFunction name count =>
    simp only [step]
    split
    · next enough => exact pushed enough List.length_drop
    · exact .throw _
  | call index name count =>
    cases index with
    | none => exact .throw _
    | some index =>
      simp only [step]
      split
      · next enough => exact pushed enough List.length_drop
      · exact .throw _
  | block => exact pushed (Nat.zero_le _) rfl
  | blank | openBracket | closeBracket | separator => exact .throw _

/-- The outcome of an expression is assigned. -/
def thenAssign (id : CellId) (ended : Except CalcError Outcome × Session) :
    Except CalcError Outcome × Session :=
  match ended with
  | (.ok o, s) => (.ok { o with replaced := s.assigned? id }, s.assign id o.value)
  | (.error e, s) => (.error e, s)

theorem runFrom_assignment (ordinary : ∀ t ∈ program, t.isAssignment = false)
    (leaves : LeavesOne m.stack.length program) :
    outcome (runFrom calls (some (.variable (some id) name)) unit m
      (program ++ [Token.assignment])) s =
        thenAssign id (outcome (runFrom calls none unit m program) s) := by
  induction program generalizing m s with
  | nil =>
    obtain ⟨value, single⟩ : ∃ value, m.stack = [value] :=
      List.length_eq_one_iff.1 (leaves _ rfl)
    unfold runFrom finish
    rw [List.nil_append]
    dsimp only
    rw [if_pos (show Token.assignment.isAssignment = true from rfl), single]
    dsimp only
    cases value.applyTarget unit with
    | error e => rfl
    | ok x => rfl
  | cons t program ih =>
    rw [List.forall_mem_cons] at ordinary
    unfold runFrom
    rw [List.cons_append]
    simp only [ordinary.1, Bool.false_eq_true, if_false, outcome_bind]
    have height := (step_height calls m t s trivial).2
    cases stepped : outcome (step calls m t) s with
    | mk r s' =>
      cases r with
      | error e => rfl
      | ok m' =>
        rw [stepped] at height
        obtain ⟨enough, left⟩ := height m' rfl
        refine ih ordinary.2 fun final reached => leaves final ?_
        rw [heightFrom, if_pos enough, ← left]
        exact reached

theorem assignee?_of_ordinary (ordinary : ∀ t ∈ program, t.isAssignment = false) :
    assignee? program = none := by
  obtain _ | ⟨t, _ | ⟨u, rest⟩⟩ := program
  · rfl
  · rfl
  · have last : (u :: rest).getLast?.any Token.isAssignment = false := by
      cases last : (u :: rest).getLast? with
      | none => rfl
      | some v => exact ordinary v (List.mem_cons_of_mem t (List.mem_of_getLast? last))
    simp only [assignee?, last]
    split <;> rfl

theorem assignee?_assignment {cell : Option CellId} (nonempty : program ≠ []) :
    assignee? (.variable cell name :: (program ++ [Token.assignment])) =
      some (.variable cell name) := by
  obtain ⟨first, rest, rfl⟩ := List.exists_cons_of_ne_nil nonempty
  have last : (first :: (rest ++ [Token.assignment])).getLast?.any Token.isAssignment = true := by
    rw [← List.cons_append, List.getLast?_append]
    rfl
  rw [List.cons_append]
  simp only [assignee?, last]
  rfl

/-- The run of an assignment is that of the expression, whose value is assigned at the end. -/
theorem run_assignment (ordinary : ∀ t ∈ program, t.isAssignment = false)
    (leaves : LeavesOne 0 program) :
    outcome (run calls (.variable (some id) name :: (program ++ [Token.assignment])) unit) s =
      thenAssign id (outcome (run calls program unit) s) := by
  have nonempty : program ≠ [] := by
    rintro rfl
    exact absurd (leaves 0 rfl) (by decide)
  have ran (s : Session) : outcome (runFrom calls (some (.variable (some id) name)) unit {}
      (program ++ [Token.assignment])) s =
        thenAssign id (outcome (runFrom calls none unit {} program) s) :=
    runFrom_assignment ordinary leaves
  unfold run
  rw [outcome_bind, outcome_bind, assignee?_of_ordinary ordinary, assignee?_assignment nonempty]
  cases outcome checkCancelled s with
  | mk r s' =>
    cases r with
    | error e => rfl
    | ok _ =>
      obtain ⟨first, rest, rfl⟩ := List.exists_cons_of_ne_nil nonempty
      exact ran s'

end Postfix

/-! ## Statements -/

namespace Token

variable {ts us : List Token} {isDefinition : Bool}

/-- Before they are bound, the operators of an expression bind tighter than an assignment. -/
theorem bindsTighter_of_check (checked : check ts = .ok (us, isDefinition))
    (unbound : ∀ t ∈ ts, t.isUnbound = true) (ordinary : ∀ t ∈ ts, t.isAssignment = false) :
    ∀ u ∈ us, u.bindsTighter := by
  intro u within
  have counted : Legality.setCount 0 u ∈ Legality.uncounted ts := by
    rw [← check_uncounted checked]
    exact List.mem_map_of_mem within
  obtain ⟨t, read, same⟩ := List.mem_map.1 counted
  cases u with
  | operator symbol order =>
    obtain rfl : t = .operator symbol order := by
      cases t <;> first | exact same | cases same
    refine ⟨by simpa [isAssignment, isOperator] using ordinary _ read, ?_⟩
    have orders : order = unordered ∨ order = unitSuffixOrder := by
      simpa [isUnbound] using unbound _ read
    rcases orders with rfl | rfl <;> decide
  | _ => trivial

theorem visible_of_isUnbound {t : Token} (unbound : t.isUnbound = true) : t.kind ≠ .start := by
  cases t with
  | blank => cases unbound
  | _ => simp [kind]

/-- The first token of an expression stays as it is, when it is no name that becomes a unit. -/
theorem resolved_first {isAssigned : CellId → Bool} {names : String → Option ValueUnit} {t : Token}
    (noUnit : ∀ cell name, us.head? = some (.variable cell name) →
      cell.any isAssigned = true ∨ names name = none)
    (first : t ∈ us.head?) : t.ordered.resolved isAssigned names = t.ordered := by
  cases t with
  | «variable» cell name =>
    simp only [ordered, resolved]
    rcases noUnit cell name first with assigned | none
    · rw [if_pos assigned]
    · rw [none, ite_self]
  | _ => rfl

/-- What may begin the inside of a bracket may stand behind an assignment, also before its calls are
counted. -/
theorem begins_of_restates (restated : List.Forall₂ Restates us ts)
    (begins : us.head?.any (fun t => t.mayFollow (some .openBracket)) = true) :
    ts.head?.any (fun t => t.mayFollow (some (.ofSymbol '='))) = true := by
  cases restated with
  | nil => cases begins
  | cons restates =>
    refine mayFollow_assignment ?_
    rw [mayFollow, ← restates.classAfter_eq]
    exact begins

end Token

namespace Session

variable {s s' : Session} {id : CellId} {name x text : String} {program us : List Token}
  {unit : Option ValueUnit} {scan : Scan}

theorem runProgram_assignment (ordinary : ∀ t ∈ program, t.isAssignment = false)
    (leaves : Postfix.LeavesOne 0 program) :
    outcome (runProgram (.variable (some id) name :: (program ++ [Token.assignment])) unit) s =
      Postfix.thenAssign id (outcome (runProgram program unit) s) := by
  unfold runProgram
  rw [outcome_bind_ok (outcome_updateReturnAngles s), outcome_bind_ok (outcome_get _),
    outcome_bind_ok (outcome_updateReturnAngles s), outcome_bind_ok (outcome_get _),
    outcome_tryCatch, outcome_tryCatch, Postfix.run_assignment ordinary leaves]
  cases outcome (Postfix.run s.settled.calls program unit) s.settled with
  | mk r s' =>
    cases r with
    | ok o => rfl
    | error e =>
      -- a run that was interrupted takes the cancellation back, and fails all the same
      simp only [Postfix.thenAssign]
      split <;> rfl

/-- The program of an assignment is run as that of its expression. -/
theorem runStatement_assignment (ordinary : ∀ t ∈ program, t.isAssignment = false)
    (leaves : Postfix.LeavesOne 0 program) (source source' : String) :
    outcome (runStatement
      ⟨.variable (some id) name :: (program ++ [Token.assignment]), unit, none, source'⟩) s =
        Postfix.thenAssign id (outcome (runStatement ⟨program, unit, none, source⟩) s) := by
  unfold runStatement
  rw [outcome_bind_ok (outcome_get s), outcome_bind_ok (outcome_get s)]
  by_cases disabled : (!s.isEnabled) = true
  · rw [if_pos disabled, if_pos disabled]
    rfl
  · rw [if_neg disabled, if_neg disabled]
    exact runProgram_assignment ordinary leaves

/-- A text is read into the tokens of an expression, none of which assigns or defines something, and
into the unit behind a bar. -/
structure ReadsExpression (s : Session) (text : String) (scan : Scan) (us : List Token)
    (unit : Option ValueUnit) (s' : Session) : Prop where
  unit : (outcome (parseUnit (Statement.split text.toList).2) s).1 = .ok unit
  scanned : outcome (tokenize text.toList true) s = (.ok scan, s')
  settled : ¬ scan.HasPending
  checked : Token.check scan.tokens = .ok (us, false)

namespace ReadsExpression

variable (reads : s.ReadsExpression text scan us unit s')

include reads

theorem restates : List.Forall₂ Token.Restates us scan.tokens :=
  Token.check_restates reads.checked

theorem ordinary : ∀ t ∈ scan.tokens, t.isAssignment = false := by
  intro t within
  by_contra assigns
  rw [Bool.not_eq_false] at assigns
  exact reads.settled ⟨t, List.mem_reverse.1 within, by simp [Token.isPending, assigns]⟩

theorem callsOpen : Token.CallsOpen us := by
  have fresh : ({} : Scan).Settled := trivial
  have settled : scan.Settled := Scan.run_settled (.inl fresh) reads.scanned
  rwa [← Token.callsOpen_uncounted, Token.check_uncounted reads.checked, Token.callsOpen_uncounted]

/-- Calls take arguments: a function that is not defined is not called in an expression, and those
of the session have parameters. -/
theorem takesArguments (occurs : s.Occurs) (index : Option Nat) (name : String) :
    .call index name 0 ∉ us := by
  intro within
  obtain ⟨t, read, restates⟩ := Token.exists_of_forall₂ reads.restates within
  cases restates.eq_call
  cases index with
  | none =>
    -- such a call would make the statement a definition
    exact reads.settled ⟨_, List.mem_reverse.1 read, by simp [Token.isPending, Token.isForward]⟩
  | some i =>
    have added := scanned_adds occurs.informed.unsplit text.toList true
    unfold Adds at added
    rw [show outcome (Scan.run _ _ _ _ _ _) s = (.ok scan, s') from reads.scanned] at added
    have scans := (added.2 scan rfl).1 _ (List.mem_reverse.1 read)
    have all := occurs.hasParameters.later added.1.later
    exact absurd (all.arity_pos (scans.offered _ rfl)) (Nat.lt_irrefl 0)

end ReadsExpression

/-- A session that has a cell for a variable occurs. -/
theorem Occurs.withCell (occurs : s.Occurs) (name : String) :
    (s.cellOf name).2.limitResults.Occurs :=
  .during (.run (runsTo_limitResults _)) (.during (.cells (s.extends_cellOf name).1) occurs)

theorem cellOf_limitResults (s : Session) (name : String) :
    s.limitResults.cellOf name = ((s.cellOf name).1, (s.cellOf name).2.limitResults) := by
  unfold cellOf
  rw [show s.limitResults.cellNames = s.cellNames from rfl]
  cases s.cellNames.lookup name <;> rfl

/-- The tokens of a statement that defines nothing, after binding. -/
def bound (s : Session) (place : Nat) (us : List Token) : List Token :=
  Token.bind s.isAssigned (if s.inBlock || s.isPlotting then none else some s.unit?) place us

/-- Behind an assignment tokens are bound as they are by themselves, when the first of them is no
name that becomes a unit. -/
theorem bound_assignment {cell : Option CellId}
    (noUnit : ∀ cell name, us.head? = some (.variable cell name) →
      cell.any s.isAssigned = true ∨ s.unit? name = none) :
    s.bound 1 (.variable cell name :: .ofSymbol '=' :: us) =
      .variable cell name :: Token.assignment :: s.bound 0 us := by
  refine Token.bind_assignment _ _ fun names found t first => ?_
  split at found
  · cases found
  · cases found
    exact Token.resolved_first noUnit first

/-- A text is parsed into the program that its tokens are ordered into. -/
theorem outcome_parse_bound (parsed : (outcome (parseUnit (Statement.split text.toList).2)
      s.limitResults).1 = .ok unit)
    (scanned : outcome (tokenize text.toList true) s.limitResults = (.ok scan, s'))
    (checked : Token.check scan.tokens = .ok (us, false)) (written : scan.tokens ≠ []) :
    outcome (SessionM.parse text) s =
      ((Postfix.ofTokens (s'.bound scan.assignment us)).map
          fun program => ⟨program, unit, none, text⟩, s') := by
  obtain ⟨r, same⟩ := outcome_parseUnit (Statement.split text.toList).2 s.limitResults
  rw [same] at parsed
  have asked : outcome (parseUnit (Statement.split text.toList).2) s.limitResults =
      (.ok unit, s.limitResults) := by
    rw [same, ← parsed]
  change outcome (parseStatement text.toList true) s.limitResults = _
  rw [parseStatement_eq, outcome_bind_ok asked, outcome_bind_ok scanned,
    outcome_ofScan written checked, String.ofList_toList]
  rfl

namespace ReadsExpression

section Behind

variable {cell : Option CellId} {scan' : Scan} (behind : scan.Behind (.variable cell name) scan')
  (reads : s.ReadsExpression text scan us unit s')

include behind reads

theorem bindsTighter_bound : ∀ t ∈ s'.bound 0 us, t.bindsTighter :=
  Token.bindsTighter_bind _ _ _ (Token.bindsTighter_of_check reads.checked
    (fun t within => behind.unbound t (List.mem_reverse.1 within)) reads.ordinary)

theorem check_behind (begins : us.head?.any (fun t => t.mayFollow (some .openBracket)) = true) :
    Token.check scan'.tokens = .ok (.variable cell name :: .ofSymbol '=' :: us, false) := by
  rw [behind.tokens]
  exact Token.check_assignment reads.checked reads.ordinary
    (Token.begins_of_restates reads.restates begins)

/-- The program of the expression assigns nothing, and leaves one value. -/
theorem program_leavesOne {program : List Token} (occurs : s.Occurs)
    (begins : us.head?.any (fun t => t.mayFollow (some .openBracket)) = true)
    (ordered : Postfix.ofTokens (s'.bound 0 us) = .ok program) :
    (∀ t ∈ program, t.isAssignment = false) ∧ Postfix.LeavesOne 0 program := by
  refine ⟨?_, ?_⟩
  · have tighter := reads.bindsTighter_bound behind
    exact Postfix.forall_ofTokensFrom (fun symbol _ _ other => other)
      (fun t within => Token.isAssignment_of_bindsTighter (tighter t within))
      (List.forall_mem_nil _) ordered
  · exact Token.leavesOne_of_check reads.checked
      (fun t within => Token.visible_of_isUnbound (behind.unbound t (List.mem_reverse.1 within)))
      reads.callsOpen (reads.takesArguments occurs) begins ordered

end Behind

variable (isName : Scan.isName x = true)
  (reads : (s.cellOf x).2.limitResults.ReadsExpression text scan us unit s')

include isName reads

/-- The expression is read in the same way behind the name of a variable and the sign. -/
theorem tokenize_assignment : ∃ scan',
    outcome (tokenize (Statement.assignmentText x text).toList true) s.limitResults =
      (.ok scan', s') ∧ scan.Behind (.variable (some (s.cellOf x).1) x) scan' := by
  have limited := s.cellOf_limitResults x
  have scanned : outcome (tokenize text.toList true) (s.limitResults.cellOf x).2 =
      (.ok scan, s') := by
    rw [limited]
    exact reads.scanned
  have found := outcome_tokenize_assignment isName scanned reads.settled
  rwa [limited] at found

theorem parseUnit_assignment : (outcome (parseUnit (Statement.split
    (Statement.assignmentText x text).toList).2) s.limitResults).1 = .ok unit := by
  have vocabulary : s.limitResults.SameVocabulary (s.limitResults.cellOf x).2 :=
    (reading_sameVocabulary.cell (s := s.limitResults) x trivial).1
  rw [s.cellOf_limitResults x] at vocabulary
  rw [Statement.split_assignmentText isName, ← parseUnit_eq vocabulary]
  exact reads.unit

end ReadsExpression

/-- Evaluating an assignment evaluates its expression in the session that has a cell for the
variable, and assigns the value. Whatever fails for the expression by itself fails in the same way.
The expression begins with an operand, which is no name that becomes a unit behind an assignment. -/
theorem evaluate_assignment (occurs : s.Occurs) (isName : Scan.isName x = true)
    (reads : (s.cellOf x).2.limitResults.ReadsExpression text scan us unit s')
    (begins : us.head?.any (fun t => t.mayFollow (some .openBracket)) = true)
    (noUnit : ∀ cell name, us.head? = some (.variable cell name) →
      cell.any s'.isAssigned = true ∨ s'.unit? name = none) :
    outcome (evaluate (Statement.assignmentText x text)) s =
      Postfix.thenAssign (s.cellOf x).1 (outcome (evaluate text) (s.cellOf x).2) := by
  obtain ⟨scan', scanned', behind⟩ := reads.tokenize_assignment isName
  have written : scan.tokens ≠ [] := by
    intro empty
    have restated := reads.restates
    rw [empty] at restated
    cases restated
    cases begins
  have bare := outcome_parse_bound reads.unit reads.scanned reads.checked written
  have whole := outcome_parse_bound (reads.parseUnit_assignment isName) scanned'
    (reads.check_behind behind begins) (behind.tokens ▸ List.cons_ne_nil _ _)
  rw [behind.unassigned] at bare
  rw [behind.assignment, bound_assignment noUnit,
    Postfix.ofTokens_assignment (reads.bindsTighter_bound behind)] at whole
  unfold evaluate
  rw [outcome_bind, outcome_bind, bare, whole]
  cases ordered : Postfix.ofTokens (s'.bound 0 us) with
  | error e => rfl
  | ok program =>
    obtain ⟨ordinary, leaves⟩ :=
      reads.program_leavesOne behind (occurs.withCell x) begins ordered
    exact runStatement_assignment ordinary leaves _ _

/-- The length of two metres. -/
theorem evaluate_assignment_length : ∃ (s s' : Session) (o : Outcome), s.Occurs ∧
    outcome (evaluate "2*m") (s.cellOf "v").2 = (.ok o, s') ∧ o.value.messageText = "2 m" ∧
      outcome (evaluate "v = 2*m") s =
        (.ok { o with replaced := s'.assigned? (s.cellOf "v").1 },
          s'.assign (s.cellOf "v").1 o.value) := by
  let s := Session.start {} ⟨1, 1⟩
  let before := (s.cellOf "v").2.limitResults
  have scans : ((outcome (tokenize "2*m".toList true) before).1.toOption.any fun scan =>
      scan.reversed.all (!·.isPending) && (Token.check scan.tokens).toOption.any fun r =>
        !r.2 && r.1.head?.any Token.isConstant) = true := by decide +kernel
  have value : ((outcome (evaluate "2*m") (s.cellOf "v").2).1.toOption.any fun o =>
      o.value.messageText == "2 m") = true := by decide +kernel
  obtain ⟨o, value, text⟩ := (Option.any_eq_true _ _).1 value
  obtain ⟨scan, scanned, shape⟩ := (Option.any_eq_true _ _).1 scans
  obtain ⟨pending, checks⟩ := Bool.and_eq_true_iff.1 shape
  obtain ⟨⟨us, isDefinition⟩, checked, plain⟩ := (Option.any_eq_true _ _).1 checks
  simp only [Bool.and_eq_true, Bool.not_eq_true', List.all_eq_true] at pending plain
  obtain ⟨rfl, first⟩ := plain
  obtain ⟨t, first, constant⟩ := (Option.any_eq_true _ _).1 first
  cases t with
  | constant =>
    have reads : before.ReadsExpression "2*m" scan us none
        (outcome (tokenize "2*m".toList true) before).2 := by
      refine ⟨rfl, Prod.ext (ok_of_toOption scanned) rfl, ?_, ok_of_toOption checked⟩
      rintro ⟨t, within, isPending⟩
      rw [pending t within] at isPending
      cases isPending
    have ended : outcome (evaluate "2*m") (s.cellOf "v").2 =
        (.ok o, (outcome (evaluate "2*m") (s.cellOf "v").2).2) :=
      Prod.ext (ok_of_toOption value) rfl
    have assigned := evaluate_assignment (.start _ _) (by decide +kernel) reads
      (by rw [first]; rfl) fun cell name other => by
        rw [first] at other
        cases other
    rw [ended] at assigned
    exact ⟨s, _, o, .start _ _, ended, beq_iff_eq.1 text, assigned⟩
  | _ => cases constant

end Session

end UnitCalc

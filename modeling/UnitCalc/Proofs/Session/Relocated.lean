/-
# Evaluation behind dead cells

What statements and formulas evaluate to does not depend on where cells stand. Behind cells that
nothing refers to, code whose cells stand further on has the same value or fails with the same
error, and it leaves the session as it would be left without these cells.

## Main definitions

* `Formula.raised n`: a formula whose cells stand `n` places further on.

## Main results

* `SessionM.relocates_runStatement`: statements that were read elsewhere.
* `SessionM.relocates_compile`, `Formula.relocates_call`: formulas.
-/

import UnitCalc.Proofs.Method.Congruence
import UnitCalc.Proofs.Statement.Relocated

namespace UnitCalc

variable {dead : Array Cell}

/-- A formula whose cells stand further on. -/
def Formula.raised (n : Nat) (e : Formula) : Formula :=
  { e with parameters := e.parameters.map (n + ·), code := e.code.raised n }

/-- Behind dead cells calls and blocks evaluate to what they evaluate to elsewhere. -/
structure Calls.Relocate (dead : Array Cell) (calls calls' : Calls) : Prop where
  function : ∀ index args,
    SessionM.Relocates dead none id (calls.function index args) (calls'.function index args)
  block : ∀ index, SessionM.Relocates dead none id (calls.block index) (calls'.block index)

namespace SessionM

theorem relocates_checkCancelled : Relocates dead none id checkCancelled checkCancelled :=
  .get_bind fun _ => .ite (.throw _) (.pure _)

/-- What the calculator gives has nothing to do with cells. -/
theorem relocates_calculator {α : Type} (f : Calculator Float → Except CalcError α) :
    Relocates dead none id (read fun s => f s.calculator) (read fun s => f s.calculator) :=
  .read fun s => by
    rw [Session.calculator_behind]
    cases f s.calculator <;> rfl

theorem relocates_applyFunction (f : Function) (a : Value) :
    Relocates dead none id (applyFunction f a) (applyFunction f a) :=
  .bind (relocates_calculator fun c => c.function f a) fun result =>
    .ite (.bind (.modify fun _ => rfl) fun _ => .pure result) (.pure result)

theorem relocates_applyOperator (o : Operator) (a b : Value) :
    Relocates dead none id (applyOperator o a b) (applyOperator o a b) :=
  relocates_calculator fun c => c.operator o a b

theorem relocates_applyBinaryFunction (f : BinaryFunction) (a b : Value) :
    Relocates dead none id (applyBinaryFunction f a b) (applyBinaryFunction f a b) :=
  relocates_calculator fun c => c.binaryFunction f a b

theorem relocates_applyMultiFunction (f : MultiFunction) (args : List Value) :
    Relocates dead none id (applyMultiFunction f args) (applyMultiFunction f args) :=
  relocates_calculator fun c => c.multiFunction f args

theorem relocates_unitValue (name : String) :
    Relocates dead none id (unitValue name) (unitValue name) := by
  refine .get_bind fun s => ?_
  rw [Session.unit?_behind]
  split
  · exact .pure _
  · exact .throw _

theorem relocates_assign (id' : CellId) (value : Value) :
    Relocates dead none id (modify fun s => s.assign id' value : SessionM Unit)
      (modify fun s => s.assign (dead.size + id') value) :=
  .modify fun s => s.assign_behind dead none id' value

theorem relocates_defineUnit (name : String) (value : Value) :
    Relocates dead none id (defineUnit name value) (defineUnit name value) :=
  .bind (.read fun s => s.defineUnit_behind dead none name value) fun s => .set s

end SessionM

open SessionM

namespace Code

variable {calls calls' : Calls}

mutual

/-- Code whose cells stand further on. -/
theorem relocates_run (relocate : calls.Relocate dead calls') : (code : Code) →
    Relocates dead none id (code.run calls) ((code.raised dead.size).run calls')
  | .const value => by
    rw [raised, run, run]
    exact .pure value
  | .read cell name => by
    rw [raised, run, run]
    refine .get_bind fun s => ?_
    rw [Session.assigned?_behind]
    split
    · exact .pure _
    · exact relocates_unitValue name
  | .assign cell value => by
    rw [raised, run, run]
    exact .bind (relocates_run relocate value) fun a =>
      .bind (relocates_assign cell a) fun _ => .pure a
  | .defineUnit name value => by
    rw [raised, run, run]
    exact .bind (relocates_run relocate value) fun a =>
      .bind (relocates_defineUnit name a) fun _ => .pure a
  | .function f a => by
    rw [raised, run, run]
    exact .bind (relocates_run relocate a) fun x => relocates_applyFunction f x
  | .operator o a b => by
    rw [raised, run, run]
    exact .bind (relocates_run relocate a) fun x => .bind (relocates_run relocate b) fun y =>
      relocates_applyOperator o x y
  | .binaryFunction f a b => by
    rw [raised, run, run]
    exact .bind (relocates_run relocate a) fun x => .bind (relocates_run relocate b) fun y =>
      relocates_applyBinaryFunction f x y
  | .conditional condition whenTrue whenFalse => by
    rw [raised, run, run]
    exact .bind (relocates_run relocate condition) fun c =>
      .ite (relocates_run relocate whenFalse) (relocates_run relocate whenTrue)
  | .multiFunction f args => by
    rw [raised, run, run]
    exact .bind (relocates_runAll relocate args) fun values => relocates_applyMultiFunction f values
  | .call index args => by
    rw [raised, run, run]
    exact .bind (relocates_runAll relocate args) fun values => relocate.function index values
  | .block index => by
    rw [raised, run, run]
    exact relocate.block index

theorem relocates_runAll (relocate : calls.Relocate dead calls') : (codes : List Code) →
    Relocates dead none id (runAll calls codes) (runAll calls' (raisedAll dead.size codes))
  | [] => by
    rw [raisedAll, runAll, runAll]
    exact .pure []
  | code :: rest => by
    rw [raisedAll, runAll, runAll]
    exact .bind (relocates_run relocate code) fun value =>
      .bind (relocates_runAll relocate rest) fun values => .pure (value :: values)

end

end Code

/-! ## Methods -/

namespace MethodM

variable {R E α β : Type}

/-- Behind dead cells a computation of a method does the same, whatever the last unit was. -/
def Relocates (dead : Array Cell) (x y : MethodM R E SessionM α) : Prop :=
  ∀ unit, SessionM.Relocates dead none id (x.run unit) (y.run unit)

/-- All that a method does is the same behind dead cells. -/
theorem Relocates.congruence : FullCongruence (R := R) (E := E) (Relocates dead) where
  pure _ _ := .pure _
  bind first second unit := .bind (first unit) fun r => second r.1 r.2
  set _ _ := .pure _
  get _ := .pure _
  throw _ _ := .throw _

end MethodM

/-- Methods do the same behind dead cells, when their objectives do. -/
theorem Method.relocates_compute (method : Method) (p : Problem Float Float32 SessionM)
    {g : Float → SessionM Value} (alike : ∀ x, Relocates dead none id (p.objective x) (g x))
    (start stop target : Float) :
    MethodM.Relocates dead (method.compute p start stop target)
      (method.compute { p with objective := g } start stop target) := by
  have congruence : MethodM.FullCongruence (R := Float) (E := Float32)
      (MethodM.Relocates dead) := MethodM.Relocates.congruence
  refine method.compute_congr congruence p (fun x => ?_) start stop target
  refine congruence.bind (fun unit => ?_) fun q => congruence.bind (congruence.set q.unit) fun _ =>
    congruence.pure q
  exact .bind (alike x) fun q => .pure (q, unit)

/-! ## Calls and blocks -/

theorem Block.compile_raised {n : Nat} {c c' : Compilation} (raises : Code.Raises n c c')
    (b : Block) : (b.raised n).compile c' = (b.compile c).map (BlockCode.raised n) := by
  have optional (part : Option Part) :
      (part.map (Part.raised n)).mapM (fun part => Code.ofPostfix c' part.program) =
        (part.mapM fun part => Code.ofPostfix c part.program).map (Option.map (Code.raised n)) := by
    cases part with
    | none => rfl
    | some part =>
      simp only [Option.map_some, Option.mapM_some, Part.raised, raises.ofPostfix]
      cases Code.ofPostfix c part.program <;> rfl
  unfold Block.compile
  simp only [Block.raised, Part.raised, raises.ofPostfix, optional]
  cases Code.ofPostfix c b.objective.program with
  | error e => rfl
  | ok objective =>
    cases Code.ofPostfix c b.lower.program with
    | error e => rfl
    | ok lower =>
      cases b.upper.mapM fun part => Code.ofPostfix c part.program with
      | error e => rfl
      | ok upper => cases b.equation.mapM fun part => Code.ofPostfix c part.program <;> rfl

/-- Texts do not show cells. -/
theorem Postfix.textWith_mapCell (f : Option CellId → Option CellId)
    (blockText : Nat → Option String) (program : List Token) :
    textWith blockText (program.map (Token.mapCell f)) = textWith blockText program := by
  have shown : (fun stack t => show? blockText stack (Token.mapCell f t)) = show? blockText := by
    funext stack t
    cases t <;> rfl
  have texts : (program.map (Token.mapCell f)).map Token.text = program.map Token.text := by
    rw [List.map_map]
    exact congrArg (program.map ·) (funext (Token.text_mapCell f))
  rw [textWith, textWith, completeText?, completeText?, List.foldlM_map, shown, texts]

theorem Block.text_raised (n : Nat) (b : Block) : (b.raised n).text = b.text := by
  have name : (b.raised n).unknownName = b.unknownName := Token.content_mapCell _ _
  have part (p : Part) : Postfix.infixText (p.raised n).program = Postfix.infixText p.program :=
    Postfix.textWith_mapCell _ _ _
  have upper : (b.raised n).upper.elim "" (fun part => Postfix.infixText part.program) =
      b.upper.elim "" fun part => Postfix.infixText part.program := by
    cases both : b.upper <;> simp [Block.raised, both, part]
  have equation : (b.raised n).equation.elim "0" (fun part => Postfix.infixText part.program) =
      b.equation.elim "0" fun part => Postfix.infixText part.program := by
    cases side : b.equation <;> simp [Block.raised, side, part]
  have objective : (b.raised n).objective = b.objective.raised n := rfl
  have lower : (b.raised n).lower = b.lower.raised n := rfl
  have method : (b.raised n).method = b.method := rfl
  unfold Block.text Block.intervalText
  rw [name, upper, equation, objective, lower, method, part, part]

namespace SessionM

variable {calls calls' : Calls} (relocate : calls.Relocate dead calls')

theorem relocates_applyTarget (value : Value) (unit : Option ValueUnit) :
    Relocates dead none id (ofExcept (value.applyTarget unit) : SessionM Value)
      (ofExcept (value.applyTarget unit)) :=
  .same _

theorem relocates_functionCode (index : Nat) (f : UserFunction) :
    Relocates dead none (Code.raised dead.size) (functionCode index f)
      (functionCode index (f.raised dead.size)) := by
  unfold functionCode
  cases kept : f.code with
  | some code =>
    simp only [UserFunction.raised, kept, Option.map_some]
    exact .pure code
  | none =>
    simp only [UserFunction.raised, kept, Option.map_none]
    refine .bind (.read fun s => (s.raises_behind dead).ofPostfix f.body) fun code => ?_
    refine .bind (.modify fun s => ?_) fun _ => .pure code
    exact Session.modifyFunction_behind (f := fun f => { f with code := some code })
      (fun _ => rfl) index

include relocate

theorem relocates_runFunction (index : Nat) (f : UserFunction) (args : List Value) :
    Relocates dead none id (runFunction calls index f args)
      (runFunction calls' index (f.raised dead.size) args) := by
  have cells : (f.raised dead.size).parameters.map Prod.snd =
      (f.parameters.map Prod.snd).map (dead.size + ·) := by
    simp only [UserFunction.raised, raisedNames, List.map_map]
    rfl
  unfold runFunction
  rw [cells]
  refine .bind (.modify fun s => s.storeAll_behind dead none _ args) fun _ => ?_
  refine .bind (relocates_functionCode index f) fun code => ?_
  exact .bind (code.relocates_run relocate) fun value => .same _

theorem relocates_evaluateCall (index : Nat) (args : List Value) :
    Relocates dead none id (evaluateCall calls index args) (evaluateCall calls' index args) := by
  refine .get_bind fun s => ?_
  rw [Session.getElem?_functions_behind]
  cases s.functions[index]? with
  | none => exact .throw _
  | some f =>
    have circular : (f.raised dead.size).isCircular = f.isCircular := rfl
    simp only [Option.map_some, circular, f.arity_raised, f.result?_raised]
    refine .ite (.pure _) (.bind relocates_checkCancelled fun _ => .guard ?_)
    split
    · next result _ =>
      refine .bind (.modify fun s => ?_) fun _ => .pure result
      exact Session.modifyFunction_behind (f := fun f => { f with hits := f.hits + 1 })
        (fun _ => rfl) index
    · refine .bind (.modify fun s => ?_) fun _ => ?_
      · exact Session.modifyFunction_behind (f := fun f => { f with misses := f.misses + 1 })
          (fun _ => rfl) index
      · refine .bind (relocates_runFunction relocate index f args) fun result => ?_
        refine .bind (.modify fun s => ?_) fun _ => .pure result
        exact Session.modifyFunction_behind (f := fun f => f.keep args result)
          (fun f => f.keep_raised dead.size args result) index

omit relocate in
theorem relocates_blockCode (index : Nat) (b : Block) :
    Relocates dead none (BlockCode.raised dead.size) (blockCode index b)
      (blockCode index (b.raised dead.size)) := by
  have same : (b.raised dead.size).code = b.code.map (BlockCode.raised dead.size) := rfl
  unfold blockCode
  rw [same]
  cases b.code with
  | some code => exact .pure code
  | none =>
    refine .bind (.read fun s => b.compile_raised (s.raises_behind dead)) fun code => ?_
    refine .bind (.modify fun s => ?_) fun _ => .pure code
    exact Session.modifyBlock_behind (f := fun b => { b with code := some code })
      (fun _ => rfl) index

omit relocate in
theorem relocates_setUnknown (b : Block) (x : Float) (unit : Option ValueUnit) :
    Relocates dead none id (setUnknown b x unit) (setUnknown (b.raised dead.size) x unit) :=
  .modify fun s => s.store_behind dead none b.parameter _

theorem relocates_blockBounds (b : Block) (code : BlockCode) :
    Relocates dead none id (blockBounds calls b code)
      (blockBounds calls' (b.raised dead.size) (code.raised dead.size)) := by
  unfold blockBounds
  refine .bind (code.lower.relocates_run relocate) fun lower => ?_
  have same : (code.raised dead.size).upper = code.upper.map (Code.raised dead.size) := rfl
  rw [same]
  cases code.upper with
  | none => exact .pure _
  | some upper =>
    refine .bind (upper.relocates_run relocate) fun upper => ?_
    have aligned : (b.raised dead.size).alignedBound lower upper = b.alignedBound lower upper := by
      unfold Block.alignedBound
      cases both : b.upper <;> simp [Block.raised, Part.raised, both]
    dsimp only [id]
    rw [aligned]
    exact .bind (.same _) fun upper => .pure (lower, upper)

theorem relocates_blockTarget (b : Block) (code : BlockCode) (lower upper : Value) :
    Relocates dead none id (blockTarget calls b code lower upper)
      (blockTarget calls' (b.raised dead.size) (code.raised dead.size) lower upper) := by
  have method : (b.raised dead.size).method = b.method := rfl
  have same : (code.raised dead.size).equation = code.equation.map (Code.raised dead.size) := rfl
  have aligned (unit : Option ValueUnit) (first second : Value) :
      (b.raised dead.size).alignedTarget unit first second =
        b.alignedTarget unit first second := by
    unfold Block.alignedTarget
    cases side : b.equation <;> simp [Block.raised, Part.raised, side]
  unfold blockTarget
  rw [method, same]
  cases b.method with
  | root =>
    cases code.equation with
    | none => exact .pure 0
    | some equation =>
      refine .bind (code.objective.relocates_run relocate) fun objective => ?_
      refine .bind (equation.relocates_run relocate) fun first => ?_
      refine .bind (relocates_setUnknown b _ _) fun _ => ?_
      refine .bind (equation.relocates_run relocate) fun second => ?_
      refine .bind (relocates_setUnknown b _ _) fun _ => ?_
      dsimp only [id]
      rw [aligned]
      exact .same _
  | _ => exact .pure 0

theorem relocates_evaluateBlock (index : Nat) :
    Relocates dead none id (evaluateBlock calls index) (evaluateBlock calls' index) := by
  refine .get_bind fun s => ?_
  rw [Session.getElem?_blocks_behind]
  cases s.blocks[index]? with
  | none => exact .throw _
  | some b =>
    have name : (b.raised dead.size).unknownName = b.unknownName := Token.content_mapCell _ _
    refine .bind relocates_checkCancelled fun _ => ?_
    refine .bind (relocates_blockCode index b) fun code => ?_
    refine .bind (relocates_blockBounds relocate b code) fun bounds => ?_
    refine .bind (relocates_setUnknown b _ _) fun _ => ?_
    refine .bind (relocates_blockTarget relocate b code _ _) fun target => ?_
    simp only [blockProblem, bind_assoc, pure_bind]
    refine .get_bind fun s' => ?_
    rw [s'.precision_behind]
    -- The method only runs the objective, so it does the same too.
    have objective (x : Float) : Relocates dead none id
        (do checkCancelled; setUnknown b x bounds.1.unit; code.objective.run calls)
        (do checkCancelled; setUnknown (b.raised dead.size) x bounds.1.unit
            (code.objective.raised dead.size).run calls') :=
      .bind relocates_checkCancelled fun _ => .bind (relocates_setUnknown b x _) fun _ =>
        code.objective.relocates_run relocate
    have computed := b.method.relocates_compute
      ⟨fun x => do checkCancelled; setUnknown b x bounds.1.unit; code.objective.run calls,
        s'.settings.complex, bounds.1.unit, s'.precision⟩
      objective bounds.1.re bounds.2.re target none
    refine .bind (.tryCatch computed fun e => ?_) fun answer => ?_
    · rw [name]
      exact .throw _
    have text := b.text_raised dead.size
    have checked : Relocates dead none id
        (get >>= fun s' : Session => if (answer.1.re.isNaN && !s'.isPlotting) = true then do
            throw (CalcError.noSolution b.text)
            return ({ num := answer.1, unit := answer.2 } : Value)
          else return { num := answer.1, unit := answer.2 })
        (get >>= fun s' : Session => if (answer.1.re.isNaN && !s'.isPlotting) = true then do
            throw (CalcError.noSolution b.text)
            return ({ num := answer.1, unit := answer.2 } : Value)
          else return { num := answer.1, unit := answer.2 }) :=
      .get_bind fun _ => .guard (.pure _)
    have extremum : (b.raised dead.size).extremum = b.extremum.map (dead.size + ·) := rfl
    rw [extremum, text]
    cases b.extremum with
    | none => exact checked
    | some place =>
      refine .bind (.modify fun s' => ?_) fun _ => checked
      have cell : (s'.behind dead none).cell (b.raised dead.size).parameter = s'.cell b.parameter :=
        s'.cell_behind dead none b.parameter
      rw [cell]
      exact s'.assign_behind dead none place _

end SessionM

open SessionM

theorem Calls.relocate_ofDepth (depth : Nat) : (ofDepth depth).Relocate dead (ofDepth depth) := by
  induction depth with
  | zero => exact ⟨fun _ _ => .throw _, fun _ => .throw _⟩
  | succ depth ih => exact ⟨relocates_evaluateCall ih, relocates_evaluateBlock ih⟩

theorem Session.calls_behind (s : Session) : (s.behind dead none).calls = s.calls := by
  rw [calls, calls, behind, Array.size_map, Array.size_map]

/-! ## Programs -/

namespace Postfix

variable {calls calls' : Calls} (relocate : calls.Relocate dead calls')

theorem relocates_push (m : Machine) (stack : List Value) (value : Value) :
    Relocates dead none id (m.push stack value) (m.push stack value) :=
  .ite (.pure _) (.throw _)

theorem relocates_readVariable (cell : Option CellId) (name : String) :
    Relocates dead none id (readVariable cell name)
      (readVariable (cell.map (dead.size + ·)) name) := by
  refine .get_bind fun s => ?_
  have same : (cell.map (dead.size + ·)).bind (s.behind dead none).assigned? =
      cell.bind s.assigned? := by
    cases cell with
    | none => rfl
    | some id => exact s.assigned?_behind dead none id
  rw [same]
  split
  · exact .pure _
  · exact .bind (relocates_unitValue name) fun value => .pure (value, false)

include relocate in
theorem relocates_step (m : Machine) (t : Token) :
    Relocates dead none id (step calls m t) (step calls' m (t.raised dead.size)) := by
  cases t with
  | constant value name | unit value name =>
    cases value with
    | some value => exact relocates_push m _ value
    | none => exact .throw _
  | input value =>
    cases value with
    | some value => exact relocates_push m _ value
    | none => exact .throw _
  | «variable» cell name =>
    exact .bind (relocates_readVariable cell name) fun r =>
      relocates_push { m with readsVariable := m.readsVariable || r.2 } _ r.1
  | negation | factorial | function =>
    unfold step
    dsimp only [Token.mapCell]
    split
    · exact .bind (relocates_applyFunction _ _) fun value => relocates_push m _ value
    · exact .throw _
  | operator =>
    unfold step
    dsimp only [Token.mapCell]
    split
    · exact .bind (relocates_applyOperator _ _ _) fun value => relocates_push m _ value
    · exact .throw _
  | binaryFunction =>
    unfold step
    dsimp only [Token.mapCell]
    split
    · exact .bind (relocates_applyBinaryFunction _ _ _) fun value => relocates_push m _ value
    · exact .throw _
  | conditional =>
    unfold step
    dsimp only [Token.mapCell]
    split
    · exact relocates_push m _ _
    · exact .throw _
  | multiFunction name count =>
    exact .ite (.bind (relocates_applyMultiFunction _ _) fun value => relocates_push m _ value)
      (.throw _)
  | call index name count =>
    cases index with
    | none => exact .throw _
    | some index =>
      exact .ite (.bind (relocate.function index _) fun value => relocates_push m _ value)
        (.throw _)
  | block index => exact .bind (relocate.block index) fun value => relocates_push m _ value
  | blank | openBracket | closeBracket | separator => exact .throw _

theorem relocates_assignTo (target : Token) (m : Machine) (value : Value) :
    Relocates dead none id (assign target m value) (assign (target.raised dead.size) m value) := by
  cases target with
  | «variable» cell name =>
    cases cell with
    | none => exact .throw _
    | some cell =>
      refine .get_bind fun s => .bind (relocates_assign cell value) fun _ => ?_
      rw [s.assigned?_behind]
      exact .pure _
  | unit old name =>
    cases old with
    | none => exact .bind (relocates_defineUnit name value) fun _ => .pure _
    | some old => exact .throw _
  | _ => exact .throw _

theorem relocates_finish (unit : Option ValueUnit) (m : Machine) :
    Relocates dead none id (finish unit m) (finish unit m) := by
  unfold finish
  split
  · exact .bind (.same _) fun value => .pure _
  · exact .throw _
  · exact .throw _

include relocate in
theorem relocates_runFrom (target : Option Token) (unit : Option ValueUnit) (m : Machine)
    (program : List Token) :
    Relocates dead none id (runFrom calls target unit m program)
      (runFrom calls' (target.map (Token.raised dead.size)) unit m
        (program.map (Token.raised dead.size))) := by
  induction program generalizing m with
  | nil => exact relocates_finish unit m
  | cons t rest ih =>
    rw [List.map_cons]
    unfold runFrom
    rw [Token.isAssignment_mapCell]
    refine .ite ?_ (.bind (relocates_step relocate m t) fun m => ih m)
    cases target with
    | none => exact .throw _
    | some target =>
      cases m.stack with
      | nil => exact .throw _
      | cons value stack => exact .bind (.same _) fun value => relocates_assignTo target m value

theorem assignee?_raised (n : Nat) (program : List Token) :
    assignee? (program.map (Token.raised n)) =
      (assignee? program).map (Token.raised n) := by
  obtain _ | ⟨t, _ | ⟨u, rest⟩⟩ := program
  · rfl
  · rfl
  · have last : ((u :: rest).map (Token.raised n)).getLast?.any Token.isAssignment =
        (u :: rest).getLast?.any Token.isAssignment := by
      rw [List.getLast?_map]
      cases (u :: rest).getLast? with
      | none => rfl
      | some t => exact Token.isAssignment_mapCell _ t
    cases t with
    | «variable» | unit =>
      simp only [List.map_cons, assignee?, Token.mapCell] at last ⊢
      rw [last]
      split <;> rfl
    | _ => rfl

include relocate in
theorem relocates_run (program : List Token) (unit : Option ValueUnit) :
    Relocates dead none id (run calls program unit)
      (run calls' (program.map (Token.raised dead.size)) unit) := by
  refine .bind relocates_checkCancelled fun _ => ?_
  rw [assignee?_raised]
  cases program with
  | nil => exact .throw _
  | cons t rest =>
    cases assignee? (t :: rest) with
    | none => exact relocates_runFrom relocate none unit {} (t :: rest)
    | some target => exact relocates_runFrom relocate (some target) unit {} rest

end Postfix

/-! ## Statements and formulas -/

namespace SessionM

theorem relocates_updateReturnAngles :
    Relocates dead none id updateReturnAngles updateReturnAngles := by
  refine .modify fun s => ?_
  rw [Session.value?_behind]
  rfl

theorem relocates_runProgram (program : List Token) (unit : Option ValueUnit) :
    Relocates dead none id (runProgram program unit)
      (runProgram (program.map (Token.raised dead.size)) unit) := by
  refine .bind relocates_updateReturnAngles fun _ => .get_bind fun s => ?_
  rw [Session.calls_behind]
  refine .tryCatch (Postfix.relocates_run (Calls.relocate_ofDepth _) program unit) fun e => ?_
  exact .ite (.bind (.modify fun _ => rfl) fun _ => .throw e) (.throw e)

/-- Statements that were read elsewhere evaluate to the same. -/
theorem relocates_runStatement (statement : Statement) :
    Relocates dead none id (runStatement statement)
      (runStatement (statement.raised dead.size)) := by
  refine .get_bind fun s => .guard (.ite (.pure _) ?_)
  exact relocates_runProgram statement.program statement.unit

/-- An expression is compiled in the same way. -/
theorem relocates_compile (text : String) (names : List String) :
    Relocates dead none (Formula.raised dead.size) (compile text names) (compile text names) := by
  refine .bind (relocates_parsePlotted text) fun statement => .guard ?_
  refine .bind (relocates_newParameters names) fun parameters => ?_
  refine .bind (relocates_bindProgram parameters statement.program) fun program => ?_
  refine .bind (.read fun s => (s.raises_behind dead).ofPostfix program) fun code => ?_
  have cells : (raisedNames dead.size parameters).map Prod.snd =
      (parameters.map Prod.snd).map (dead.size + ·) := by
    simp only [raisedNames, List.map_map]
    rfl
  rw [cells]
  exact .pure (⟨parameters.map Prod.snd, code, statement.unit⟩ : Formula)

end SessionM

/-- A formula that was compiled elsewhere has the same values. -/
theorem Formula.relocates_call (e : Formula) (args : List Value) :
    Relocates dead none id (e.call args) ((e.raised dead.size).call args) := by
  have length : (e.raised dead.size).parameters.length = e.parameters.length := List.length_map _
  unfold Formula.call
  rw [length]
  refine .guard (.bind (.modify fun s => s.storeAll_behind dead none e.parameters args) fun _ => ?_)
  refine .get_bind fun s => ?_
  rw [Session.calls_behind]
  exact .bind (e.code.relocates_run (Calls.relocate_ofDepth _)) fun value => .same _

end UnitCalc

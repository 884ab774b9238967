/-
# Running expressions on a bounded stack

The interpreter runs the program of an expression on a stack with a fixed number of places. Where the
places suffice, it finds the value of the expression and fails as that does. Where they do not, it
evaluates complete operands until their values fill the stack, and then refuses the value of the next
token, unless something failed before.

## Main definitions

* `Postfix.advance` is a step of the interpreter on the stack alone.
* `Expression.Puts`: the program of an expression puts its value on a stack.

## Main results

* `Expression.puts`: every expression puts its value on a stack with enough places.
* `Expression.overflows`: operands for all places and one more token overflow the stack.
* `Expression.run_program`: the run of a program is the value of its expression, or overflows.
-/

import UnitCalc.Proofs.Postfix.Expression
import UnitCalc.Proofs.Postfix.Interpretation

namespace UnitCalc

open SessionM

/-! ## Steps on the stack alone -/

namespace Postfix

variable {calls : Calls} {unit : Option ValueUnit} {t : Token} {stack : List Value}

/-- Puts a value on the stack, which has a fixed number of places. -/
def place (stack : List Value) (value : Value) : SessionM (List Value) :=
  if stack.length < stackSize then return value :: stack else throw .stackOverflow

/-- Runs a token of a program without an assignee. -/
def advance (calls : Calls) (stack : List Value) (t : Token) : SessionM (List Value) :=
  if t.isAssignment then throw .assignmentWithoutTarget
  else Machine.stack <$> step calls { stack } t

/-- The result of a run that ends with a stack. -/
def conclude (unit : Option ValueUnit) (stack : List Value) : SessionM Value :=
  Outcome.value <$> finish unit { stack }

theorem conclude_singleton (value : Value) :
    conclude unit [value] = ofExcept (value.applyTarget unit) := by
  simp only [conclude, finish, map_bind, map_pure, bind_pure]

theorem throw_bind {α β : Type} (e : CalcError) (f : α → SessionM β) :
    (throw e : SessionM α) >>= f = throw e := rfl

theorem map_throw {α β : Type} (e : CalcError) (f : α → β) :
    f <$> (throw e : SessionM α) = throw e := rfl

theorem stack_push (m : Machine) (stack : List Value) (value : Value) :
    Machine.stack <$> m.push stack value = place stack value := by
  unfold Machine.push place
  split
  · rw [map_pure]
  · rw [map_throw]

/-- The result of an operation is put on the stack. -/
theorem stack_bind_push (x : SessionM Value) (m : Machine) (stack : List Value) :
    Machine.stack <$> (x >>= m.push stack) = x >>= place stack := by
  rw [map_bind]
  exact bind_congr fun value => stack_push m stack value

/-- What a step does to the stack does not depend on the variables that were read. -/
theorem stack_step (m : Machine) (t : Token) :
    Machine.stack <$> step calls m t = Machine.stack <$> step calls { stack := m.stack } t := by
  cases t with
  | constant value | unit value | input value =>
    cases value with
    | none => rfl
    | some value => simp only [step, stack_push]
  | call index =>
    cases index with
    | none => rfl
    | some index =>
      simp only [step]
      split <;> simp only [map_bind, stack_push, map_throw]
  | multiFunction =>
    simp only [step]
    split <;> simp only [map_bind, stack_push, map_throw]
  | «variable» | block => simp only [step, map_bind, stack_push]
  | blank | openBracket | closeBracket | separator => rfl
  | _ =>
    simp only [step]
    split <;> simp only [map_bind, stack_push, map_throw]

/-- The value of a run depends on the stack alone. -/
theorem value_runFrom (program : List Token) (m : Machine) :
    Outcome.value <$> runFrom calls none unit m program =
      program.foldlM (advance calls) m.stack >>= conclude unit := by
  induction program generalizing m with
  | nil =>
    obtain ⟨stack, readsVariable⟩ := m
    rw [runFrom, List.foldlM_nil, pure_bind]
    obtain _ | ⟨value, _ | ⟨_, _⟩⟩ := stack
    · rfl
    · simp only [conclude, finish, map_bind, map_pure]
    · rfl
  | cons t program ih =>
    rw [runFrom, List.foldlM_cons, bind_assoc, advance]
    split
    · rw [map_throw, throw_bind]
    · rw [map_bind, ← stack_step m t, bind_map_left]
      exact bind_congr fun m' => ih m'

/-- The operands of a call lie on top of the stack, the last one first. -/
theorem operands_on_top {args : List Value} (rest : List Value) (count : Nat)
    (length : args.length = count) :
    count ≤ (args.reverse ++ rest).length ∧ ((args.reverse ++ rest).take count).reverse = args ∧
      (args.reverse ++ rest).drop count = rest := by
  rw [← List.length_reverse] at length
  subst length
  simp

/-- A step takes the operands of a token from the stack, and puts its value in their place. -/
theorem advance_eq (args rest : List Value) (length : args.length = t.arity) :
    advance calls (args.reverse ++ rest) t = t.operate calls args >>= place rest := by
  cases t with
  | constant value | unit value | input value =>
    obtain rfl := List.length_eq_zero_iff.1 length
    cases value with
    | none => rfl
    | some value => exact stack_push _ _ _
  | «variable» =>
    obtain rfl := List.length_eq_zero_iff.1 length
    rw [Token.operate, bind_map_left]
    simp only [advance, Token.isAssignment, Token.isOperator, step, map_bind, stack_push]
    rfl
  | block =>
    obtain rfl := List.length_eq_zero_iff.1 length
    exact stack_bind_push _ _ _
  | negation | factorial | function =>
    obtain ⟨a, rfl⟩ := List.length_eq_one_iff.1 length
    exact stack_bind_push _ _ _
  | binaryFunction =>
    obtain ⟨a, b, rfl⟩ := List.length_eq_two.1 length
    exact stack_bind_push _ _ _
  | operator symbol order =>
    obtain ⟨a, b, rfl⟩ := List.length_eq_two.1 length
    rw [advance, Token.operate]
    split
    · rw [throw_bind]
    · exact stack_bind_push _ _ _
  | conditional =>
    obtain ⟨condition, whenTrue, whenFalse, rfl⟩ := List.length_eq_three.1 length
    exact stack_push _ _ _
  | multiFunction name count =>
    obtain ⟨enough, taken, dropped⟩ := operands_on_top rest count length
    simp only [advance, Token.isAssignment, Token.isOperator, step, if_pos enough, taken, dropped]
    exact stack_bind_push _ _ _
  | call index name count =>
    cases index with
    | none => rfl
    | some index =>
      obtain ⟨enough, taken, dropped⟩ := operands_on_top rest count length
      simp only [advance, Token.isAssignment, Token.isOperator, step, if_pos enough, taken, dropped]
      exact stack_bind_push _ _ _
  | blank | openBracket | closeBracket | separator => rfl

end Postfix

/-! ## Expressions with enough places -/

open Postfix

variable {calls : Calls} {t : Token} {e : Expression} {es : List Expression} {stack : List Value}

/-- What follows computations one after the other gets one result of each. -/
theorem mapM_bind_congr {α β γ : Type} {f : α → SessionM β} {xs : List α}
    {k k' : List β → SessionM γ} (same : ∀ ys, ys.length = xs.length → k ys = k' ys) :
    xs.mapM f >>= k = xs.mapM f >>= k' := by
  induction xs generalizing k k' with
  | nil => simpa using same [] rfl
  | cons a xs ih =>
    simp only [List.mapM_cons, bind_assoc, pure_bind]
    exact bind_congr fun b => ih fun ys length => same (b :: ys) (by simp [length])

theorem failsIn_checkCancelled : FailsIn (·.isOfStack = false) checkCancelled := by
  refine FailsIn.get.bind fun s => ?_
  split
  · exact .throw rfl
  · exact .pure _

namespace Expression

/-- The program of an expression puts its value on a stack that has the places for it. -/
def Puts (calls : Calls) (e : Expression) : Prop :=
  ∀ stack : List Value, stack.length + e.need ≤ stackSize →
    e.program.foldlM (advance calls) stack = (· :: stack) <$> e.evaluate calls

/-- Expressions one after the other put their values on the stack. -/
theorem puts_all (each : ∀ e ∈ es, Puts calls e) {room : Nat} (fit : Fit room es)
    (places : stack.length + room ≤ stackSize) :
    (es.flatMap program).foldlM (advance calls) stack =
      (fun args => args.reverse ++ stack) <$> es.mapM (evaluate calls) := by
  -- The induction is on the expressions: each one leaves a place less for those behind it.
  induction es generalizing stack room with
  | nil => simp
  | cons e es ih =>
    rw [List.forall_mem_cons] at each
    obtain ⟨room, rfl⟩ := exists_room fit
    obtain ⟨first, fit⟩ := fit_cons_iff.1 fit
    rw [List.flatMap_cons, List.foldlM_append, each.1 stack (by omega), bind_map_left,
      List.mapM_cons, map_bind]
    refine bind_congr fun value => ?_
    rw [ih each.2 fit (by rw [List.length_cons]; omega)]
    simp

/-- Every expression puts its value on a stack that has the places for it. -/
theorem puts (e : Expression) : Puts calls e := by
  induction e with
  | node t operands ih =>
    intro stack places
    have each : ∀ e ∈ List.ofFn operands, Puts calls e := List.forall_mem_ofFn_iff.2 ih
    obtain ⟨positive, fit⟩ := need_le_iff.1 (Nat.le_refl (node t operands).need)
    have space : stack.length < stackSize := by omega
    have placed : place stack = fun value => pure (value :: stack) := by
      funext value
      exact if_pos space
    calc (node t operands).program.foldlM (advance calls) stack
      _ = (List.ofFn operands).mapM (evaluate calls) >>= fun args =>
            advance calls (args.reverse ++ stack) t := by
        rw [program_node, List.foldlM_append, puts_all each fit places, bind_map_left]
        simp
      _ = (List.ofFn operands).mapM (evaluate calls) >>= fun args =>
            t.operate calls args >>= place stack :=
        mapM_bind_congr fun args length => advance_eq args stack (by rw [length, List.length_ofFn])
      _ = (· :: stack) <$> (node t operands).evaluate calls := by
        rw [← bind_assoc, ← evaluate_node, placed, map_eq_pure_bind]

/-! ## Expressions without enough places -/

/-- Operands fill the stack, and there is no place for one more value. -/
theorem overflows {ready : List Expression} (full : ready.length = stackSize)
    (fit : Fit stackSize ready) (leaf : t.arity = 0) (later : List Token) :
    (ready.flatMap program ++ t :: later).foldlM (advance calls) [] = (do
      let _ ← ready.mapM (evaluate calls)
      let _ ← t.operate calls []
      throw .stackOverflow) := by
  rw [List.foldlM_append, puts_all (fun e _ => e.puts) fit (Nat.le_of_eq (Nat.zero_add _)),
    bind_map_left]
  refine mapM_bind_congr fun args length => ?_
  have refused (value : Value) : place args.reverse value = throw .stackOverflow :=
    if_neg (by rw [List.length_reverse, length, full]; exact Nat.lt_irrefl _)
  have step : advance calls args.reverse t = t.operate calls [] >>= place args.reverse :=
    advance_eq [] args.reverse leaf.symm
  rw [List.append_nil, List.foldlM_cons, step, bind_assoc]
  exact bind_congr fun value => by rw [refused, throw_bind]

/-! ## Runs of programs -/

/-- A program that does not assign leaves its value on the stack. -/
theorem value_run {program : List Token} (calls : Calls) (unit : Option ValueUnit)
    (some : program ≠ []) (plain : assignee? program = none) :
    Outcome.value <$> run calls program unit =
      checkCancelled >>= fun _ => program.foldlM (advance calls) [] >>= conclude unit := by
  unfold run
  rw [plain, map_bind]
  cases program with
  | nil => exact absurd rfl some
  | cons t rest => exact bind_congr fun _ => value_runFrom _ _

theorem program_ne_nil (e : Expression) : e.program ≠ [] := by
  cases e with
  | node t operands => simp [program_node]

/-- Where the stack has the places that an expression needs, the run of its program finds its value
and fails as that does. Only calls and blocks of others can fail for the stack then. Where there are
not enough places, the run fails: for the stack, if nothing failed while operands filled it and the
value of the next token was found. -/
theorem run_program (calls : Calls) (e : Expression) (unit : Option ValueUnit)
    (plain : assignee? e.program = none) :
    (e.need ≤ stackSize →
      Outcome.value <$> run calls e.program unit = (do
        checkCancelled
        let value ← e.evaluate calls
        ofExcept (value.applyTarget unit)) ∧
      ((∀ index args, FailsIn (·.isOfStack = false) (calls.function index args)) →
        (∀ index, FailsIn (·.isOfStack = false) (calls.block index)) →
        FailsIn (·.isOfStack = false) (run calls e.program unit))) ∧
    (stackSize < e.need → ∃ (ready : List Expression) (t : Token) (later : List Token),
      ready.length = stackSize ∧ t.arity = 0 ∧
      e.program = ready.flatMap program ++ t :: later ∧
      Outcome.value <$> run calls e.program unit = (do
        checkCancelled
        let _ ← ready.mapM (evaluate calls)
        let _ ← t.operate calls []
        throw .stackOverflow)) := by
  have ran := value_run calls unit e.program_ne_nil plain
  refine ⟨fun enough => ?_, fun more => ?_⟩
  · have evaluated : Outcome.value <$> run calls e.program unit = (do
        checkCancelled
        let value ← e.evaluate calls
        ofExcept (value.applyTarget unit)) := by
      rw [ran, e.puts [] (by simpa using enough), bind_map_left]
      simp only [conclude_singleton]
    refine ⟨evaluated, fun function block => .of_map (f := Outcome.value) ?_⟩
    rw [evaluated]
    refine failsIn_checkCancelled.bind fun _ => ?_
    exact (e.failsIn_evaluate function block).bind fun value =>
      (FailsIn.ofExcept (value.operates_applyTarget unit)).mono fun _ =>
        CalcError.isOfStack_of_isOfOperands
  · obtain ⟨ready, t, later, listed, leaf, full, fit⟩ := e.exists_filling more
    refine ⟨ready, t, later, full, leaf, listed, ?_⟩
    rw [ran, listed, overflows full fit leaf]
    simp only [bind_assoc, throw_bind]

/-- A sum that is nested to the right: one plus a sum in brackets, and so on. -/
def nestedSum : Nat → Expression
  | 0 => node (.constant (some (.real 1)) "1") nofun
  | n + 1 => node (.operator '+' Operator.add.order) fun i =>
      if i.val = 0 then nestedSum 0 else nestedSum n

theorem need_nestedSum (n : Nat) : (nestedSum n).need = n + 1 := by
  induction n with
  | zero => simp [nestedSum, need, Token.arity]
  | succ n ih =>
    simp [nestedSum, need, Token.arity, ih]
    omega

theorem assignee?_nestedSum (n : Nat) : assignee? (nestedSum n).program = none := by
  have ordinary (n : Nat) : ∀ t ∈ (nestedSum n).program, t.isAssignment = false := by
    induction n with
    | zero => simp [nestedSum, program, Token.arity, Token.isAssignment, Token.isOperator]
    | succ n ih =>
      simpa [nestedSum, program, Token.arity, Token.isAssignment, Token.isOperator, or_imp,
        forall_and] using ih
  exact assignee?_eq_none (ordinary n)

/-- Calls and blocks that find the same value always. -/
def constantCalls (value : Value) : Calls :=
  ⟨fun _ _ => return value, fun _ => return value⟩

/-- A sum in fifty brackets has a value, and one in a hundred brackets overflows. -/
theorem run_nestedSum :
    FailsIn (·.isOfStack = false) (run (constantCalls .undefined) (nestedSum 50).program none) ∧
    ∃ (ready : List Expression) (t : Token) (later : List Token),
      ready.length = stackSize ∧ t.arity = 0 ∧
      (nestedSum 100).program = ready.flatMap program ++ t :: later ∧
      Outcome.value <$> run (constantCalls .undefined) (nestedSum 100).program none = (do
        checkCancelled
        let _ ← ready.mapM (evaluate (constantCalls .undefined))
        let _ ← t.operate (constantCalls .undefined) []
        throw .stackOverflow) := by
  obtain ⟨shallow, -⟩ := run_program (constantCalls .undefined) (nestedSum 50) none
    (assignee?_nestedSum 50)
  obtain ⟨-, deep⟩ := run_program (constantCalls .undefined) (nestedSum 100) none
    (assignee?_nestedSum 100)
  rw [need_nestedSum] at shallow deep
  exact ⟨(shallow (by decide)).2 (fun _ _ => .pure _) fun _ => .pure _, deep (by decide)⟩

end Expression

end UnitCalc

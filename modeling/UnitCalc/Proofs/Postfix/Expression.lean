/-
# Expressions and their values

An expression is a token over as many operands as the token takes. Its value in a session is found
from the values of its operands, which are evaluated from left to right until one fails. Nothing is
said here about a stack. How many places of one an expression needs, when its program is run, follows
from its shape: while an operand is evaluated, the values of those before it wait.

## Main definitions

* `Token.operate`: what a token does with the values of its operands.
* `Expression` is a token over its operands, with its `program` and its value, `evaluate`.
* `Expression.need`: the places that an expression needs.
* `SessionM.FailsIn`: all errors of a computation are of a kind.

## Main results

* `Expression.need_le_iff`: the room for an expression in terms of its operands.
* `Expression.failsIn_evaluate`: an expression never fails for the stack by itself.
-/

import Mathlib.Data.List.OfFn
import UnitCalc.Proofs.Calculator.Failures
import UnitCalc.Proofs.Session.Outcome
import UnitCalc.Session.Interpreter

namespace UnitCalc

open SessionM

/-- The error is about the stack of a run: it lacks values, has too many of them, or no place. -/
def CalcError.isOfStack : CalcError → Bool
  | .stackEmpty | .missingOperand | .valuesLeft | .stackOverflow => true
  | _ => false

theorem CalcError.isOfStack_of_isOfOperands {e : CalcError} (operands : e.isOfOperands = true) :
    e.isOfStack = false := by
  cases e <;> first | rfl | simp [isOfOperands] at operands

/-- What a token does with the values of its operands. An assignment has no value, since it is not a
part of an expression, and what is no token of a program is illegal. -/
def Token.operate (calls : Calls) (t : Token) (args : List Value) : SessionM Value :=
  match t, args with
  | .constant (some value) _, _ | .unit (some value) _, _ | .input (some value), _ => return value
  | .constant none name, _ | .unit none name, _ => throw (.undefinedName name)
  | .input none, _ => throw .undefinedInput
  | .variable cell name, _ => Prod.fst <$> Postfix.readVariable cell name
  | .negation _, [a] => applyFunction .negate a
  | .operator symbol order, [a, b] =>
    if (Token.operator symbol order).isAssignment then throw .assignmentWithoutTarget
    else applyOperator (Token.operatorOf symbol) a b
  | .factorial, [a] => applyFunction .factorial a
  | .function name, [a] => applyFunction (Token.functionOf name) a
  | .binaryFunction name, [a, b] => applyBinaryFunction (Token.binaryFunctionOf name) a b
  | .conditional, [condition, whenTrue, whenFalse] =>
    return if condition.isFalse then whenFalse else whenTrue
  | .multiFunction name _, args => applyMultiFunction (Token.multiFunctionOf name) args
  | .call none name _, _ => throw (.functionNotDefined name)
  | .call (some index) _ _, args => calls.function index args
  | .block index _, _ => calls.block index
  | t, _ => throw (.illegalPair t.content "")

/-- A token over as many operands as it takes. -/
inductive Expression where
  | node (t : Token) (operands : Fin t.arity → Expression)

namespace Expression

/-- Operands stand before the token that takes them. -/
def program : Expression → List Token
  | node t operands => (List.ofFn fun i => (operands i).program).flatten ++ [t]

/-- The places on the stack that an expression needs. While an operand is evaluated, the values of
those before it wait, and at the end the value of the expression takes a place. -/
def need : Expression → Nat
  | node _ operands => (List.ofFn fun i => i.val + (operands i).need).foldr max 1

/-- The value of an expression. Operands are evaluated from left to right. -/
def evaluate (calls : Calls) : Expression → SessionM Value
  | node t operands => do
    let args ← (List.ofFn fun i => (operands i).evaluate calls).mapM id
    t.operate calls args

/-- There is room for expressions that are evaluated one after the other: before each of them, the
values of the earlier ones are there. -/
def Fit (room : Nat) (es : List Expression) : Prop :=
  ∀ (i : Nat) (inside : i < es.length), i + es[i].need ≤ room

variable {calls : Calls} {t : Token} {operands : Fin t.arity → Expression} {e : Expression}
  {es : List Expression} {room : Nat}

theorem program_node :
    (node t operands).program = (List.ofFn operands).flatMap program ++ [t] := by
  rw [program, List.flatMap, List.map_ofFn]
  rfl

theorem evaluate_node : (node t operands).evaluate calls =
    (List.ofFn operands).mapM (evaluate calls) >>= t.operate calls := by
  have actions : (List.ofFn fun i => (operands i).evaluate calls) =
      (List.ofFn operands).map (evaluate calls) := List.map_ofFn.symm
  rw [evaluate, actions, List.mapM_map]
  rfl

theorem foldr_max_le_iff {ns : List Nat} {m n : Nat} :
    ns.foldr max m ≤ n ↔ m ≤ n ∧ ∀ k ∈ ns, k ≤ n := by
  induction ns with
  | nil => simp
  | cons k ns ih =>
    rw [List.foldr_cons, Nat.max_le, ih, List.forall_mem_cons, and_left_comm]

/-- There is room for an expression when there is room for its operands and for its value. -/
theorem need_le_iff :
    (node t operands).need ≤ room ↔ 1 ≤ room ∧ Fit room (List.ofFn operands) := by
  have operandwise : (∀ n ∈ List.ofFn fun i => i.val + (operands i).need, n ≤ room) ↔
      Fit room (List.ofFn operands) := by
    simp only [List.forall_mem_ofFn_iff, Fin.forall_iff, Fit, List.length_ofFn, List.getElem_ofFn]
  rw [need, foldr_max_le_iff, operandwise]

theorem one_le_need (e : Expression) : 1 ≤ e.need := by
  cases e with
  | node t operands => exact (need_le_iff.1 (Nat.le_refl _)).1

theorem fit_cons_iff : Fit (room + 1) (e :: es) ↔ e.need ≤ room + 1 ∧ Fit room es := by
  unfold Fit
  constructor
  · intro fit
    have first := fit 0 (by simp)
    rw [List.getElem_cons_zero, Nat.zero_add] at first
    refine ⟨first, fun i inside => ?_⟩
    have next := fit (i + 1) (by simpa using inside)
    rw [List.getElem_cons_succ] at next
    omega
  · rintro ⟨first, rest⟩ i inside
    cases i with
    | zero => rwa [List.getElem_cons_zero, Nat.zero_add]
    | succ i =>
      have next := rest i (by simpa using inside)
      rw [List.getElem_cons_succ]
      omega

theorem exists_room (fit : Fit room (e :: es)) : ∃ left, room = left + 1 := by
  have first := fit 0 (by simp)
  rw [List.getElem_cons_zero] at first
  have positive := e.one_le_need
  exact ⟨room - 1, by omega⟩

theorem fit_append {ready : List Expression} (fit : Fit room ready)
    (places : ready.length ≤ room) (rest : Fit (room - ready.length) es) :
    Fit room (ready ++ es) := by
  induction ready generalizing room with
  | nil => exact rest
  | cons e ready ih =>
    obtain ⟨left, rfl⟩ := exists_room fit
    obtain ⟨first, fit⟩ := fit_cons_iff.1 fit
    rw [List.length_cons, Nat.add_le_add_iff_right] at places
    rw [List.length_cons, Nat.add_sub_add_right] at rest
    exact fit_cons_iff.2 ⟨first, ih fit places rest⟩

/-- The first of the expressions that there is no room for. -/
theorem exists_of_not_fit (full : ¬ Fit room es) :
    ∃ ready e others, es = ready ++ e :: others ∧ Fit room ready ∧ ready.length ≤ room ∧
      room - ready.length < e.need := by
  induction es generalizing room with
  | nil => exact absurd (fun i inside => nomatch inside) full
  | cons e es ih =>
    by_cases first : e.need ≤ room
    · obtain ⟨left, rfl⟩ : ∃ left, room = left + 1 := ⟨room - 1, by have := e.one_le_need; omega⟩
      obtain ⟨ready, e', others, rfl, fit, places, more⟩ :=
        ih fun rest => full (fit_cons_iff.2 ⟨first, rest⟩)
      refine ⟨e :: ready, e', others, rfl, fit_cons_iff.2 ⟨first, fit⟩, ?_, ?_⟩
      · simpa using places
      · simpa using more
    · exact ⟨[], e, es, rfl, fun i inside => (nomatch inside), Nat.zero_le _, by simpa using first⟩

/-- An expression that needs more than some places begins with complete operands for all of them,
and a token without operands behind. -/
theorem exists_filling (e : Expression) (more : room < e.need) :
    ∃ ready t later, e.program = ready.flatMap program ++ t :: later ∧ t.arity = 0 ∧
      ready.length = room ∧ Fit room ready := by
  -- The induction is on the expression. What fills the places is what the operands before the first
  -- one without room leave, and what fills the rest of the room inside of that one.
  induction e generalizing room with
  | node t operands ih =>
    by_cases fit : Fit room (List.ofFn operands)
    · -- There is room for the operands but not for the value, so there are no operands.
      have none : room = 0 := by
        by_contra some
        exact absurd (need_le_iff.2 ⟨Nat.one_le_iff_ne_zero.2 some, fit⟩) (by omega)
      subst none
      cases listed : List.ofFn operands with
      | nil =>
        have leaf : t.arity = 0 := by simpa using congrArg List.length listed
        exact ⟨[], t, [], by rw [program_node, listed], leaf, rfl, fun i => nofun⟩
      | cons e es =>
        rw [listed] at fit
        obtain ⟨left, impossible⟩ := exists_room fit
        cases impossible
    · obtain ⟨ready, e, others, split, fit, places, more⟩ := exists_of_not_fit fit
      have inside : e ∈ List.ofFn operands := by simp [split]
      obtain ⟨i, rfl⟩ := List.mem_ofFn.1 inside
      obtain ⟨ready', u, later, listed, leaf, length, fit'⟩ := ih i more
      refine ⟨ready ++ ready', u, later ++ others.flatMap program ++ [t], ?_, leaf, ?_,
        fit_append fit places fit'⟩
      · simp [program_node, split, listed]
      · rw [List.length_append]
        omega

end Expression

/-! ## Errors -/

namespace SessionM

variable {α β : Type} {F : CalcError → Prop} {x : SessionM α}

/-- All errors of a computation are of a kind. -/
def FailsIn (F : CalcError → Prop) (x : SessionM α) : Prop :=
  ∀ s e, (outcome x s).1 = .error e → F e

namespace FailsIn

theorem mono {G : CalcError → Prop} (fails : FailsIn F x) (more : ∀ e, F e → G e) :
    FailsIn G x :=
  fun s e failed => more e (fails s e failed)

theorem pure (a : α) : FailsIn F (Pure.pure a : SessionM α) :=
  fun _ _ failed => nomatch failed

theorem throw {e : CalcError} (holds : F e) : FailsIn F (MonadExcept.throw e : SessionM α) := by
  intro s e' failed
  cases failed
  exact holds

theorem get : FailsIn F (MonadState.get : SessionM Session) :=
  fun _ _ failed => nomatch failed

theorem modify (f : Session → Session) : FailsIn F (modifyGet fun s => (⟨⟩, f s) : SessionM PUnit) :=
  fun _ _ failed => nomatch failed

theorem bind {f : α → SessionM β} (first : FailsIn F x) (second : ∀ a, FailsIn F (f a)) :
    FailsIn F (x >>= f) := by
  intro s e failed
  rw [outcome_bind] at failed
  cases ended : outcome x s with
  | mk r s' =>
    rw [ended] at failed
    cases r with
    | error e' =>
      cases failed
      exact first s e (by rw [ended])
    | ok a => exact second a s' e failed

theorem map {f : α → β} (fails : FailsIn F x) : FailsIn F (f <$> x) := by
  rw [map_eq_pure_bind]
  exact fails.bind fun a => pure (f a)

/-- A computation whose results are converted has the same errors. -/
theorem of_map {f : α → β} (fails : FailsIn F (f <$> x)) : FailsIn F x := by
  intro s e failed
  refine fails s e ?_
  rw [map_eq_pure_bind, outcome_bind]
  cases ended : outcome x s with
  | mk r s' =>
    rw [ended] at failed
    cases failed
    rfl

theorem ofExcept {r : Except CalcError α} {P : α → Prop} (ends : Ends F P r) :
    FailsIn F (MonadExcept.ofExcept r : SessionM α) := by
  intro s e failed
  rw [outcome_ofExcept] at failed
  change r = .error e at failed
  rw [failed] at ends
  exact ends

theorem read {f : Session → Except CalcError α} {P : α → Prop} (ends : ∀ s, Ends F P (f s)) :
    FailsIn F (SessionM.read f) := by
  intro s e failed
  rw [outcome_read] at failed
  have ended := ends s
  change f s = .error e at failed
  rw [failed] at ended
  exact ended

theorem mapM {f : β → SessionM α} {xs : List β} (each : ∀ b ∈ xs, FailsIn F (f b)) :
    FailsIn F (xs.mapM f) := by
  induction xs with
  | nil => exact pure []
  | cons b xs ih =>
    rw [List.forall_mem_cons] at each
    rw [List.mapM_cons]
    exact each.1.bind fun a => (ih each.2).bind fun as => pure (a :: as)

/-- An operation fails for its operands. -/
theorem operates {f : Session → Except CalcError α} (operates : ∀ s, Operates (f s)) :
    FailsIn (·.isOfStack = false) (SessionM.read f) :=
  (read operates).mono fun _ => CalcError.isOfStack_of_isOfOperands

end FailsIn

end SessionM

section Errors

variable {calls : Calls} {args : List Value}

theorem failsIn_applyFunction (f : Function) (a : Value) :
    FailsIn (·.isOfStack = false) (applyFunction f a) := by
  refine (FailsIn.operates fun s => s.calculator.operates_function f a).bind fun value => ?_
  split
  · exact (FailsIn.modify _).bind fun _ => .pure value
  · exact .pure value

theorem failsIn_readVariable (cell : Option CellId) (name : String) :
    FailsIn (·.isOfStack = false) (Postfix.readVariable cell name) := by
  refine FailsIn.get.bind fun s => ?_
  split
  · exact .pure _
  · refine .bind (FailsIn.get.bind fun s => ?_) fun value => .pure (value, false)
    split
    · exact .pure _
    · exact .throw rfl

/-- The token of an expression fails for its operands, or for what it means. -/
theorem Token.failsIn_operate (t : Token)
    (function : ∀ index args, FailsIn (·.isOfStack = false) (calls.function index args))
    (block : ∀ index, FailsIn (·.isOfStack = false) (calls.block index)) :
    FailsIn (·.isOfStack = false) (t.operate calls args) := by
  have operator (symbol : Char) (order : Int) (a b : Value) :
      FailsIn (·.isOfStack = false) (Token.operate calls (.operator symbol order) [a, b]) := by
    simp only [Token.operate]
    split
    · exact .throw rfl
    · exact .operates fun s => s.calculator.operates_operator _ a b
  unfold Token.operate
  split
  all_goals first
    | exact .pure _
    | exact .throw rfl
    | exact (failsIn_readVariable _ _).map
    | exact failsIn_applyFunction _ _
    | exact operator _ _ _ _
    | exact .operates fun s => s.calculator.operates_binaryFunction _ _ _
    | exact .operates fun s => s.calculator.operates_multiFunction _ _
    | exact function _ _
    | exact block _

/-- An expression fails for an operation or a name in it, or in a call or a block. -/
theorem Expression.failsIn_evaluate
    (function : ∀ index args, FailsIn (·.isOfStack = false) (calls.function index args))
    (block : ∀ index, FailsIn (·.isOfStack = false) (calls.block index)) (e : Expression) :
    FailsIn (·.isOfStack = false) (e.evaluate calls) := by
  induction e with
  | node t operands ih =>
    rw [evaluate_node]
    refine .bind (.mapM ?_) fun args => t.failsIn_operate function block
    exact List.forall_mem_ofFn_iff.2 ih

end Errors

end UnitCalc

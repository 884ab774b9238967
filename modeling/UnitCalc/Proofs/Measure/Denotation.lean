/-
# What unit expressions denote

The value of an expression is computed along its tree, operands from left to right. Ordering the
tokens of an expression by precedence lists its tree behind its operands, and evaluating that list
on a stack gives the value of the tree. A list that begins with an operator has as many operators as
operands, so its evaluation never ends in a unit.

## Main definitions

* `UnitTree.evaluate`: the value of an expression.
* `UnitTree.IsMeaningful`: numbers are valid, names are known, and exponents are no units.

## Main results

* `UnitTree.Derives.postfixOrder`: the order of precedence is the postfix order of the tree.
* `UnitTree.Derives.fold`: evaluating it gives the value of the tree, or the same error.
* `MeasureUnit.parse_eq_ok_iff`: which texts denote a unit, and which one.
-/

import UnitCalc.Measure.Catalogue
import UnitCalc.Number.Double
import UnitCalc.Proofs.Measure.Grammar
import UnitCalc.Proofs.Measure.Spelling

namespace UnitCalc

variable {R E : Type} [Scalar R] [Exponent E] [Narrowing R E]

namespace UnitTree

open UnitToken (postfixFrom yieldsTo step)

/-! ## Values of trees -/

/-- The value of an expression. Operands are evaluated from left to right, and the first error
counts. -/
def evaluate (find : String → Option (MeasureUnit R E)) :
    UnitTree → Except MeasureError (UnitOperand R E)
  | .number text => match Scalar.read text with
    | some k => .ok (.number k)
    | none => .error (.invalidNumber text)
  | .name text => match find text with
    | some u => .ok (.unit u)
    | none => .error (.unknownUnit text)
  | .op o a b => do
    let x ← a.evaluate find
    let y ← b.evaluate find
    UnitOperand.apply o x y

variable {find : String → Option (MeasureUnit R E)} {tree a b : UnitTree} {o : UnitOp}
  {x y : UnitOperand R E}

theorem evaluate_op (left : a.evaluate find = .ok x) (right : b.evaluate find = .ok y) :
    (UnitTree.op o a b).evaluate find = UnitOperand.apply o x y := by
  rw [evaluate, left]
  show (b.evaluate find >>= fun y => UnitOperand.apply o x y) = _
  rw [right]
  rfl

theorem operands_ok {z : UnitOperand R E} (evaluated : (UnitTree.op o a b).evaluate find = .ok z) :
    ∃ x y, a.evaluate find = .ok x ∧ b.evaluate find = .ok y ∧ UnitOperand.apply o x y = .ok z := by
  rw [evaluate] at evaluated
  cases left : a.evaluate find with
  | error e => simp [left, bind, Except.bind] at evaluated
  | ok x =>
    cases right : b.evaluate find with
    | error e => simp [left, right, bind, Except.bind] at evaluated
    | ok y => exact ⟨x, y, rfl, rfl, by simpa [left, right, bind, Except.bind] using evaluated⟩

/-- The numbers of an expression. -/
def numbers : UnitTree → List String
  | .number text => [text]
  | .name _ => []
  | .op _ a b => a.numbers ++ b.numbers

/-- The names of an expression. -/
def names : UnitTree → List String
  | .number _ => []
  | .name text => [text]
  | .op _ a b => a.names ++ b.names

/-- The exponents of an expression. -/
def exponents : UnitTree → List UnitTree
  | .number _ | .name _ => []
  | .op o a b => (if o = .pow then [b] else []) ++ a.exponents ++ b.exponents

/-- Every number is valid, every name is known, and no exponent evaluates to a unit. -/
structure IsMeaningful (find : String → Option (MeasureUnit R E)) (tree : UnitTree) : Prop where
  numbers : ∀ text ∈ tree.numbers, (Number.Literal.read text).isSome = true
  names : ∀ name ∈ tree.names, (find name).isSome = true
  exponents : ∀ exponent ∈ tree.exponents, ∀ u, exponent.evaluate find ≠ .ok (.unit u)

/-- Operations fail only where the exponent is a unit. -/
theorem apply_ok (number : o = .pow → ∀ u, y ≠ .unit u) : ∃ z, UnitOperand.apply o x y = .ok z := by
  cases o <;> cases x <;> cases y <;> first | exact ⟨_, rfl⟩ | exact absurd rfl (number rfl _)

theorem number_of_apply_ok {z : UnitOperand R E} (applied : UnitOperand.apply o x y = .ok z)
    (power : o = .pow) (u : MeasureUnit R E) : y ≠ .unit u := by
  rintro rfl
  subst power
  cases x <;> cases applied

theorem isMeaningful_op : (UnitTree.op o a b).IsMeaningful find ↔
    a.IsMeaningful find ∧ b.IsMeaningful find ∧
      (o = .pow → ∀ u, b.evaluate find ≠ .ok (.unit u)) := by
  constructor
  · rintro ⟨numbers, names, exponents⟩
    simp only [UnitTree.numbers, UnitTree.names, UnitTree.exponents, List.forall_mem_append]
      at numbers names exponents
    refine ⟨⟨numbers.1, names.1, exponents.1.2⟩, ⟨numbers.2, names.2, exponents.2⟩, ?_⟩
    rintro rfl
    exact exponents.1.1 b (by simp)
  · rintro ⟨left, right, own⟩
    refine ⟨List.forall_mem_append.2 ⟨left.numbers, right.numbers⟩,
      List.forall_mem_append.2 ⟨left.names, right.names⟩, ?_⟩
    refine List.forall_mem_append.2 ⟨List.forall_mem_append.2 ⟨?_, left.exponents⟩, right.exponents⟩
    split
    · next power => simpa using own power
    · simp

/-- An expression has a value exactly when it is meaningful. -/
theorem exists_evaluate_iff : (∃ x, tree.evaluate find = .ok x) ↔ tree.IsMeaningful find := by
  induction tree with
  | number text =>
    constructor
    · rintro ⟨x, evaluated⟩
      refine ⟨fun digits within => ?_, by simp [names], by simp [exponents]⟩
      obtain rfl := List.mem_singleton.1 within
      cases read : Number.Literal.read digits with
      | some literal => rfl
      | none => simp [evaluate, Scalar.read, read] at evaluated
    · intro meaningful
      obtain ⟨literal, read⟩ := Option.isSome_iff_exists.1 (meaningful.numbers text (by simp [numbers]))
      exact ⟨.number (Scalar.ofLiteral literal), by simp [evaluate, Scalar.read, read]⟩
  | name text =>
    constructor
    · rintro ⟨x, evaluated⟩
      refine ⟨by simp [numbers], fun name within => ?_, by simp [exponents]⟩
      obtain rfl := List.mem_singleton.1 within
      cases found : find name with
      | some u => rfl
      | none => simp [evaluate, found] at evaluated
    · intro meaningful
      obtain ⟨u, found⟩ := Option.isSome_iff_exists.1 (meaningful.names text (by simp [names]))
      exact ⟨.unit u, by simp [evaluate, found]⟩
  | op o a b ihLeft ihRight =>
    rw [isMeaningful_op, ← ihLeft, ← ihRight]
    constructor
    · rintro ⟨z, evaluated⟩
      obtain ⟨x, y, left, right, applied⟩ := operands_ok evaluated
      refine ⟨⟨x, left⟩, ⟨y, right⟩, fun power u unit => ?_⟩
      rw [right] at unit
      exact number_of_apply_ok applied power u (Except.ok.inj unit)
    · rintro ⟨⟨x, left⟩, ⟨y, right⟩, number⟩
      rw [evaluate_op left right]
      refine apply_ok fun power u unit => number power u ?_
      rw [right, unit]

/-! ## Postfix order -/

/-- The tokens of an expression in postfix order. -/
def program : UnitTree → List UnitToken
  | .number text => [.number text]
  | .name text => [.name text]
  | .op o a b => a.program ++ b.program ++ [.op o]

/-- What waits on the stack stays there while operators of tighter levels are read. -/
def Stays (level : Nat) (stack : List UnitToken) : Prop :=
  ∀ t ∈ stack.head?, ∀ o : UnitOp, o.level < level → yieldsTo o t = false

variable {level : Nat} {ts pending stack : List UnitToken}

/-- What is on top of a stack up to a token that stays. -/
private theorem span_pending {p : UnitToken → Bool} (yields : ∀ t ∈ pending, p t = true)
    (stays : ∀ t ∈ stack.head?, p t = false) :
    (pending ++ stack).takeWhile p = pending ∧ (pending ++ stack).dropWhile p = stack := by
  rw [List.takeWhile_append_of_pos yields, List.dropWhile_append_of_pos yields]
  cases stack with
  | nil => simp
  | cons t stack => simp [stays t rfl]

/-- Reading an expression puts out its postfix order, up to operators of its levels that wait. -/
theorem Derives.reads (derives : Derives level ts tree) (stack : List UnitToken)
    (stays : Stays level stack) :
    ∃ out pending, out ++ pending = tree.program ∧
      (∀ t ∈ pending, ∃ o : UnitOp, t = .op o ∧ o.level < level) ∧
      ∀ rest, postfixFrom stack (ts ++ rest) = out ++ postfixFrom (pending ++ stack) rest := by
  induction derives generalizing stack with
  | number text => exact ⟨[.number text], [], rfl, by simp, fun _ => rfl⟩
  | name text => exact ⟨[.name text], [], rfl, by simp, fun _ => rfl⟩
  | @bracket ts tree _ ih =>
    obtain ⟨out, pending, whole, waiting, read⟩ :=
      ih (.openBracket :: stack) (by simp [Stays, yieldsTo])
    have inside : ∀ t ∈ pending, (t != .openBracket) = true := by
      intro t within
      obtain ⟨o, rfl, -⟩ := waiting t within
      rfl
    have bracket : ∀ t ∈ (UnitToken.openBracket :: stack).head?, (t != .openBracket) = false := by
      simp
    obtain ⟨taken, dropped⟩ := span_pending inside bracket
    refine ⟨out ++ pending, [], by simpa using whole, by simp, fun rest => ?_⟩
    have opened : postfixFrom stack (.openBracket :: (ts ++ .closeBracket :: rest)) =
        postfixFrom (.openBracket :: stack) (ts ++ .closeBracket :: rest) := rfl
    rw [List.cons_append, List.append_assoc, List.singleton_append, opened, read, postfixFrom, taken,
      dropped, List.append_assoc]
    rfl
  | tighter _ ih =>
    obtain ⟨out, pending, whole, waiting, read⟩ :=
      ih stack fun t top o below => stays t top o (Nat.lt_succ_of_lt below)
    refine ⟨out, pending, whole, fun t within => ?_, read⟩
    obtain ⟨o, rfl, below⟩ := waiting t within
    exact ⟨o, rfl, Nat.lt_succ_of_lt below⟩
  | @op o ts us a b _ _ ihLeft ihRight =>
    obtain ⟨out, pending, left, waiting, read⟩ := ihLeft stack stays
    -- The operators of the left operand bind at least as tightly, so they are applied first.
    have yields : ∀ t ∈ pending, yieldsTo o t = true := by
      intro t within
      obtain ⟨o', rfl, below⟩ := waiting t within
      simpa [yieldsTo] using Nat.le_of_lt_succ below
    obtain ⟨taken, dropped⟩ := span_pending yields fun t top => stays t top o (Nat.lt_succ_self _)
    have stays' : Stays o.level (.op o :: stack) := by
      intro t top o' below
      obtain rfl : .op o = t := by simpa using top
      simpa [yieldsTo] using below
    obtain ⟨out', pending', right, waiting', read'⟩ := ihRight _ stays'
    refine ⟨out ++ pending ++ out', pending' ++ [.op o], ?_, ?_, fun rest => ?_⟩
    · simp [program, ← left, ← right]
    · refine List.forall_mem_append.2 ⟨fun t within => ?_, by simp⟩
      obtain ⟨o', rfl, below⟩ := waiting' t within
      exact ⟨o', rfl, Nat.lt_succ_of_lt below⟩
    · rw [List.append_assoc, List.cons_append, read, postfixFrom, taken, dropped, read']
      simp

/-- The order of precedence is the postfix order of the tree. -/
theorem Derives.postfixOrder (derives : Derives level ts tree) :
    UnitToken.postfixOrder ts = tree.program := by
  obtain ⟨out, pending, whole, -, read⟩ := derives.reads [] (by simp [Stays])
  have all := read []
  rwa [List.append_nil, List.append_nil, postfixFrom, whole] at all

/-- Builds the tree of a token on a stack of trees. -/
def build (trees : List UnitTree) : UnitToken → List UnitTree
  | .number text => .number text :: trees
  | .name text => .name text :: trees
  | .op o => match trees with
    | b :: a :: rest => .op o a b :: rest
    | _ => trees
  | _ => trees

/-- A tree is built again from its postfix order. -/
theorem foldl_build (tree : UnitTree) (trees : List UnitTree) :
    tree.program.foldl build trees = tree :: trees := by
  induction tree generalizing trees with
  | number | name => rfl
  | op o a b ihLeft ihRight =>
    rw [program, List.foldl_append, List.foldl_append, ihLeft, ihRight]
    rfl

/-- A list of tokens is read as one tree at most. -/
theorem Derives.unique {level' : Nat} (derives : Derives level ts a)
    (derives' : Derives level' ts b) : a = b := by
  have left := foldl_build a []
  rw [← derives.postfixOrder, derives'.postfixOrder, foldl_build b []] at left
  exact (List.cons.inj left).1.symm

/-! ## Evaluation on a stack -/

/-- A program puts the value of its expression on the stack. -/
theorem foldlM_program (find : String → Option (MeasureUnit R E)) (tree : UnitTree)
    (values : List (UnitOperand R E)) (rest : List UnitToken) :
    (tree.program ++ rest).foldlM (step find) values =
      tree.evaluate find >>= fun x => rest.foldlM (step find) (x :: values) := by
  induction tree generalizing values rest with
  | number text =>
    rw [program, List.singleton_append, List.foldlM_cons, step, evaluate]
    cases (Scalar.read text : Option R) <;> rfl
  | name text =>
    rw [program, List.singleton_append, List.foldlM_cons, step, evaluate]
    cases find text <;> rfl
  | op o a b ihLeft ihRight =>
    rw [program, List.append_assoc, List.append_assoc, ihLeft, evaluate, bind_assoc]
    congr 1
    funext x
    rw [ihRight, bind_assoc]
    congr 1
    funext y
    rw [List.singleton_append, List.foldlM_cons, step]
    cases UnitOperand.apply o x y <;> rfl

/-- The unit that a value is. -/
def unitOf : UnitOperand R E → Except MeasureError (MeasureUnit R E)
  | .unit u => .ok u
  | .number _ => .error .notUnits

/-- Evaluating the tokens of an expression gives the value of its tree, or the same error. -/
theorem Derives.fold (derives : Derives level ts tree)
    (find : String → Option (MeasureUnit R E)) :
    UnitToken.fold find (UnitToken.postfixOrder ts) = tree.evaluate find >>= unitOf := by
  have evaluated := foldlM_program find tree [] []
  rw [List.append_nil] at evaluated
  rw [derives.postfixOrder, UnitToken.fold, evaluated]
  cases tree.evaluate find with
  | error e => rfl
  | ok x => cases x <;> rfl

/-- No operand is missing in an expression. -/
theorem evaluate_ne_missingOperand (find : String → Option (MeasureUnit R E)) (tree : UnitTree) :
    tree.evaluate find ≠ .error .missingOperand := by
  induction tree with
  | number text =>
    rw [evaluate]
    split <;> simp
  | name text =>
    rw [evaluate]
    split <;> simp
  | op o a b ihLeft ihRight =>
    rw [evaluate]
    cases left : a.evaluate find with
    | error e => simpa [bind, Except.bind, left] using ihLeft
    | ok x =>
      cases right : b.evaluate find with
      | error e => simpa [bind, Except.bind, right] using ihRight
      | ok y => cases o <;> cases x <;> cases y <;> simp [bind, Except.bind, UnitOperand.apply]

end UnitTree

/-! ## Lists that begin with an operator -/

namespace UnitToken

/-- Numbers and names. -/
def isOperand : UnitToken → Bool
  | .number _ | .name _ => true
  | _ => false

/-- Operators. -/
def isOp : UnitToken → Bool
  | .op _ => true
  | _ => false

variable {find : String → Option (MeasureUnit R E)} {p : UnitToken → Bool}
  {ts stack : List UnitToken} {last : UnitToken} {depth : Nat}

/-- Ordering tokens loses and adds nothing but brackets. -/
theorem countP_postfixFrom (opened : p .openBracket = false) (closed : p .closeBracket = false) :
    (postfixFrom stack ts).countP p = stack.countP p + ts.countP p := by
  have split (q : UnitToken → Bool) (stack : List UnitToken) :
      (stack.takeWhile q).countP p + (stack.dropWhile q).countP p = stack.countP p := by
    rw [← List.countP_append, List.takeWhile_append_dropWhile]
  induction ts generalizing stack with
  | nil => simp [postfixFrom]
  | cons t ts ih =>
    cases t with
    | number | name =>
      simp only [postfixFrom, List.countP_cons, ih]
      omega
    | openBracket => simp [postfixFrom, ih, opened]
    | closeBracket =>
      have bracket : ((stack.dropWhile (· != .openBracket)).drop 1).countP p =
          (stack.dropWhile (· != .openBracket)).countP p := by
        have stop := List.head?_dropWhile_not (· != .openBracket) stack
        cases rest : stack.dropWhile (· != .openBracket) with
        | nil => rfl
        | cons u rest =>
          rw [rest] at stop
          obtain rfl : u = .openBracket := by simpa using stop
          simp [opened]
      have parts := split (· != .openBracket) stack
      simp only [postfixFrom, List.countP_append, List.countP_cons, ih, bracket, closed]
      simp only [Bool.false_eq_true, if_false]
      omega
    | op o =>
      have parts := split (yieldsTo o) stack
      simp only [postfixFrom, List.countP_append, List.countP_cons, ih]
      omega

/-- Every operator takes two values and leaves one. -/
theorem length_of_foldlM {values final : List (UnitOperand R E)}
    (evaluated : ts.foldlM (step find) values = .ok final) :
    final.length + ts.countP isOp = values.length + ts.countP isOperand := by
  induction ts generalizing values with
  | nil =>
    cases evaluated
    rfl
  | cons t ts ih =>
    rw [List.foldlM_cons] at evaluated
    cases stepped : step find values t with
    | error e => simp [stepped, bind, Except.bind] at evaluated
    | ok between =>
      rw [stepped] at evaluated
      have balance := ih evaluated
      cases t with
      | number | name =>
        simp only [step] at stepped
        split at stepped <;> cases stepped
        simp only [List.countP_cons, isOp, isOperand, List.length_cons] at balance ⊢
        simp only [Bool.false_eq_true, if_false, if_true]
        omega
      | op o =>
        obtain _ | ⟨b, _ | ⟨a, rest⟩⟩ := values
        · cases stepped
        · cases stepped
        · simp only [step] at stepped
          cases applied : UnitOperand.apply o a b with
          | error e => simp [applied, Except.map] at stepped
          | ok x =>
            rw [applied] at stepped
            cases stepped
            simp only [List.countP_cons, isOp, isOperand, List.length_cons] at balance ⊢
            simp only [Bool.false_eq_true, if_false, if_true]
            omega
      | openBracket | closeBracket => cases stepped

/-- Behind an operand an accepted list has as many operators as operands, and elsewhere one operand
more. -/
theorem countP_of_checkFrom (last : UnitToken) (accepted : checkFrom (some last) depth ts = .ok ()) :
    ts.countP isOperand =
      ts.countP isOp + if UnitTree.expectsOperand (some last) then 1 else 0 := by
  induction ts generalizing last depth with
  | nil => cases last <;> first | rfl | cases accepted
  | cons t ts ih =>
    have legal := UnitTree.mayFollow_of_accepted accepted
    rw [UnitTree.checkFrom_cons legal] at accepted
    cases expects : UnitTree.expectsOperand (some last) with
    | true =>
      have opens : t.opensOperand = true := by
        cases last <;> first | exact legal | cases expects
      cases t with
      | number text =>
        have balance := ih (.number text) accepted
        simpa [List.countP_cons, isOperand, isOp, UnitTree.expectsOperand] using balance
      | name text =>
        have balance := ih (.name text) accepted
        simpa [List.countP_cons, isOperand, isOp, UnitTree.expectsOperand] using balance
      | openBracket =>
        have balance := ih .openBracket accepted
        simpa [List.countP_cons, isOperand, isOp, UnitTree.expectsOperand] using balance
      | op | closeBracket => cases opens
    | false =>
      rw [UnitTree.mayFollow_last expects] at legal
      cases t with
      | number | name | openBracket => cases legal
      | op o =>
        have balance := ih (.op o) accepted
        simpa [List.countP_cons, isOperand, isOp, UnitTree.expectsOperand] using balance
      | closeBracket =>
        rw [UnitTree.checkBehind] at accepted
        split at accepted
        · cases accepted
        · have balance := ih .closeBracket accepted
          simpa [List.countP_cons, isOperand, isOp, UnitTree.expectsOperand] using balance

/-- Evaluating a list that begins with an operator does not end in a unit. -/
theorem fold_ne_ok {o : UnitOp} (accepted : check (.op o :: ts) = .ok ()) (u : MeasureUnit R E) :
    fold find (postfixOrder (.op o :: ts)) ≠ .ok u := by
  intro evaluated
  have balance : ts.countP isOperand = ts.countP isOp + 1 :=
    countP_of_checkFrom (.op o) accepted
  unfold fold at evaluated
  split at evaluated
  · cases evaluated
  · next u' whole =>
    have values := length_of_foldlM whole
    rw [postfixOrder, countP_postfixFrom rfl rfl, countP_postfixFrom rfl rfl] at values
    simp [List.countP_cons, isOp, isOperand] at values
    omega
  · cases evaluated
  · cases evaluated

end UnitToken

/-! ## Texts -/

namespace MeasureUnit

open UnitToken (Spells)

variable {find : String → Option (MeasureUnit R E)}

/-- A unit with the format that stands behind the colon of a text, if there is one. -/
def attach (format : Option (List Char)) (u : MeasureUnit R E) : MeasureUnit R E :=
  let format := Text.trimList (format.getD [])
  if format.isEmpty then u else u.withFormat (String.ofList format)

/-- The unit of an accepted list is the value of the expression that the list is. -/
theorem fold_eq_ok_iff (find : String → Option (MeasureUnit R E)) {ts : List UnitToken}
    (accepted : UnitToken.check ts = .ok ())
    (u : MeasureUnit R E) :
    UnitToken.fold find (UnitToken.postfixOrder ts) = .ok u ↔
      ∃ tree, UnitTree.Derives UnitTree.loosest ts tree ∧ tree.evaluate find = .ok (.unit u) := by
  constructor
  · intro evaluated
    rcases ts with _ | ⟨t, ts⟩
    · cases evaluated
    · cases t with
      | op o => exact absurd evaluated (UnitToken.fold_ne_ok accepted u)
      | closeBracket => cases accepted
      | number | name | openBracket =>
        obtain ⟨tree, derives⟩ := UnitTree.exists_derives rfl accepted
        refine ⟨tree, derives, ?_⟩
        rw [derives.fold] at evaluated
        cases value : tree.evaluate find with
        | error e => simp [value, bind, Except.bind] at evaluated
        | ok x =>
          rw [value] at evaluated
          cases x <;> cases evaluated
          rfl
  · rintro ⟨tree, derives, value⟩
    rw [derives.fold, value]
    rfl

theorem parse_eq (find : String → Option (MeasureUnit R E)) (s : String) :
    parse find s = (parseExpression find (Text.cutAt ':' s.toList).1).map
      (attach (Text.cutAt ':' s.toList).2) := by
  rw [parse]
  cases expression : parseExpression find (Text.cutAt ':' s.toList).1 <;>
    simp [expression, attach, bind, Except.bind, Except.map, pure, Except.pure]

theorem parseExpression_eq_ok_iff (cs : List Char) (u : MeasureUnit R E) :
    parseExpression find cs = .ok u ↔ ∃ tokens, Spells cs tokens ∧
      UnitToken.check tokens = .ok () ∧
      UnitToken.fold find (UnitToken.postfixOrder tokens) = .ok u := by
  simp only [← UnitToken.scan_eq_ok_iff, parseExpression]
  cases UnitToken.scan cs with
  | error e => simp [bind, Except.bind]
  | ok tokens =>
    cases checked : UnitToken.check tokens with
    | error e => simp [bind, Except.bind, checked]
    | ok => simp [bind, Except.bind, checked]

/-- A text denotes a unit exactly when its part in front of the first colon is an expression of the
grammar that is meaningful and evaluates to a unit. The unit is the value of the expression, with the
format that stands behind the colon. An accepted list that begins with no operator never lacks an
operand. -/
theorem parse_eq_ok_iff (find : String → Option (MeasureUnit R E)) (s : String)
    (u : MeasureUnit R E) :
    (parse find s = .ok u ↔ ∃ tokens tree v, Spells (Text.cutAt ':' s.toList).1 tokens ∧
      UnitTree.Derives UnitTree.loosest tokens tree ∧ tree.IsMeaningful find ∧
      tree.evaluate find = .ok (.unit v) ∧ u = attach (Text.cutAt ':' s.toList).2 v) ∧
    ∀ tokens, UnitToken.check tokens = .ok () → tokens ≠ [] →
      (∀ o, tokens.head? ≠ some (.op o)) →
      UnitToken.fold find (UnitToken.postfixOrder tokens) ≠ .error .missingOperand := by
  constructor
  · rw [parse_eq]
    constructor
    · intro parsed
      cases expression : parseExpression find (Text.cutAt ':' s.toList).1 with
      | error e => simp [expression, Except.map] at parsed
      | ok v =>
        rw [expression] at parsed
        obtain ⟨tokens, spells, accepted, evaluated⟩ := (parseExpression_eq_ok_iff _ v).1 expression
        obtain ⟨tree, derives, value⟩ := (fold_eq_ok_iff find accepted v).1 evaluated
        exact ⟨tokens, tree, v, spells, derives, UnitTree.exists_evaluate_iff.1 ⟨_, value⟩, value,
          (Except.ok.inj parsed).symm⟩
    · rintro ⟨tokens, tree, v, spells, derives, -, value, rfl⟩
      have accepted := derives.check
      have evaluated := (fold_eq_ok_iff find accepted v).2 ⟨tree, derives, value⟩
      rw [(parseExpression_eq_ok_iff _ v).2 ⟨tokens, spells, accepted, evaluated⟩]
      rfl
  · intro tokens accepted nonempty first
    rcases tokens with _ | ⟨t, ts⟩
    · exact absurd rfl nonempty
    · have opens : t.opensOperand = true := by
        cases t with
        | op o => exact absurd rfl (first o)
        | closeBracket => cases accepted
        | number | name | openBracket => rfl
      obtain ⟨tree, derives⟩ := UnitTree.exists_derives opens accepted
      rw [derives.fold]
      have present := tree.evaluate_ne_missingOperand find
      cases value : tree.evaluate find with
      | error e => simpa [value, bind, Except.bind] using present
      | ok x => cases x <;> simp [bind, Except.bind, UnitTree.unitOf]

/-- In `-2 *m/s^2` the power is formed first and the product last. -/
theorem parse_acceleration :
    (∃ u : MeasureUnit Float Float32, parse Catalogue.find? "-2 *m/s^2: f" = .ok u ∧
      u.format = some "f") ∧
    UnitToken.fold (Catalogue.find? (R := Float) (E := Float32))
      (UnitToken.postfixOrder [.number "-2", .op .mul, .name "m"]) ≠ .error .missingOperand := by
  have cut : Text.cutAt ':' "-2 *m/s^2: f".toList = ("-2 *m/s^2".toList, some " f".toList) := by
    decide
  have spells : Spells "-2 *m/s^2".toList
      [.number "-2", .op .mul, .name "m", .op .div, .name "s", .op .pow, .number "2"] :=
    .number ['2'] (by decide) (by decide) (by rintro d ⟨⟩; decide) <|
      .blank (by decide) <| .sign (by decide) <|
      .name [] (by decide) (by decide) (by rintro d ⟨⟩; decide) <| .sign (by decide) <|
      .name [] (by decide) (by decide) (by rintro d ⟨⟩; decide) <| .sign (by decide) <|
      .number [] (by decide) (by decide) nofun .done
  have derives : UnitTree.Derives UnitTree.loosest
      [.number "-2", .op .mul, .name "m", .op .div, .name "s", .op .pow, .number "2"]
      (.op .mul (.number "-2") (.op .div (.name "m") (.op .pow (.name "s") (.number "2")))) :=
    .op (o := .mul) ((UnitTree.Derives.number "-2").looser (Nat.zero_le _)) <|
      .op (o := .div) ((UnitTree.Derives.name "m").looser (Nat.zero_le _)) <|
      .op (o := .pow) ((UnitTree.Derives.name "s").looser (Nat.zero_le _)) <| .number "2"
  obtain ⟨metre, foundMetre⟩ : ∃ u : MeasureUnit Float Float32, Catalogue.find? "m" = some u :=
    ⟨_, rfl⟩
  obtain ⟨second, foundSecond⟩ : ∃ u : MeasureUnit Float Float32, Catalogue.find? "s" = some u :=
    ⟨_, rfl⟩
  obtain ⟨k, readFactor⟩ : ∃ k : Float, Scalar.read "-2" = some k := ⟨_, rfl⟩
  obtain ⟨n, readExponent⟩ : ∃ n : Float, Scalar.read "2" = some n := ⟨_, rfl⟩
  obtain ⟨v, value⟩ : ∃ v : MeasureUnit Float Float32, UnitTree.evaluate Catalogue.find?
      (.op .mul (.number "-2") (.op .div (.name "m") (.op .pow (.name "s") (.number "2")))) =
        .ok (.unit v) := by
    simp only [UnitTree.evaluate, foundMetre, foundSecond, readFactor, readExponent]
    exact ⟨_, rfl⟩
  refine ⟨⟨attach (some " f".toList) v, ?_, ?_⟩, ?_⟩
  · rw [(parse_eq_ok_iff _ _ _).1, cut]
    exact ⟨_, _, v, spells, derives, UnitTree.exists_evaluate_iff.1 ⟨_, value⟩, value, rfl⟩
  · rfl
  · exact (parse_eq_ok_iff _ "m" metre).2 _ (by decide) (by decide) (by simp)

end MeasureUnit

end UnitCalc

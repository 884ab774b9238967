/-
# Dividing by runs of units

What stands behind a sign of division and is a run of units divides as a whole: the run has the
same program as with brackets around it. An exponent with a sign cuts the run into stretches, and
then the brackets belong around each stretch: `1/m^-1*s` is `1/(m^-1)*(s)`. The value of a stretch
is the product over its units, in which a quotient inverts the unit right behind it and no other.

## Main definitions

* `Postfix.WaitsInRun`: what waits on the stack while a run is read.
* `UnitAlgebra`: values of units and constants, and `UnitAlgebra.value?` of programs of them.

## Main results

* `UnitRun.ofTokens_bracketed`: brackets around the stretches of a run do not matter.
* `UnitRun.map_ofTokens_bracketed`: the value of an unbroken run.
-/

import Mathlib.Algebra.BigOperators.Group.List.Basic
import UnitCalc.Proofs.Postfix.Complete
import UnitCalc.Proofs.Postfix.Precedence
import UnitCalc.Proofs.Token.UnitRuns

namespace UnitCalc

open Token Postfix

/-! ## Reading a run -/

namespace UnitExponent

/-- The constant of an exponent. -/
def operands : UnitExponent → List Token
  | one => []
  | constant value text | negated value text => [.constant value text]

/-- What waits for the constant of an exponent, the innermost first. -/
def operations : UnitExponent → List Token
  | one => []
  | constant _ _ => [.operator '^' Operator.power.order]
  | negated _ _ => [.negation negationOrder, .operator '^' Operator.power.order]

end UnitExponent

namespace Postfix

/-- What waits on the stack while a run is read: signs and operators that bind as tightly as a
product. -/
def WaitsInRun : Token → Prop
  | .operator _ order | .negation order => 0 ≤ order ∧ order ≤ Operator.multiply.order
  | _ => False

variable {t : Token} {pending stack post : List Token}

theorem WaitsInRun.waits (waits : WaitsInRun t) : t.Waits Operator.multiply.order := by
  cases t <;> first | exact waits | exact waits.elim

theorem WaitsInRun.keepsFromPower (waits : WaitsInRun t) : yieldsTo '^' 0 t = false := by
  cases t with
  | operator symbol order | negation order =>
    have nonnegative : 0 ≤ order := waits.1
    simp [yieldsTo, nonnegative]
  | _ => exact waits.elim

theorem map_append (r : Except CalcError (List Token)) (front out : List Token) :
    r.map (front ++ out ++ ·) = (r.map (out ++ ·)).map (front ++ ·) := by
  cases r <;> simp [Except.map]

/-- An operator takes off the stack what yields to it. -/
theorem ofTokensFrom_operator {symbol : Char} {order : Int}
    (yields : ∀ t ∈ pending, yieldsTo symbol order t = true) (stack post : List Token) :
    ofTokensFrom (pending ++ stack) (.operator symbol order :: post) =
      (ofTokensFrom stack (.operator symbol order :: post)).map (pending ++ ·) := by
  simp only [ofTokensFrom, List.dropWhile_append_of_pos yields,
    List.takeWhile_append_of_pos yields, map_append]

/-- What ends a run takes all that waits in it off the stack. -/
theorem ofTokensFrom_ending (waits : ∀ t ∈ pending, WaitsInRun t)
    (ends : ∀ t ∈ post.head?, t.EndsRun) (stack : List Token) :
    ofTokensFrom (pending ++ stack) post = (ofTokensFrom stack post).map (pending ++ ·) := by
  have closed : ∀ t ∈ pending, isNotOpen t = true :=
    fun t within => (waits t within).waits.isNotOpen
  cases post with
  | nil =>
    simp only [ofTokensFrom, drain, List.all_append, List.all_eq_true.2 closed, Bool.true_and]
    split <;> rfl
  | cons t post =>
    have ends : t.EndsRun := ends t rfl
    cases t with
    | closeBracket | separator =>
      simp only [ofTokensFrom, List.dropWhile_append_of_pos closed,
        List.takeWhile_append_of_pos closed]
      cases stack.dropWhile isNotOpen with
      | nil => rfl
      | cons bracket below => exact map_append _ pending _
    | operator symbol order =>
      exact ofTokensFrom_operator (fun t within =>
        (waits t within).waits.yieldsTo ends.1 fun _ => ends.2.2.2) stack post
    | _ => exact ends.elim

theorem ofTokensFrom_closeBracket (waits : ∀ t ∈ pending, WaitsInRun t)
    (stack post : List Token) :
    ofTokensFrom (pending ++ .openBracket :: stack) (.closeBracket :: post) =
      (ofTokensFrom stack post).map (pending ++ ·) :=
  reads_closeBracket (fun t within => (waits t within).waits.isNotOpen) post

/-- An operator that does not reach down to a stack moves the same whatever lies there. -/
theorem exists_reads_above (symbol : Char) (order : Int) (pending : List Token) :
    ∃ first second, pending = first ++ second ∧
      ∀ stack : List Token, (∀ t ∈ stack.head?, yieldsTo symbol order t = false) →
        Reads (pending ++ stack) [.operator symbol order] first
          (.operator symbol (waitingOrder symbol order) :: (second ++ stack)) := by
  obtain ⟨first, second, rfl, yields, next⟩ :=
    exists_span (yieldsTo symbol order) pending (show ∀ t ∈ [].head?, _ from nofun)
  refine ⟨first, second, rfl, fun stack stays => ?_⟩
  rw [List.append_assoc]
  refine reads_operator yields ?_
  cases second with
  | nil => exact stays
  | cons t second => exact next

end Postfix

namespace UnitPower

variable {resolve : Token → Token} {p : UnitPower} {pending stack : List Token}

/-- A power puts out its unit and its constant. -/
theorem reads_bound (isUnit : (resolve p.unit).isUnit = true)
    (stays : ∀ t ∈ stack.head?, yieldsTo '^' 0 t = false) :
    Reads stack (p.bound resolve) (resolve p.unit :: p.exponent.operands)
      (p.exponent.operations ++ stack) := by
  obtain ⟨value, name, resolved⟩ := exists_of_isUnit isUnit
  have unit : Reads stack [resolve p.unit] [resolve p.unit] stack :=
    reads_operand (by rw [resolved]; rfl)
  have power : Reads stack [.operator '^' 0] [] (.operator '^' 0 :: stack) :=
    reads_operator (List.forall_mem_nil _) stays
  have constant (value : Option Value) (text : String) (stack : List Token) :
      Reads stack [.constant value text] [.constant value text] stack := reads_operand rfl
  have sign : Reads (.operator '^' 0 :: stack) [.negation negationOrder] []
      (.negation negationOrder :: .operator '^' 0 :: stack) :=
    reads_waiting (.inr (.inr ⟨_, rfl⟩))
  obtain ⟨name, exponent⟩ := p
  cases exponent with
  | one => exact unit
  | constant value text => exact unit.cons (power.cons (constant value text _))
  | negated value text => exact unit.cons (power.cons (sign.cons (constant value text _)))

/-- What a power leaves on the stack binds at least as tight as the operators of a run. -/
theorem waits_operations (p : UnitPower) :
    (∀ t ∈ p.exponent.operations, WaitsInRun t) ∧
      ∀ t ∈ p.exponent.operations, t.Waits unitTermOrder := by
  obtain ⟨name, exponent⟩ := p
  cases exponent <;>
    simp [UnitExponent.operations, WaitsInRun, Waits, Operator.order, negationOrder, unitTermOrder]

/-- A power in the middle of a run, above a stack that its `^` does not reach down to. -/
theorem reads_bound_above (isUnit : (resolve p.unit).isUnit = true)
    (waits : ∀ t ∈ pending, WaitsInRun t) (stays : ∀ t ∈ stack.head?, yieldsTo '^' 0 t = false) :
    Reads (pending ++ stack) (p.bound resolve) (resolve p.unit :: p.exponent.operands)
      (p.exponent.operations ++ pending ++ stack) := by
  rw [List.append_assoc]
  refine reads_bound isUnit fun t first => ?_
  cases pending with
  | nil => exact stays t first
  | cons u pending => exact Option.some.inj first ▸ (waits u (by simp)).keepsFromPower

end UnitPower

namespace UnitRun

variable {resolve : Token → Token} {p : UnitPower} {rest : List (UnitJoin × UnitPower)}
  {symbol : Char} {pending below post : List Token}

/-- The operator inside of a stretch does not reach down to what the stretch stands behind. -/
theorem exists_reads_joint (join : UnitJoin) (unsigned : p.exponent.isNegated = false)
    (waits : ∀ t ∈ pending, WaitsInRun t) :
    ∃ first second, (∀ t ∈ second, WaitsInRun t) ∧
      ∀ stack : List Token, (∀ t ∈ stack.head?, yieldsTo join.symbol unitTermOrder t = false) →
        Reads (pending ++ stack) [p.joint join] first (second ++ stack) := by
  obtain ⟨first, second, rfl, reads⟩ := exists_reads_above join.symbol unitTermOrder pending
  refine ⟨first, .operator join.symbol (waitingOrder join.symbol unitTermOrder) :: second, ?_, ?_⟩
  · refine List.forall_mem_cons.2 ⟨?_, fun t within => waits t (List.mem_append_right _ within)⟩
    cases join <;> exact ⟨by decide, by decide⟩
  · rw [UnitPower.joint, unsigned]
    exact reads

/-- Behind a sign of division, brackets around the stretches of a run do not matter. -/
theorem ofTokensFrom_write
    (isUnit : ∀ q ∈ p :: rest.map Prod.snd, (resolve q.unit).isUnit = true)
    (waits : ∀ t ∈ pending, WaitsInRun t) (ends : ∀ t ∈ post.head?, t.EndsRun) :
    ofTokensFrom (pending ++ .operator symbol Operator.multiply.order :: below)
        (write false (UnitPower.bound resolve) UnitPower.joint p rest ++ post) =
      ofTokensFrom (pending ++ .openBracket :: .operator symbol Operator.multiply.order :: below)
        (write true (UnitPower.bound resolve) UnitPower.joint p rest ++ .closeBracket :: post) := by
  -- The induction is on the rest of the run. The stacks are those of the current stretch: in it
  -- nothing reaches down to the operator or the bracket that it stands behind.
  induction rest generalizing p symbol pending below with
  | nil =>
    have unit := isUnit p (by simp)
    have waiting := List.forall_mem_append.2 ⟨p.waits_operations.1, waits⟩
    rw [write, write, UnitPower.reads_bound_above unit waits (by simp [yieldsTo, Operator.order]),
      UnitPower.reads_bound_above unit waits (by simp [yieldsTo]),
      ofTokensFrom_ending waiting ends,
      ofTokensFrom_closeBracket waiting]
  | cons joined rest ih =>
    obtain ⟨join, q⟩ := joined
    rw [List.map_cons, List.forall_mem_cons] at isUnit
    have waiting := List.forall_mem_append.2 ⟨p.waits_operations.1, waits⟩
    simp only [write, List.append_assoc]
    rw [UnitPower.reads_bound_above isUnit.1 waits (by simp [yieldsTo, Operator.order]),
      UnitPower.reads_bound_above isUnit.1 waits (by simp [yieldsTo])]
    congr 1
    cases signed : p.exponent.isNegated with
    | false =>
      obtain ⟨first, second, waiting', reads⟩ := exists_reads_joint join signed waiting
      simp only [Bool.and_false, Bool.false_eq_true, if_false]
      rw [reads _ (by simp [yieldsTo, Operator.order, unitTermOrder]),
        reads _ (by simp [yieldsTo]), ih isUnit.2 waiting']
    | true =>
      have joint : p.joint join = .operator join.symbol Operator.multiply.order := by
        rw [UnitPower.joint, signed, if_pos rfl]
      have yields (t : Token) (within : t ∈ p.exponent.operations ++ pending) :
          yieldsTo join.symbol Operator.multiply.order t = true :=
        (waiting t within).waits.yieldsTo (Int.le_refl _) fun _ => by cases join <;> decide
      have again : waitingOrder join.symbol Operator.multiply.order = Operator.multiply.order := by
        cases join <;> rfl
      -- the operator behind the stretch ends it as the bracket does
      simp only [Bool.and_true, Bool.false_eq_true, if_false, if_true, joint, List.cons_append,
        List.nil_append]
      rw [ofTokensFrom_operator yields, ofTokensFrom_closeBracket waiting]
      simp only [ofTokensFrom, again]
      congr 2
      exact ih isUnit.2 (List.forall_mem_nil WaitsInRun)

end UnitRun

/-! ## The value of a stretch -/

/-- Values of units and constants, with signs and powers of them. -/
structure UnitAlgebra (A : Type) where
  unit : Token → A
  constant : Token → A
  negate : A → A
  power : A → A → A

namespace UnitAlgebra

variable {A : Type} [DivisionCommMonoid A] (algebra : UnitAlgebra A)

/-- What a token of a program does to the values on the stack. -/
def step : List A → Token → Option (List A)
  | stack, .unit value name => some (algebra.unit (.unit value name) :: stack)
  | stack, .constant value text => some (algebra.constant (.constant value text) :: stack)
  | a :: stack, .negation _ => some (algebra.negate a :: stack)
  | b :: a :: stack, .operator '*' _ => some (a * b :: stack)
  | b :: a :: stack, .operator '/' _ => some (a / b :: stack)
  | b :: a :: stack, .operator '^' _ => some (algebra.power a b :: stack)
  | _, _ => none

/-- The values that a program leaves on the stack. -/
def run (stack : List A) (program : List Token) : Option (List A) :=
  program.foldlM algebra.step stack

/-- The value of a program that leaves only one. -/
def value? (program : List Token) : Option A :=
  match algebra.run [] program with
  | some [a] => some a
  | _ => none

/-- The value of a unit with its exponent. -/
def ofPower (resolve : Token → Token) (p : UnitPower) : A :=
  match p.exponent with
  | .one => algebra.unit (resolve p.unit)
  | .constant value text => algebra.power (algebra.unit (resolve p.unit))
      (algebra.constant (.constant value text))
  | .negated value text => algebra.power (algebra.unit (resolve p.unit))
      (algebra.negate (algebra.constant (.constant value text)))

/-- What a power multiplies the run with: a quotient inverts this power and no other. -/
def ofJoined (resolve : Token → Token) : UnitJoin × UnitPower → A
  | (.product, q) => algebra.ofPower resolve q
  | (.quotient, q) => (algebra.ofPower resolve q)⁻¹

/-- The value of a run is the product over its units. -/
def ofRun (resolve : Token → Token) (r : UnitRun) : A :=
  algebra.ofPower resolve r.first * (r.rest.map (algebra.ofJoined resolve)).prod

theorem run_append (stack : List A) (first second : List Token) :
    algebra.run stack (first ++ second) =
      (algebra.run stack first).bind fun stack => algebra.run stack second :=
  List.foldlM_append

/-- The products that wait in a run multiply all values. -/
theorem run_products (a : A) (as : List A) :
    algebra.run (a :: as) (List.replicate as.length (.operator '*' Operator.multiply.order)) =
      some [a * as.prod] := by
  induction as generalizing a with
  | nil => simp [run]
  | cons b as ih =>
    rw [List.length_cons, List.replicate_succ]
    refine (ih (b * a)).trans ?_
    rw [List.prod_cons, mul_comm b, mul_assoc]

/-- A power puts its value on the stack. -/
theorem run_power {resolve : Token → Token} {p : UnitPower}
    (isUnit : (resolve p.unit).isUnit = true) (stack : List A) :
    algebra.run stack (resolve p.unit :: p.exponent.operands ++ p.exponent.operations) =
      some (algebra.ofPower resolve p :: stack) := by
  obtain ⟨value, name, resolved⟩ := exists_of_isUnit isUnit
  obtain ⟨unit, exponent⟩ := p
  rw [ofPower, resolved]
  cases exponent <;> rfl

end UnitAlgebra

namespace UnitRun

variable {resolve : Token → Token} {p : UnitPower} {rest : List (UnitJoin × UnitPower)}
  {out loose : List Token}

/-- A power behind a tight operator. -/
def tight (resolve : Token → Token) (joined : UnitJoin × UnitPower) : List Token :=
  .operator joined.1.symbol unitTermOrder :: joined.2.bound resolve

/-- All operators of an unbroken run are tight. -/
theorem write_tight
    (unbroken : ∀ q ∈ (p :: rest.map Prod.snd).dropLast, q.exponent.isNegated = false) :
    write true (UnitPower.bound resolve) UnitPower.joint p rest =
      p.bound resolve ++ rest.flatMap (tight resolve) := by
  induction rest generalizing p with
  | nil => rw [write, List.flatMap_nil, List.append_nil]
  | cons joined rest ih =>
    rw [List.map_cons, List.dropLast_cons_cons, List.forall_mem_cons] at unbroken
    rw [write, ih unbroken.2, UnitPower.joint, unbroken.1]
    simp [tight]

/-- The products that wait in a run. -/
def products (count : Nat) : List Token :=
  List.replicate count (.operator '*' Operator.multiply.order)

/-- A tight operator is read above the products that wait in the run. -/
theorem reads_tight (join : UnitJoin) (waits : ∀ t ∈ loose, t.Waits unitTermOrder) (count : Nat)
    (stack : List Token) :
    Reads (loose ++ (products count ++ .openBracket :: stack))
      [.operator join.symbol unitTermOrder] loose
      (.operator join.symbol (waitingOrder join.symbol unitTermOrder) ::
        (products count ++ .openBracket :: stack)) := by
  refine reads_operator (fun t within => (waits t within).yieldsTo (Int.le_refl _) fun _ => ?_) ?_
  · cases join <;> decide
  · cases count <;> simp [products, List.replicate_succ, yieldsTo, Operator.order, unitTermOrder]

/-- One more unit of a run. On the stack wait the operations for the last unit and the quotient
before it, and below them the products: a product of the run waits with them, and a quotient is
done when the run goes on. -/
theorem exists_reads_unit {A : Type} [DivisionCommMonoid A] (algebra : UnitAlgebra A)
    (join : UnitJoin) {q : UnitPower} (isUnit : (resolve q.unit).isUnit = true)
    (waits : ∀ t ∈ loose, t.Waits unitTermOrder) {a : A} {as : List A}
    (ran : algebra.run [] (out ++ loose) = some (a :: as)) (stack : List Token) :
    ∃ out' loose' b bs, (∀ t ∈ loose', t.Waits unitTermOrder) ∧
      algebra.run [] (out ++ out' ++ loose') = some (b :: bs) ∧
      b * bs.prod = a * as.prod * algebra.ofJoined resolve (join, q) ∧
      Reads (loose ++ (products as.length ++ .openBracket :: stack)) (tight resolve (join, q)) out'
        (loose' ++ (products bs.length ++ .openBracket :: stack)) := by
  have operator := reads_tight join waits as.length stack
  have powered : algebra.run [] (out ++ (loose ++ resolve q.unit :: q.exponent.operands) ++
      q.exponent.operations) = some (algebra.ofPower resolve q :: a :: as) := by
    rw [← List.append_assoc, List.append_assoc, algebra.run_append, ran]
    exact algebra.run_power isUnit (a :: as)
  cases join with
  | product =>
    -- the product is reset to its plain order when it is pushed, so it joins those that wait
    have unit : Reads (products (as.length + 1) ++ .openBracket :: stack) (q.bound resolve) _ _ :=
      UnitPower.reads_bound isUnit
        (by simp [products, List.replicate_succ, yieldsTo, Operator.order])
    refine ⟨_, q.exponent.operations, algebra.ofPower resolve q, a :: as, q.waits_operations.2,
      powered, ?_, operator.cons unit⟩
    rw [List.prod_cons]
    exact mul_comm _ _
  | quotient =>
    -- the quotient keeps the tight order, so it waits for its unit only
    have unit : Reads
        (.operator '/' unitTermOrder :: (products as.length ++ .openBracket :: stack))
        (q.bound resolve) _ _ :=
      UnitPower.reads_bound isUnit (by simp [yieldsTo, unitTermOrder])
    refine ⟨loose ++ resolve q.unit :: q.exponent.operands,
      q.exponent.operations ++ [.operator '/' unitTermOrder], a / algebra.ofPower resolve q, as,
      List.forall_mem_append.2 ⟨q.waits_operations.2, by simp [Waits, unitTermOrder]⟩, ?_, ?_, ?_⟩
    · rw [← List.append_assoc, algebra.run_append, powered]
      rfl
    · rw [div_eq_mul_inv, mul_right_comm]
      rfl
    · rw [List.append_assoc]
      exact operator.cons unit

/-- The bracket behind a run finds the product over its units. -/
theorem exists_program_tight {A : Type} [DivisionCommMonoid A] (algebra : UnitAlgebra A)
    (isUnit : ∀ q ∈ rest.map Prod.snd, (resolve q.unit).isUnit = true)
    (waits : ∀ t ∈ loose, t.Waits unitTermOrder) {a : A} {as : List A}
    (ran : algebra.run [] (out ++ loose) = some (a :: as)) (stack : List Token) :
    ∃ program, algebra.run [] (out ++ program) =
        some [a * as.prod * (rest.map (algebra.ofJoined resolve)).prod] ∧
      Reads (loose ++ (products as.length ++ .openBracket :: stack))
        (rest.flatMap (tight resolve) ++ [.closeBracket]) program stack := by
  induction rest generalizing out loose a as with
  | nil =>
    refine ⟨loose ++ products as.length, ?_, ?_⟩
    · rw [← List.append_assoc, algebra.run_append, ran, Option.bind_some, products,
        algebra.run_products, List.map_nil, List.prod_nil, mul_one]
    · rw [← List.append_assoc]
      refine reads_closeBracket fun t within => ?_
      rcases List.mem_append.1 within with inner | product
      · exact (waits t inner).isNotOpen
      · rw [List.eq_of_mem_replicate product]
        rfl
  | cons joined rest ih =>
    obtain ⟨join, q⟩ := joined
    rw [List.map_cons, List.forall_mem_cons] at isUnit
    obtain ⟨out', loose', b, bs, waits', ran', value, reads⟩ :=
      exists_reads_unit algebra join isUnit.1 waits ran stack
    obtain ⟨program, total, reads'⟩ := ih isUnit.2 waits' ran'
    refine ⟨out' ++ program, ?_, ?_⟩
    · rw [← List.append_assoc, total, value, List.map_cons, List.prod_cons,
        mul_assoc _ _ (List.prod _)]
    · rw [List.flatMap_cons, List.append_assoc]
      exact reads.trans reads'

variable {r : UnitRun}

/-- The program of an unbroken run in brackets has the value of the run. -/
theorem map_ofTokens_bracketed {A : Type} [DivisionCommMonoid A] (algebra : UnitAlgebra A)
    (isUnit : ∀ p ∈ r.powers, (resolve p.unit).isUnit = true) (unbroken : r.IsUnbroken) :
    (ofTokens (.openBracket ::
        (write true (UnitPower.bound resolve) UnitPower.joint r.first r.rest ++
          [.closeBracket]))).map algebra.value? =
      .ok (some (algebra.ofRun resolve r)) := by
  rw [powers, List.forall_mem_cons] at isUnit
  have first : Reads [.openBracket] (r.first.bound resolve)
      (resolve r.first.unit :: r.first.exponent.operands)
      (r.first.exponent.operations ++ [.openBracket]) :=
    UnitPower.reads_bound isUnit.1 (by simp [yieldsTo])
  obtain ⟨program, value, rest⟩ := exists_program_tight algebra isUnit.2 r.first.waits_operations.2
    (algebra.run_power isUnit.1 []) []
  have opened : Reads [] [.openBracket] [] [.openBracket] := reads_waiting (.inr (.inl rfl))
  have whole := (opened.cons (first.trans rest)).ofTokens (by simp)
  rw [write_tight unbroken, List.append_assoc, whole]
  simp only [Except.map, UnitAlgebra.value?]
  rw [List.nil_append, List.append_nil, value, List.prod_nil, mul_one]
  rfl

end UnitRun

/-! ## Runs in a list -/

namespace Postfix

/-- Lists that are read alike above every stack are so behind other tokens. -/
theorem ofTokensFrom_congr {ts us : List Token}
    (same : ∀ stack, ofTokensFrom stack ts = ofTokensFrom stack us) (before stack : List Token) :
    ofTokensFrom stack (before ++ ts) = ofTokensFrom stack (before ++ us) := by
  induction before generalizing stack with
  | nil => exact same stack
  | cons t before ih => cases t <;> simp only [List.cons_append, ofTokensFrom, ih]

end Postfix

namespace Token

variable {isAssigned : CellId → Bool} {find : String → Option ValueUnit} {place : Nat}
  {before : List Token} {t : Token}

theorem isOperator_resolve (isAssigned : CellId → Bool) (find : String → Option ValueUnit)
    (symbol : Char) (t : Token) :
    t.ordered.isOperator symbol = t.isOperator symbol ∧
      (UnitRun.resolve isAssigned find t).isOperator symbol = t.isOperator symbol := by
  cases t with
  | «variable» cell name =>
    refine ⟨rfl, ?_⟩
    simp only [UnitRun.resolve, ordered, resolved]
    repeat' split
    all_goals rfl
  | _ => exact ⟨rfl, rfl⟩

/-- Names may become units behind the place of the assignment. -/
theorem bind_append (behind : place ≤ before.length) (ts : List Token)
    (nameless : UnitRun.resolve isAssigned find t = t.ordered) :
    Token.bind isAssigned (some find) place (before ++ t :: ts) =
      tighten (before.mapIdx (fun i t =>
        if place < i then UnitRun.resolve isAssigned find t else t.ordered) ++
          t.ordered :: ts.map (UnitRun.resolve isAssigned find)) := by
  have later (i : Nat) : place < i + 1 + before.length := by omega
  have names : ts.mapIdx (fun _ t => UnitRun.resolve isAssigned find t) =
      ts.map (UnitRun.resolve isAssigned find) :=
    List.mapIdx_eq_iff.2 fun i => List.getElem?_map
  have bound (t : Token) : t.ordered.resolved isAssigned find = UnitRun.resolve isAssigned find t :=
    rfl
  rw [Token.bind]
  simp only [bound, List.mapIdx_append, List.mapIdx_cons, later, if_true, names, nameless, ite_self]

/-- Behind a constant that is no exponent, no run goes on. -/
theorem exists_bind_append (behind : place ≤ before.length)
    (base : ∀ t ∈ before.getLast?, t.isOperator '^' = false) (value : Option Value)
    (text : String) :
    ∃ before', ∀ ts, Token.bind isAssigned (some find) place
        (before ++ .constant value text :: ts) =
      before' ++ .constant value text :: tighten (ts.map (UnitRun.resolve isAssigned find)) := by
  have stops : ∀ t ∈ (before.mapIdx fun i t =>
      if place < i then UnitRun.resolve isAssigned find t else t.ordered).getLast?,
      keepsRun t (.constant value text) = false := by
    intro t last
    rw [List.getLast?_mapIdx] at last
    obtain ⟨u, within, rfl⟩ := Option.map_eq_some_iff.1 last
    have bound := isOperator_resolve isAssigned find '^' u
    rw [base u within] at bound
    split
    · exact bound.2
    · exact bound.1
  obtain ⟨before', tightened⟩ := exists_tighten_append _ rfl stops
  exact ⟨before', fun ts => (bind_append behind ts rfl).trans (tightened _)⟩

end Token

namespace UnitRun

variable {isAssigned : CellId → Bool} {find : String → Option ValueUnit} {place : Nat}
  {before post : List Token} {r : UnitRun}

theorem ends_resolve {t : Token} (ends : t.ordered.EndsRun) :
    (resolve isAssigned find t).EndsRun := by
  cases t with
  | «variable» => exact ends.elim
  | _ => exact ends

/-- Behind a sign of division, brackets around the stretches of a run do not change the program. -/
theorem ofTokens_bracketed (value : Option Value) (text : String)
    (isUnit : ∀ p ∈ r.powers, (resolve isAssigned find p.unit).isUnit = true)
    (behind : place ≤ before.length)
    (base : ∀ t ∈ before.getLast?, t.isOperator '^' = false)
    (ends : ∀ t ∈ post.head?, t.ordered.EndsRun) :
    ofTokens (Token.bind isAssigned (some find) place
        (before ++ .constant value text :: ofSymbol '/' :: (r.tokens ++ post))) =
      ofTokens (Token.bind isAssigned (some find) place
        (before ++ .constant value text :: ofSymbol '/' :: (r.bracketed ++ post))) := by
  obtain ⟨before', bound⟩ := exists_bind_append behind base value text
  have ends' : ∀ t ∈ (post.map (resolve isAssigned find)).head?, t.EndsRun := by
    intro t first
    rw [List.head?_map] at first
    obtain ⟨u, within, rfl⟩ := Option.map_eq_some_iff.1 first
    exact ends_resolve (ends u within)
  have next : ∀ t ∈ (tighten (post.map (resolve isAssigned find))).head?, t.EndsRun := by
    cases rest : post.map (resolve isAssigned find) with
    | nil => exact nofun
    | cons t ts =>
      rw [rest] at ends'
      rw [tighten_cons (ends' t rfl).isUnit_eq]
      exact ends'
  -- the constant in front stops any run there, so the sign of division keeps its order
  have division : resolve isAssigned find (ofSymbol '/') =
      .operator '/' Operator.multiply.order := rfl
  rw [bound, bound]
  simp only [List.map_cons, List.map_append, division]
  rw [tighten_cons rfl, tighten_cons rfl, tighten_tokens isUnit ends', tighten_bracketed isUnit]
  refine ofTokensFrom_congr (fun stack => ?_) before' []
  simp only [ofTokensFrom]
  congr 2
  exact ofTokensFrom_write isUnit (List.forall_mem_nil WaitsInRun) next

/-- A run of units divides as a whole: it has the same program as with brackets around its
stretches, and the value of a run that is a single stretch is the product over its units, in which
a quotient inverts the unit right behind it. -/
theorem divides_whole (value : Option Value) (text : String)
    (isUnit : ∀ p ∈ r.powers, (resolve isAssigned find p.unit).isUnit = true)
    (behind : place ≤ before.length)
    (base : ∀ t ∈ before.getLast?, t.isOperator '^' = false)
    (ends : ∀ t ∈ post.head?, t.ordered.EndsRun) :
    ofTokens (Token.bind isAssigned (some find) place
        (before ++ .constant value text :: ofSymbol '/' :: (r.tokens ++ post))) =
      ofTokens (Token.bind isAssigned (some find) place
        (before ++ .constant value text :: ofSymbol '/' :: (r.bracketed ++ post))) ∧
    (r.IsUnbroken → r.bracketed = .openBracket :: (r.tokens ++ [.closeBracket]) ∧
      ∀ (A : Type) [DivisionCommMonoid A] (algebra : UnitAlgebra A),
        (ofTokens (Token.bind isAssigned (some find) 0 r.bracketed)).map algebra.value? =
          .ok (some (algebra.ofRun (resolve isAssigned find) r))) := by
  refine ⟨ofTokens_bracketed value text isUnit behind base ends, fun unbroken =>
    ⟨bracketed_of_isUnbroken unbroken, fun A _ algebra => ?_⟩⟩
  have bound : Token.bind isAssigned (some find) 0 ([] ++ r.bracketed) =
      tighten (r.bracketed.map (resolve isAssigned find)) :=
    bind_append (Nat.le_refl 0) _ rfl
  have orders : tighten (r.bracketed.map (resolve isAssigned find) ++ []) = _ :=
    tighten_bracketed isUnit
  rw [List.nil_append] at bound
  rw [List.append_nil] at orders
  rw [bound, orders]
  exact map_ofTokens_bracketed algebra isUnit unbroken

/-- The run `m*s/kg`. -/
def metreSecondPerKilogram : UnitRun where
  first := { unit := .variable none "m" }
  rest := [(.product, { unit := .variable none "s" }), (.quotient, { unit := .variable none "kg" })]

/-- In `1/m*s/kg + 2` the run is `m*s/kg`. -/
theorem divides_metreSecondPerKilogram :
    (∀ p ∈ metreSecondPerKilogram.powers,
      (resolve (fun _ => false) Catalogue.find? p.unit).isUnit = true) ∧
    metreSecondPerKilogram.IsUnbroken ∧
    ofTokens (Token.bind (fun _ => false) (some Catalogue.find?) 0 (.constant none "1" ::
        ofSymbol '/' :: (metreSecondPerKilogram.tokens ++ [ofSymbol '+', .constant none "2"]))) =
      ofTokens (Token.bind (fun _ => false) (some Catalogue.find?) 0 (.constant none "1" ::
        ofSymbol '/' :: .openBracket :: (metreSecondPerKilogram.tokens ++
          [.closeBracket, ofSymbol '+', .constant none "2"]))) := by
  have isUnit : ∀ p ∈ metreSecondPerKilogram.powers,
      (resolve (fun _ => false) Catalogue.find? p.unit).isUnit = true := by decide +kernel
  have unbroken : metreSecondPerKilogram.IsUnbroken := by
    unfold IsUnbroken
    decide
  have ends : ∀ t ∈ [ofSymbol '+', .constant none "2"].head?, t.ordered.EndsRun := by
    intro t first
    cases first
    exact ⟨by decide, by decide⟩
  obtain ⟨same, whole⟩ := @divides_whole (fun _ => false) Catalogue.find? 0 []
    [ofSymbol '+', .constant none "2"] metreSecondPerKilogram none "1" isUnit (Nat.le_refl 0)
    (by simp) ends
  refine ⟨isUnit, unbroken, same.trans ?_⟩
  rw [(whole unbroken).1]
  simp

/-- A signed exponent cuts `m^-1*s` in two. -/
example : bracketed { first := { unit := .unit none "m", exponent := .negated none "1" }
                      rest := [(.product, { unit := .unit none "s" })] } =
    [.openBracket, .unit none "m", ofSymbol '^', .negation unordered, .constant none "1",
      .closeBracket, ofSymbol '*', .openBracket, .unit none "s", .closeBracket] := rfl

end UnitRun

end UnitCalc

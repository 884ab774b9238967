/-
# Precedence

The stack that orders a list into a program holds what waits for its operands. An expression
of a level is read above a stack whose top holds it: an opening bracket, or an operation that
binds looser. It leaves what binds as tight as the level on the stack, and the rest of its
program in the output. So the program of a derived list is the program of its derivation.

## Main definitions

* `Token.Holds` and `Token.Waits` are the two bounds on the stack.

## Main results

* `Derives.ordering`: what an expression leaves behind on the stack and in the output.
* `Derives.accepted`: derived lists are legal, and their programs are those of the derivation.
-/

import UnitCalc.Proofs.Postfix.Grammar
import UnitCalc.Proofs.Postfix.Stack

namespace UnitCalc

namespace Token

/-- No operation of an expression whose operators bind at most so loosely moves this token
off the stack. A power keeps another one that is its exponent. -/
def Holds (order : Int) : Token → Prop
  | openBracket => True
  | operator _ own => order < own ∨ (own = 0 ∧ order ≤ 0)
  | negation own => order < own
  | _ => False

/-- An operation that waits for its last operand and binds at most so loosely. -/
def Waits (order : Int) : Token → Prop
  | operator _ own | negation own => 0 ≤ own ∧ own ≤ order
  | function _ | binaryFunction _ | multiFunction _ _ | conditional | call _ _ _ => True
  | _ => False

variable {t : Token} {symbol : Char} {order other : Int}

theorem Holds.tighter (holds : t.Holds order) (le : other ≤ order) : t.Holds other := by
  cases t <;> simp only [Holds] at holds ⊢ <;> omega

theorem Waits.looser (waits : t.Waits order) (le : order ≤ other) : t.Waits other := by
  cases t <;> simp only [Waits] at waits ⊢ <;> omega

theorem Waits.isNotOpen (waits : t.Waits order) : Postfix.isNotOpen t = true := by
  cases t <;> first | rfl | exact waits.elim

/-- Without operators among it, what waits belongs to the operand of a factorial. -/
theorem Waits.yieldsToFactorial (waits : t.Waits (-1)) : Postfix.yieldsToFactorial t = true := by
  cases t <;> simp only [Waits] at waits <;> first | rfl | omega

theorem Holds.keepsFromFactorial (holds : t.Holds order) :
    Postfix.yieldsToFactorial t = false := by
  cases t <;> first | rfl | exact holds.elim

/-- What waits is done when an operator follows that binds looser, or as loosely without
grouping to the right. -/
theorem Waits.yieldsTo (waits : t.Waits order) (le : order ≤ other)
    (leftmost : order = other → symbol ≠ '^') : Postfix.yieldsTo symbol other t = true := by
  cases t <;> simp only [Waits] at waits <;> try rfl
  all_goals
    rcases Int.lt_or_eq_of_le (Int.le_trans waits.2 le) with less | equal
    · simp [Postfix.yieldsTo, less]
    · simp [Postfix.yieldsTo, equal, leftmost (by omega)]

theorem Holds.keeps (holds : t.Holds order) (le : other ≤ order)
    (rightmost : other ≤ 0 → symbol = '^') : Postfix.yieldsTo symbol other t = false := by
  cases t <;> simp only [Holds] at holds <;> try rfl
  · rcases holds with looser | ⟨rfl, tight⟩
    · simp [Postfix.yieldsTo]
      omega
    · simp [Postfix.yieldsTo, rightmost (Int.le_trans le tight)]
      omega
  · simp [Postfix.yieldsTo]
    omega

end Token

namespace Grammar

open Token Postfix

/-- The bound on what an expression of a level is read above. -/
def Level.tightness : Level → Int
  | atom | factor => -1
  | power | signed => 0
  | binary k => k + 4
  | arguments _ => 10

/-- The bound on what an expression of a level leaves on the stack. -/
def Level.reach : Level → Int
  | atom | factor => -1
  | power | signed => 1
  | binary k => k + 4
  | arguments _ => 10

/-- A stack above which an expression of a level can be read. Arguments stand in a bracket. -/
def Level.Fits (level : Level) (stack : List Token) : Prop :=
  (∀ t ∈ stack.head?, t.Holds level.tightness) ∧
    ∀ count, level = .arguments count → stack.head? = some .openBracket

theorem Level.below_ne_arguments (k count : Nat) : below k ≠ .arguments count := by
  cases k <;> simp [below]

theorem Level.tightness_below (k : Nat) : (below k).tightness < (binary k).tightness := by
  cases k <;> simp only [below, tightness] <;> omega

theorem Level.reach_below (k : Nat) : (below k).reach ≤ (binary k).reach := by
  cases k <;> simp only [below, reach] <;> omega

theorem Level.fits_of_holds {level : Level} {t : Token} {stack : List Token}
    (holds : t.Holds level.tightness) (single : ∀ count, level ≠ .arguments count) :
    level.Fits (t :: stack) :=
  ⟨fun _ first => Option.some.inj first ▸ holds, fun count same => absurd same (single count)⟩

theorem Level.Fits.tighter {level level' : Level} {stack : List Token} (fits : level.Fits stack)
    (le : level'.tightness ≤ level.tightness) (single : ∀ count, level' ≠ .arguments count) :
    level'.Fits stack :=
  ⟨fun t first => (fits.1 t first).tighter le, fun count same => absurd same (single count)⟩

variable {level : Level} {ts us program stack : List Token}

/-- An expression was read above `stack`: what is left of its program waits there. -/
def Leaves (level : Level) (us program stack : List Token) : Prop :=
  ∃ out pending, program = out ++ pending ∧ (∀ t ∈ pending, t.Waits level.reach) ∧
    Reads stack (us.map ordered) out (pending ++ stack)

/-- An expression that is also one of a looser level. -/
theorem Leaves.looser {level' : Level} (leaves : Leaves level us program stack)
    (le : level.reach ≤ level'.reach) : Leaves level' us program stack := by
  obtain ⟨out, pending, program_eq, waits, reads⟩ := leaves
  exact ⟨out, pending, program_eq, fun t within => (waits t within).looser le, reads⟩

/-- An expression in brackets leaves nothing waiting. -/
theorem Leaves.bracket (leaves : Leaves level us program (.openBracket :: stack)) :
    Reads stack (.openBracket :: (us.map ordered ++ [.closeBracket])) program stack := by
  obtain ⟨out, pending, rfl, waits, reads⟩ := leaves
  have opened : Reads stack [.openBracket] [] (.openBracket :: stack) :=
    reads_waiting (.inr (.inl rfl))
  exact opened.cons (reads.trans (reads_closeBracket fun t within => (waits t within).isNotOpen))

/-- A binary operation of two expressions. -/
theorem Leaves.operation {left right : Level} {us' program' : List Token} {symbol : Char}
    {order : Int} (first : Leaves left us program stack)
    (second : Leaves right us' program' (.operator symbol order :: stack))
    (ordered : (ofSymbol symbol).ordered = .operator symbol order)
    (product : waitingOrder symbol order = order)
    (yields : ∀ t, t.Waits left.reach → yieldsTo symbol order t = true)
    (stays : ∀ t ∈ stack.head?, yieldsTo symbol order t = false)
    (loosest : 0 ≤ order ∧ order ≤ level.reach) (le : right.reach ≤ level.reach) :
    Leaves level (us ++ .ofSymbol symbol :: us')
      (program ++ program' ++ [(ofSymbol symbol).ordered]) stack := by
  obtain ⟨out, pending, rfl, waits, reads⟩ := first
  obtain ⟨out', pending', rfl, waits', reads'⟩ := second
  have operator := reads_operator (fun t within => yields t (waits t within)) stays
  rw [product] at operator
  have whole := reads.trans (operator.cons reads')
  refine ⟨out ++ (pending ++ out'), pending' ++ [.operator symbol order], ?_, ?_, ?_⟩
  · simp [ordered]
  · intro t within
    rcases List.mem_append.1 within with inner | last
    · exact (waits' t inner).looser le
    · rw [List.mem_singleton.1 last]
      exact loosest
  · simpa [ordered] using whole

/-- Every expression can be read above a stack that it fits, and leaves on it what waits. -/
theorem Derives.ordering (derives : Derives level ts us program) (fits : level.Fits stack) :
    Leaves level us program stack := by
  -- The induction is on the derivation. The invariant is that the stack below holds nothing that
  -- yields to an operator of the level, so the expression does not reach into it.
  induction derives generalizing stack with
  | constant | name => exact ⟨_, [], rfl, by simp, reads_operand rfl⟩
  | @bracket _ us program _ ih =>
    have opened : Level.expression.Fits (.openBracket :: stack) :=
      Level.fits_of_holds trivial (by simp [Level.expression])
    refine ⟨program, [], by simp, by simp, ?_⟩
    simpa [ordered] using (ih opened).bracket
  | @call f f' count _ us program takes _ ih =>
    have opened : (Level.arguments count).Fits (.openBracket :: f' :: stack) :=
      ⟨by simp [Holds], fun _ _ => rfl⟩
    have call : f'.isCall = true ∧ f'.ordered = f' ∧ f'.Waits Level.atom.reach := by
      cases takes <;> exact ⟨rfl, rfl, trivial⟩
    have pushed : Reads stack [f'] [] (f' :: stack) := reads_waiting (.inl call.1)
    refine ⟨program, [f'], rfl, by simp [call.2.2], ?_⟩
    rw [List.map_cons, List.map_cons, List.map_append, call.2.1]
    exact pushed.cons (ih opened).bracket
  | argument _ ih =>
    exact (ih (fits.tighter (by decide) (by simp [Level.expression]))).looser (by decide)
  | @arguments count _ us program _ us' program' _ _ ihFirst ihOthers =>
    obtain ⟨below, rfl⟩ := List.head?_eq_some_iff.1 (fits.2 _ rfl)
    have expression : Level.expression.Fits (.openBracket :: below) :=
      Level.fits_of_holds trivial (by simp [Level.expression])
    have opened : (Level.arguments count).Fits (.openBracket :: below) :=
      ⟨by simp [Holds], fun _ _ => rfl⟩
    obtain ⟨out, pending, rfl, waits, reads⟩ := ihFirst expression
    obtain ⟨out', pending', rfl, waits', reads'⟩ := ihOthers opened
    have separator : Reads _ [.separator] pending (.openBracket :: below) :=
      reads_separator fun t within => (waits t within).isNotOpen
    refine ⟨out ++ (pending ++ out'), pending', by simp, waits', ?_⟩
    simpa [ordered] using reads.trans (separator.cons reads')
  | atom _ ih => exact ih (fits.tighter (by decide) (by simp))
  | @factorial _ us program _ ih =>
    obtain ⟨out, pending, rfl, waits, reads⟩ := ih (fits.tighter (by decide) (by simp))
    have factorial := reads_factorial (fun t within => (waits t within).yieldsToFactorial)
      fun t first => (fits.1 t first).keepsFromFactorial
    refine ⟨out ++ (pending ++ [.factorial]), [], by simp, by simp, ?_⟩
    simpa [ordered] using reads.trans factorial
  | factor _ ih => exact (ih (fits.tighter (by decide) (by simp))).looser (by decide)
  | power _ _ ihBase ihExponent =>
    exact (ihBase (fits.tighter (by decide) (by simp))).operation
      (ihExponent (Level.fits_of_holds (.inr ⟨rfl, Int.le_refl 0⟩) (by simp))) rfl rfl
      (fun t waits => waits.yieldsTo (by decide) (by decide))
      (fun t first => (fits.1 t first).keeps (Int.le_refl 0) fun _ => rfl) (by decide) (by decide)
  | unsigned _ ih => exact ih (fits.tighter (by decide) (by simp))
  | @negation _ us program _ ih =>
    have signed : Level.signed.Fits (.negation negationOrder :: stack) :=
      Level.fits_of_holds (by simp [Holds, Level.tightness, negationOrder]) (by simp)
    have pushed : Reads stack [.negation negationOrder] [] (.negation negationOrder :: stack) :=
      reads_waiting (.inr (.inr ⟨_, rfl⟩))
    obtain ⟨out, pending, rfl, waits, reads⟩ := ih signed
    refine ⟨out, pending ++ [.negation negationOrder], by simp [ordered], ?_, ?_⟩
    · simpa [or_imp, forall_and, Waits, Level.reach, negationOrder] using waits
    · simpa [ordered] using pushed.cons reads
  | @tighter k _ _ _ _ ih =>
    exact (ih (fits.tighter (Int.le_of_lt (Level.tightness_below k))
      (Level.below_ne_arguments k))).looser (Level.reach_below k)
  | @binary k symbol _ _ _ _ _ _ _ known _ ihLeft ihRight =>
    obtain ⟨notPower, -, ordered⟩ := symbolsOf_spec known
    have loose : (0 : Int) < k + 4 := by omega
    have waiting : waitingOrder symbol (k + 4) = k + 4 := by
      have other : ((k : Int) + 4 == unitTermOrder) = false :=
        beq_false_of_ne (by simp only [unitTermOrder]; omega)
      simp [waitingOrder, other]
    exact (ihLeft fits).operation
      (ihRight (Level.fits_of_holds (.inl (Level.tightness_below k)) (Level.below_ne_arguments k)))
      ordered waiting
      (fun t waits => waits.yieldsTo (Int.le_refl _) fun _ => notPower)
      (fun t first => (fits.1 t first).keeps (Int.le_refl _) fun tight =>
        absurd loose (Int.not_lt.2 tight))
      ⟨Int.le_of_lt loose, Int.le_refl _⟩ (Level.reach_below k)

/-- An expression is legal, its calls get the numbers of their arguments, and its program is
the one that it is derived with, when none of its names denotes a unit. -/
theorem Derives.accepted {isAssigned : CellId → Bool}
    {find : Option (String → Option ValueUnit)} {place : Nat}
    (derives : Derives .expression ts us program) (free : ∀ t ∈ us, UnitFree isAssigned find t) :
    check ts = .ok (us, false) ∧
      ofTokens (Token.bind isAssigned find place us) = .ok program := by
  constructor
  · exact check_of_layout derives.layout rfl derives.ordinary fun name count =>
      (derives.known name count).1
  · have empty : Level.expression.Fits [] := ⟨by simp, by simp [Level.expression]⟩
    obtain ⟨out, pending, rfl, waits, reads⟩ := derives.ordering empty
    rw [List.append_nil] at reads
    rw [bind_of_unitFree place free]
    exact reads.ofTokens fun t within => (waits t within).isNotOpen

/-- The sign of `-2^max(3; 4)` comes last in its program, and the maximum gets two arguments. -/
theorem accepted_signed_power :
    check [.negation unordered, .constant none "2", .ofSymbol '^', .multiFunction "max" 0,
        .openBracket, .constant none "3", .separator, .constant none "4", .closeBracket] =
      .ok ([.negation unordered, .constant none "2", .ofSymbol '^', .multiFunction "max" 2,
        .openBracket, .constant none "3", .separator, .constant none "4", .closeBracket], false) ∧
    ofTokens (Token.bind (fun _ => false) none 0
      [.negation unordered, .constant none "2", .ofSymbol '^', .multiFunction "max" 2,
        .openBracket, .constant none "3", .separator, .constant none "4", .closeBracket]) =
      .ok [.constant none "2", .constant none "3", .constant none "4", .multiFunction "max" 2,
        .operator '^' 0, .negation 1] := by
  have number (text : String) :
      Derives .power [.constant none text] [.constant none text] [.constant none text] :=
    .factor (.atom (.constant none text))
  have argument (text : String) :
      Derives .expression [.constant none text] [.constant none text] [.constant none text] :=
    .tighter (.tighter (.tighter (.tighter (.tighter (.tighter (.unsigned (number text)))))))
  have maximum := Derives.call (.multiFunction "max" 0 2)
    (.arguments (argument "3") (.argument (argument "4")))
  have power := Derives.power (.atom (.constant none "2"))
    (.unsigned (.factor (.atom maximum)))
  exact Derives.accepted (.tighter (.tighter (.tighter (.tighter (.tighter (.tighter
    (.negation (.unsigned power)))))))) (by simp [UnitFree, ofSymbol])

end Grammar

end UnitCalc

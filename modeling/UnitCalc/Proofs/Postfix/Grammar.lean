/-
# The grammar of expressions

An expression without units is derived level by level: atoms, factorials, powers, signs, and
six levels of binary operators that group to the left. Every derivation gives the tokens as
they are read, the tokens with the numbers of arguments stored, and the program that lists the
operands of each operation before it.

## Main definitions

* `Grammar.Derives` relates a level to the three lists.
* `Grammar.Takes` says how many arguments a function takes.

## Main results

* `Derives.layout`: a derived list has no more and no fewer separators than its calls need.
* `bind_of_unitFree`: binding a list without units only orders its operators.
-/

import UnitCalc.Proofs.Token.Legality
import UnitCalc.Token.Binding

namespace UnitCalc.Grammar

/-- The symbols of the binary operators other than the power, the tightest level first. -/
def binarySymbols : List (List Char) :=
  [['*', '/', '÷', '\\', '⦼'], ['-'], ['+'], ['<', '>', '≤', '≥', '≡', '≠'], ['∧'], ['∨', '⊕']]

/-- The symbols of a level of binary operators. -/
def symbolsOf (k : Nat) : List Char :=
  binarySymbols.getD k []

/-- The levels of expressions. The arguments of a call are a level of their own. -/
inductive Level where
  | atom
  | factor
  | power
  | signed
  | binary (k : Nat)
  | arguments (count : Nat)

/-- The level of the right operands of a level of binary operators. -/
def Level.below : Nat → Level
  | 0 => .signed
  | k + 1 => .binary k

/-- The loosest level of binary operators. -/
def Level.expression : Level :=
  .binary 5

/-- A function takes a number of arguments; its token as it is read and with the number. -/
inductive Takes : Token → Nat → Token → Prop
  | function (name : String) : Takes (.function name) 1 (.function name)
  | binaryFunction (name : String) : Takes (.binaryFunction name) 2 (.binaryFunction name)
  | conditional : Takes .conditional 3 .conditional
  | multiFunction (name : String) (stored count : Nat) :
      Takes (.multiFunction name stored) count (.multiFunction name count)
  | call (index : Nat) (name : String) (count : Nat) :
      Takes (.call (some index) name count) count (.call (some index) name count)

/-- The expressions of a level: the tokens as they are read, the tokens with all numbers of
arguments, and the program. -/
inductive Derives : Level → List Token → List Token → List Token → Prop
  | constant (value : Option Value) (text : String) :
      Derives .atom [.constant value text] [.constant value text] [.constant value text]
  | name (cell : Option CellId) (name : String) :
      Derives .atom [.variable cell name] [.variable cell name] [.variable cell name]
  | bracket {ts us program : List Token} (inside : Derives .expression ts us program) :
      Derives .atom (.openBracket :: (ts ++ [.closeBracket]))
        (.openBracket :: (us ++ [.closeBracket])) program
  | call {f f' : Token} {count : Nat} {ts us program : List Token} (takes : Takes f count f')
      (inside : Derives (.arguments count) ts us program) :
      Derives .atom (f :: .openBracket :: (ts ++ [.closeBracket]))
        (f' :: .openBracket :: (us ++ [.closeBracket])) (program ++ [f'])
  | argument {ts us program : List Token} (only : Derives .expression ts us program) :
      Derives (.arguments 1) ts us program
  | arguments {count : Nat} {ts us program ts' us' program' : List Token}
      (first : Derives .expression ts us program)
      (others : Derives (.arguments count) ts' us' program') :
      Derives (.arguments (count + 1)) (ts ++ .separator :: ts') (us ++ .separator :: us')
        (program ++ program')
  | atom {ts us program : List Token} (inner : Derives .atom ts us program) :
      Derives .factor ts us program
  | factorial {ts us program : List Token} (operand : Derives .atom ts us program) :
      Derives .factor (ts ++ [.factorial]) (us ++ [.factorial]) (program ++ [.factorial])
  | factor {ts us program : List Token} (inner : Derives .factor ts us program) :
      Derives .power ts us program
  | power {ts us program ts' us' program' : List Token}
      (base : Derives .factor ts us program) (exponent : Derives .signed ts' us' program') :
      Derives .power (ts ++ .ofSymbol '^' :: ts') (us ++ .ofSymbol '^' :: us')
        (program ++ program' ++ [(Token.ofSymbol '^').ordered])
  | unsigned {ts us program : List Token} (inner : Derives .power ts us program) :
      Derives .signed ts us program
  | negation {ts us program : List Token} (operand : Derives .signed ts us program) :
      Derives .signed (.negation Token.unordered :: ts) (.negation Token.unordered :: us)
        (program ++ [(Token.negation Token.unordered).ordered])
  | tighter {k : Nat} {ts us program : List Token} (inner : Derives (.below k) ts us program) :
      Derives (.binary k) ts us program
  | binary {k : Nat} {symbol : Char} {ts us program ts' us' program' : List Token}
      (left : Derives (.binary k) ts us program) (known : symbol ∈ symbolsOf k)
      (right : Derives (.below k) ts' us' program') :
      Derives (.binary k) (ts ++ .ofSymbol symbol :: ts') (us ++ .ofSymbol symbol :: us')
        (program ++ program' ++ [(Token.ofSymbol symbol).ordered])

/-- The separators between the expressions of a level. -/
def Level.separators : Level → Nat
  | arguments count => count - 1
  | _ => 0

@[simp]
theorem Level.separators_below (k : Nat) : (below k).separators = 0 := by
  cases k <;> rfl

@[simp]
theorem Level.separators_arguments (count : Nat) : (arguments count).separators = count - 1 :=
  rfl

open Token

/-- A binary operator of a level is neither a power nor an assignment, and binds with the order
of the level. -/
theorem symbolsOf_spec {k : Nat} {symbol : Char} (known : symbol ∈ symbolsOf k) :
    symbol ≠ '^' ∧ (ofSymbol symbol).isAssignment = false ∧
      (ofSymbol symbol).ordered = .operator symbol (k + 4) := by
  rcases k with _ | _ | _ | _ | _ | _ | k <;>
    simp only [symbolsOf, binarySymbols, List.getD_cons_zero, List.getD_cons_succ, List.getD_nil,
      List.mem_cons, List.not_mem_nil, or_false] at known
  case zero => rcases known with rfl | rfl | rfl | rfl | rfl <;> exact ⟨by decide, rfl, rfl⟩
  case succ.zero => subst known; exact ⟨by decide, rfl, rfl⟩
  case succ.succ.zero => subst known; exact ⟨by decide, rfl, rfl⟩
  case succ.succ.succ.zero =>
    rcases known with rfl | rfl | rfl | rfl | rfl | rfl <;> exact ⟨by decide, rfl, rfl⟩
  case succ.succ.succ.succ.zero => subst known; exact ⟨by decide, rfl, rfl⟩
  case succ.succ.succ.succ.succ.zero =>
    rcases known with rfl | rfl <;> exact ⟨by decide, rfl, rfl⟩

variable {level : Level} {ts us program : List Token}

theorem Derives.count_pos {count : Nat} (derives : Derives (.arguments count) ts us program) :
    0 < count := by
  cases derives <;> exact Nat.succ_pos _

/-- A bracket with the arguments of a call has the layout of an operand. -/
theorem Takes.layout {f f' : Token} {count : Nat} (takes : Takes f count f')
    (positive : 0 < count) (inside : Layout .operand (count - 1) 0 ts us) :
    Layout .operand 0 0 (f :: .openBracket :: (ts ++ [.closeBracket]))
      (f' :: .openBracket :: (us ++ [.closeBracket])) := by
  cases takes with
  | function name => simpa using Layout.call (t := .function name) rfl inside .done
  | binaryFunction name => simpa using Layout.call (t := .binaryFunction name) rfl inside .done
  | conditional => simpa using Layout.call (t := .conditional) rfl inside .done
  | call index name =>
    simpa using Layout.call (t := .call (some index) name count) rfl inside .done
  | multiFunction name stored =>
    have whole := @Layout.manyCall name stored _ _ _ _ _ _ _ _ inside .done
    rwa [Legality.storedCount_eq, Nat.sub_add_cancel positive] at whole

/-- A derived list has as many separators as its calls need. -/
theorem Derives.layout (derives : Derives level ts us program) :
    Layout .operand level.separators 0 ts us := by
  induction derives with
  | constant | name => exact .operand rfl .done
  | bracket _ ih =>
    have inside : Layout .operand 0 0 _ _ := ih
    show Layout .operand 0 0 _ _
    simpa using inside.bracket .done
  | call takes inside ih => exact takes.layout inside.count_pos ih
  | argument _ ih => exact ih
  | @arguments count _ _ _ _ _ _ _ others ihFirst ihOthers =>
    have positive := others.count_pos
    have separators : count - 1 + 1 = count := by omega
    simpa [separators] using ihFirst.append ihOthers.separator
  | atom _ ih | factor _ ih | unsigned _ ih => exact ih
  | tighter _ ih =>
    rw [Level.separators_below] at ih
    exact ih
  | factorial _ ih => exact ih.append (.factorial .done)
  | power _ _ ihBase ihExponent => exact ihBase.append (.operator ihExponent)
  | negation _ ih => exact .negation ih
  | binary _ _ _ ihLeft ihRight =>
    rw [Level.separators_below] at ihRight
    exact ihLeft.append (.operator ihRight)

/-- No derived token assigns. -/
theorem Derives.ordinary (derives : Derives level ts us program) :
    ∀ t ∈ ts, t.isAssignment = false := by
  induction derives with
  | constant | name => simp [isAssignment, isOperator]
  | bracket _ ih => simpa [isAssignment, isOperator, or_imp, forall_and] using ih
  | call takes _ ih =>
    cases takes <;> simpa [isAssignment, isOperator, or_imp, forall_and] using ih
  | argument _ ih | atom _ ih | factor _ ih | unsigned _ ih | tighter _ ih => exact ih
  | factorial _ ih | negation _ ih =>
    simpa [isAssignment, isOperator, or_imp, forall_and] using ih
  | arguments _ _ ihFirst ihOthers =>
    simpa [isAssignment, isOperator, or_imp, forall_and] using And.intro ihFirst ihOthers
  | power _ _ ihBase ihExponent =>
    simpa [isAssignment, isOperator, ofSymbol, or_imp, forall_and] using And.intro ihBase ihExponent
  | binary _ known _ ihLeft ihRight =>
    have operator := (symbolsOf_spec known).2.1
    simpa [operator, or_imp, forall_and] using And.intro ihLeft ihRight

/-- A derived list does not begin with a call of a function that is not defined. -/
theorem Derives.known (derives : Derives level ts us program) (name : String) (count : Nat) :
    ts.head? ≠ some (.call none name count) ∧ ts ≠ [] := by
  induction derives with
  | constant | name | bracket | negation => simp
  | call takes => cases takes <;> simp
  | argument _ ih | atom _ ih | factor _ ih | unsigned _ ih | tighter _ ih => exact ih
  | factorial _ ih | arguments _ _ ih | power _ _ ih | binary _ _ _ ih =>
    refine ⟨?_, by simp⟩
    rw [List.head?_append, List.head?_eq_some_head ih.2]
    simpa [List.head?_eq_some_head ih.2] using ih.1

/-- A token that no unit is found for. -/
def UnitFree (isAssigned : CellId → Bool) (find : Option (String → Option ValueUnit)) :
    Token → Prop
  | .unit _ _ => False
  | .variable cell name => cell.any isAssigned = true ∨ ∀ units ∈ find, units name = none
  | _ => True

variable {isAssigned : CellId → Bool} {find : Option (String → Option ValueUnit)}

theorem resolved_of_unitFree {t : Token} {units : String → Option ValueUnit}
    (free : UnitFree isAssigned (some units) t) :
    t.ordered.resolved isAssigned units = t.ordered := by
  cases t with
  | «variable» cell name =>
    rcases free with assigned | unknown
    · simp [ordered, resolved, assigned]
    · simp [ordered, resolved, unknown units rfl]
  | _ => rfl

theorem tightenFrom_of_noUnit (previous : Token) (ts : List Token)
    (free : ∀ t ∈ ts, t.isUnit = false) : tightenFrom previous false ts = previous :: ts := by
  induction ts generalizing previous with
  | nil => rfl
  | cons t ts ih =>
    have plain : t.isUnit = false := free t List.mem_cons_self
    simp only [tightenFrom, plain, Bool.false_eq_true, if_false, Bool.false_and]
    rw [ih t fun u within => free u (List.mem_cons_of_mem t within)]

/-- Binding a list without units orders its operators and changes nothing else. -/
theorem bind_of_unitFree (place : Nat) (free : ∀ t ∈ ts, UnitFree isAssigned find t) :
    Token.bind isAssigned find place ts = ts.map ordered := by
  have mapped (f : Token → Nat → Token) (same : ∀ t ∈ ts, ∀ i, f t i = t.ordered) :
      (ts.mapIdx fun i t => f t i) = ts.map ordered := by
    apply List.ext_getElem <;> simp only [List.length_mapIdx, List.length_map]
    intro i within _
    simp only [List.getElem_mapIdx, List.getElem_map, same _ (List.getElem_mem within)]
  have plain : ∀ t ∈ ts.map ordered, t.isUnit = false := by
    intro t within
    obtain ⟨u, member, rfl⟩ := List.mem_map.1 within
    have none := free u member
    cases u <;> first | rfl | exact none.elim
  rw [Token.bind, mapped]
  · cases ts with
    | nil => rfl
    | cons t ts =>
      rw [List.map_cons, List.forall_mem_cons] at plain
      rw [List.map_cons, tighten, plain.1, tightenFrom_of_noUnit _ _ plain.2]
  · intro t within i
    cases find with
    | none => rfl
    | some units => simp only [resolved_of_unitFree (free t within), ite_self]

end UnitCalc.Grammar

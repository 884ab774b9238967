/-
# Expression trees

The expressions without units as trees of numbers, variables, operations and calls. The program of a
tree lists its operations behind their operands, and its text is made in the same order, with
brackets around operands that bind too loosely.

## Main definitions

* `Postfix.Tree`: an expression without units.
* `Postfix.Tree.program`: the program of a tree.
* `Postfix.Tree.shown`: its text, with the precedence of the outermost operation.
* `Postfix.Tree.IsKnown`: the numbers, names and calls of a tree can be written in a session.

## Main results

* `Postfix.Tree.text_program`: the text of the program is the text of the tree.
-/

import UnitCalc.Postfix.Infix
import UnitCalc.Proofs.Postfix.Grammar
import UnitCalc.Proofs.Statement.Lexing

namespace UnitCalc

namespace Postfix

mutual

/-- An expression without units. A number has its digits, a variable its cell, and a call the token
that stands for it in programs. -/
inductive Tree where
  | number (value : Float) (digits : String)
  | name (cell : CellId) (name : String)
  | negation (operand : Tree)
  | binary (symbol : Char) (left right : Tree)
  | factorial (operand : Tree)
  | call (function : Token) (arguments : Trees)

/-- The arguments of a call. There is one at least. -/
inductive Trees where
  | only (argument : Tree)
  | more (first : Tree) (others : Trees)

end

/-- The number of arguments. -/
def Trees.count : Trees → Nat
  | only _ => 1
  | more _ others => others.count + 1

mutual

/-- The program of an expression: operations stand behind their operands. -/
def Tree.program : Tree → List Token
  | .number value digits => [.constant (some (.real value)) digits]
  | .name cell name => [.variable (some cell) name]
  | .negation a => a.program ++ [(Token.negation Token.unordered).ordered]
  | .binary symbol a b => a.program ++ b.program ++ [(Token.ofSymbol symbol).ordered]
  | .factorial a => a.program ++ [.factorial]
  | .call f arguments => arguments.program ++ [f]

/-- The programs of the arguments one behind the other. -/
def Trees.program : Trees → List Token
  | .only a => a.program
  | .more a others => a.program ++ others.program

end

mutual

/-- The text of an expression. -/
def Tree.shown : Tree → Shown
  | .number _ digits => ⟨digits, 99⟩
  | .name _ name => ⟨name, 99⟩
  | .negation a => ⟨"-" ++ a.shown.within (a.shown.level < 19), 19⟩
  | .binary symbol a b =>
    ⟨nodeText (Token.ofSymbol symbol).ordered [a.shown, b.shown],
      (Token.ofSymbol symbol).precedence.1⟩
  | .factorial a => ⟨a.shown.within (a.shown.level < 21) ++ "!", 21⟩
  | .call f arguments =>
    ⟨f.content ++ bracketed ("; ".intercalate (arguments.shown.map Shown.text)), 22⟩

/-- The texts of the arguments. -/
def Trees.shown : Trees → List Shown
  | .only a => [a.shown]
  | .more a others => a.shown :: others.shown

end

/-- The outermost operation is a factorial. -/
def Tree.isFactorial : Tree → Bool
  | .factorial _ => true
  | _ => false

mutual

/-- The parts of an expression can be written in a session: numbers have digits, variables have
values, operators do not assign, no factorial is the operand of another one, and functions that
exist get as many arguments as they take. -/
def Tree.IsKnown (s : Session) : Tree → Prop
  | .number value digits => Scalar.read digits = some value ∧ digits.toList ≠ [] ∧
    ∀ c ∈ digits.toList, Scan.isNumberChar c = true
  | .name cell name => Scan.isName name = true ∧ s.cellNames.lookup name = some cell ∧
    s.isAssigned cell = true
  | .negation a => a.IsKnown s
  | .binary symbol a b => isOperatorSymbol symbol = true ∧ symbol ≠ '=' ∧ a.IsKnown s ∧ b.IsKnown s
  | .factorial a => a.isFactorial = false ∧ a.IsKnown s
  | .call f arguments =>
    (Scan.isWord f.content = true ∧ ∃ t, Scan.functionToken? s f.content = some t ∧
      Grammar.Takes t arguments.count f) ∧ arguments.IsKnown s

/-- The parts of all arguments can be written in a session. -/
def Trees.IsKnown (s : Session) : Trees → Prop
  | .only a => a.IsKnown s
  | .more a others => a.IsKnown s ∧ others.IsKnown s

end

/-! ## Texts -/

variable {s : Session} {blockText : Nat → Option String}

theorem Trees.length_shown (arguments : Trees) : arguments.shown.length = arguments.count := by
  match arguments with
  | .only a => rfl
  | .more a others => simp [shown, count, others.length_shown]

theorem Trees.count_pos (arguments : Trees) : arguments.count ≠ 0 := by
  cases arguments <;> simp [count]

/-- The token of a call stands in front of its arguments. -/
theorem show?_call {f t : Token} {count : Nat} {arguments : List Shown} {stack : List Shown}
    (takes : Grammar.Takes t count f) (length : arguments.length = count) (positive : count ≠ 0) :
    show? blockText (arguments.reverse ++ stack) f = some
      (⟨f.content ++ bracketed ("; ".intercalate (arguments.map Shown.text)), 22⟩ :: stack) := by
  have arity : f.arity = arguments.length := by
    cases takes <;> simp [Token.arity, length]
  have node : nodeText f arguments =
      f.content ++ bracketed ("; ".intercalate (arguments.map Shown.text)) := by
    cases takes <;> rfl
  have level : f.precedence.1 = 22 := by cases takes <;> rfl
  simp [show?, arity, length, positive, level, node]

mutual

/-- A program puts the text of its expression on the stack. -/
theorem Tree.shows (t : Tree) (known : t.IsKnown s) (stack : List Shown) :
    t.program.foldlM (show? blockText) stack = some (t.shown :: stack) := by
  -- The operands are on the stack, the last one on top, when the operation is reached.
  match t with
  | .number value digits =>
    have text : (Token.constant (some (.real value)) digits).text = digits := by
      unfold Token.text
      split
      · next same => cases same
      · next same =>
        cases same
        exact absurd rfl known.2.1
      · rfl
    simp only [Tree.program, List.foldlM_cons, show?, leafText, text]
    rfl
  | .name cell name => rfl
  | .negation a =>
    rw [Tree.program, List.foldlM_append, a.shows known]
    rfl
  | .binary symbol a b =>
    rw [Tree.program, List.foldlM_append, List.foldlM_append, a.shows known.2.2.1,
      Option.bind_eq_bind, Option.bind_some, b.shows known.2.2.2]
    rfl
  | .factorial a =>
    rw [Tree.program, List.foldlM_append, a.shows known.2]
    rfl
  | .call f arguments =>
    obtain ⟨⟨-, t, -, takes⟩, known⟩ := known
    rw [Tree.program, List.foldlM_append, arguments.shows known, Option.bind_eq_bind,
      Option.bind_some, List.foldlM_cons,
      show?_call takes arguments.length_shown arguments.count_pos]
    rfl

/-- The programs of arguments put their texts on the stack. -/
theorem Trees.shows (arguments : Trees) (known : arguments.IsKnown s) (stack : List Shown) :
    arguments.program.foldlM (show? blockText) stack = some (arguments.shown.reverse ++ stack) := by
  match arguments with
  | .only a => exact a.shows known stack
  | .more a others =>
    rw [Trees.program, List.foldlM_append, a.shows known.1]
    simp [Trees.shown, others.shows known.2]

end

/-- The text of the program is the text of the tree. -/
theorem Tree.text_program (t : Tree) (known : t.IsKnown s) (blockText : Nat → Option String) :
    textWith blockText t.program = t.shown.text := by
  simp [textWith, completeText?, t.shows known]

end Postfix

end UnitCalc

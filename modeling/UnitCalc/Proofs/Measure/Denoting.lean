/-
# Texts that denote a value

A text denotes a value at a level of the grammar when it spells an expression of that level with
this value, whatever may stand behind it. Texts of parts are put together to texts of whole
expressions, one rule for each form.

## Main definitions

* `UnitTree.Denotes`: a text denotes a value.

## Main results

* `UnitTree.Denotes.name`, `number`, `bracket`, `op` and `looser`: the rules.
* `UnitTree.Denotes.parse`: a text that denotes a unit is parsed as this unit.
-/

import UnitCalc.Proofs.Measure.Denotation

namespace UnitCalc.UnitTree

open UnitToken (Spells signs isNumberPart beginsNumber)

variable {R E : Type} [Scalar R] [Exponent E] [Narrowing R E]
  {find : String → Option (MeasureUnit R E)} {level low high : ℕ} {cs ds rest : List Char}
  {x y z : UnitOperand R E} {u : MeasureUnit R E} {o : UnitOp} {c : Char}

/-- Neither names nor numbers go on with the text. -/
def IsBoundary (cs : List Char) : Prop :=
  ∀ d ∈ cs.head?, isUnitChar d = false ∧ isNumberPart d = false

theorem isBoundary_nil : IsBoundary [] :=
  nofun

theorem isBoundary_sign {t : UnitToken} (known : (c, t) ∈ signs) : IsBoundary (c :: cs) := by
  have all : ∀ sign ∈ signs, isUnitChar sign.1 = false ∧ isNumberPart sign.1 = false := by
    simp only [isUnitChar, Text.isAlphabetic, Text.inSpans_eq]
    decide +kernel
  rintro d ⟨⟩
  exact all _ known

/-- A text denotes a value at a level: it spells an expression of this level with the value, and
has no colon. -/
def Denotes (find : String → Option (MeasureUnit R E)) (level : ℕ) (cs : List Char)
    (x : UnitOperand R E) : Prop :=
  ∃ tokens tree, (∀ rest ts, IsBoundary rest → Spells rest ts → Spells (cs ++ rest) (tokens ++ ts)) ∧
    Derives level tokens tree ∧ tree.evaluate find = .ok x ∧ ':' ∉ cs

namespace Denotes

theorem looser (denotes : Denotes find low cs x) (le : low ≤ high) : Denotes find high cs x := by
  obtain ⟨tokens, tree, spells, derives, value, plain⟩ := denotes
  exact ⟨tokens, tree, spells, derives.looser le, value, plain⟩

/-- A known name denotes its unit. -/
theorem name {name : String} (nonempty : name.toList ≠ [])
    (letters : ∀ c ∈ name.toList, isUnitChar c = true) (found : find name = some u) :
    Denotes find 0 name.toList (.unit u) := by
  refine ⟨[.name name], .name name, fun rest ts boundary spells => ?_, .name name, ?_, ?_⟩
  · obtain ⟨c, word, text⟩ := List.exists_cons_of_ne_nil nonempty
    have same : name = String.ofList (c :: word) := by rw [← text, String.ofList_toList]
    rw [text, List.forall_mem_cons] at letters
    rw [text, same]
    exact .name word letters.1 letters.2 (fun d first => (boundary d first).1) spells
  · rw [evaluate, found]
  · intro within
    have colon := letters _ within
    revert colon
    simp only [isUnitChar, Text.isAlphabetic, Text.inSpans_eq]
    decide +kernel

/-- Digits denote their number. -/
theorem number {n : ℕ} {k : R} (read : Scalar.read (toString n) = some k) :
    Denotes find 0 (toString n).toList (.number k) := by
  have digits : ∀ c ∈ (toString n).toList, c.isDigit = true := by
    rw [Nat.toString_eq_ofList_toDigits, String.toList_ofList]
    exact fun c within => Nat.isDigit_of_mem_toDigits (by decide) (by decide) within
  have nonempty : (toString n).toList ≠ [] := by
    rw [Nat.toString_eq_ofList_toDigits, String.toList_ofList]
    exact Nat.toDigits_ne_nil
  refine ⟨[.number (toString n)], .number (toString n), fun rest ts boundary spells => ?_,
    .number _, ?_, ?_⟩
  · obtain ⟨c, word, text⟩ := List.exists_cons_of_ne_nil nonempty
    have same : toString n = String.ofList (c :: word) := by rw [← text, String.ofList_toList]
    rw [text, List.forall_mem_cons] at digits
    rw [text, same]
    refine .number word ?_ (fun d within => ?_) (fun d first => (boundary d first).2) spells
    · rw [beginsNumber, digits.1]
      rfl
    · rw [isNumberPart, digits.2 d within]
      rfl
  · rw [evaluate, read]
  · intro within
    exact absurd (digits _ within) (by decide)

/-- Brackets denote what stands in them. -/
theorem bracket (inside : Denotes find loosest cs x) :
    Denotes find 0 ('(' :: (cs ++ [')'])) x := by
  obtain ⟨tokens, tree, spells, derives, value, plain⟩ := inside
  refine ⟨_, tree, fun rest ts _ behind => ?_, .bracket derives, value, ?_⟩
  · have closed : Spells (')' :: rest) (.closeBracket :: ts) := .sign (by decide) behind
    have whole := spells _ _ (isBoundary_sign (t := .closeBracket) (by decide)) closed
    have opened : Spells ('(' :: (cs ++ ')' :: rest))
      (.openBracket :: (tokens ++ .closeBracket :: ts)) := .sign (by decide) whole
    simpa using opened
  · simpa using plain

/-- Operators apply to the values of their operands. -/
theorem op (known : (c, .op o) ∈ signs) (left : Denotes find (o.level + 1) cs x)
    (right : Denotes find o.level ds y) (applied : UnitOperand.apply o x y = .ok z) :
    Denotes find (o.level + 1) (cs ++ c :: ds) z := by
  obtain ⟨tokens, tree, spells, derives, value, plain⟩ := left
  obtain ⟨tokens', tree', spells', derives', value', plain'⟩ := right
  refine ⟨_, _, fun rest ts boundary behind => ?_, .op derives derives',
    (evaluate_op value value').trans applied, ?_⟩
  · have operator : Spells (c :: (ds ++ rest)) (.op o :: (tokens' ++ ts)) :=
      .sign known (spells' rest ts boundary behind)
    simpa using spells _ _ (isBoundary_sign known) operator
  · have sign : ∀ sign ∈ signs, sign.1 ≠ ':' := by decide
    rw [List.mem_append, List.mem_cons]
    rintro (within | same | within)
    · exact plain within
    · exact sign _ known same.symm
    · exact plain' within

theorem cutAt_of_not_mem {mark : Char} (absent : mark ∉ cs) : Text.cutAt mark cs = (cs, none) := by
  induction cs with
  | nil => rfl
  | cons c cs ih =>
    simp only [List.mem_cons, not_or] at absent
    rw [Text.cutAt, if_neg (by simpa using Ne.symm absent.1), ih absent.2]

/-- A text that denotes a unit is parsed as this unit. -/
theorem parse {s : String} (denotes : Denotes find loosest s.toList (.unit u)) :
    MeasureUnit.parse find s = .ok u := by
  obtain ⟨tokens, tree, spells, derives, value, plain⟩ := denotes
  have split : Spells s.toList tokens := by
    simpa using spells [] [] isBoundary_nil .done
  have expression : MeasureUnit.parseExpression find s.toList = .ok u :=
    (MeasureUnit.parseExpression_eq_ok_iff _ u).2 ⟨tokens, split, derives.check,
      (MeasureUnit.fold_eq_ok_iff find derives.check u).2 ⟨tree, derives, value⟩⟩
  rw [MeasureUnit.parse_eq, cutAt_of_not_mem plain, expression]
  rfl

end Denotes

end UnitCalc.UnitTree

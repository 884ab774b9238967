/-
# Expressions that are read in different ways

A text is read as a statement, as an expression over named parameters, or behind the header of a
definition. The three programs differ in the cells of names only, and the statement in names that it
resolves to units.

## Main definitions

* `Session.KeepsOperands`: the units that names are resolved to do not regroup a text.

## Main results

* `Session.parse_standsFor`: the program of a statement.
* `Session.parse_definition`: the body of a definition.
-/

import UnitCalc.Proofs.Postfix.Grammar
import UnitCalc.Proofs.Postfix.Resolution
import UnitCalc.Proofs.Session.Accepted
import UnitCalc.Proofs.Session.Occurrence
import UnitCalc.Proofs.Session.Running
import UnitCalc.Proofs.Statement.Rereading

namespace UnitCalc

open List (Forall₂)
open SessionM
open Token (withoutCell)

namespace Postfix

variable {ts us program : List Token}

/-- Lists that differ in cells have programs that differ in cells. -/
theorem ofTokens_alike (same : ts.map withoutCell = us.map withoutCell)
    (made : ofTokens us = .ok program) :
    ∃ program', ofTokens ts = .ok program' ∧ program'.map withoutCell = program.map withoutCell := by
  have erased := ofTokens_withoutCell ts
  rw [same, ofTokens_withoutCell, made] at erased
  cases ordered : ofTokens ts with
  | error e =>
    rw [ordered] at erased
    cases erased
  | ok program' =>
    rw [ordered] at erased
    exact ⟨program', rfl, (Except.ok.inj erased).symm⟩

end Postfix

namespace Token

variable {s : Session} {ts us plain program : List Token} {t : Token}

theorem StandsFor.forall₂_trans_alike (stand : Forall₂ (StandsFor s) program ts)
    (same : ts.map withoutCell = us.map withoutCell) : Forall₂ (StandsFor s) program us := by
  induction stand generalizing us with
  | nil =>
    rw [List.map_eq_nil_iff.1 same.symm]
    exact .nil
  | cons first _ ih =>
    obtain ⟨u, us, rfl, erased, others⟩ := List.map_eq_cons_iff.1 same.symm
    exact .cons (first.trans_alike erased.symm) (ih others.symm)

theorem StandsFor.forall₂_of_alike (same : ts.map withoutCell = us.map withoutCell) :
    Forall₂ (StandsFor s) ts us :=
  forall₂_trans_alike (List.forall₂_same.2 fun _ _ => .alike rfl) same

end Token

namespace Session

variable {s s' s₁ s₂ sA : Session} {text : String} {names : List String} {us program : List Token}
  {statement plain : Statement}

/-! ## Vocabularies -/

theorem AfterCalls.sameVocabulary {free : CellId → Prop} (after : s.AfterCalls free s') :
    s.SameVocabulary s' where
  settings := after.settings
  units := after.units
  functionNames := after.functionNames
  arities i := by
    have same := congrArg (Option.map UserFunction.arity) (after.functions i)
    rwa [Option.map_map, Option.map_map] at same

theorem SameVocabulary.namesFunctions (same : s.SameVocabulary s') (names : s.NamesFunctions) :
    s'.NamesFunctions := by
  intro name i found
  have known := names name i (same.functionNames ▸ found)
  have arity := same.arities i
  rw [Array.getElem?_eq_getElem known, Option.map_some] at arity
  obtain ⟨f, here, -⟩ := Option.map_eq_some_iff.1 arity
  exact (Array.getElem?_eq_some_iff.1 here).1

theorem sameVocabulary_assignAll (s : Session) (values : List (String × Value)) :
    s.SameVocabulary (s.assignAll values) := by
  unfold assignAll
  induction values generalizing s with
  | nil => exact .refl s
  | cons first values ih =>
    have named := (reading_sameVocabulary.cell (s := s) first.1 trivial).1
    have assigned := ((s.cellOf first.1).2.afterCalls_assign (s.cellOf first.1).1 first.2).sameVocabulary
    exact (named.trans assigned).trans (ih _)

/-! ## Programs -/

/-- Binding leaves the tokens of the session among those of the session. -/
theorem knowsPlain_bind (all : ∀ t ∈ us, s.KnowsPlain t) (isAssigned : CellId → Bool)
    (find : Option (String → Option ValueUnit)) (place : Nat) :
    ∀ t ∈ Token.bind isAssigned find place us, s.KnowsPlain t :=
  Token.forall_bind (fun restates known => ⟨restates.knows known.1,
    restates.blockIndex?_eq.trans known.2⟩) (fun _ _ => ⟨trivial, rfl⟩) all isAssigned find place

theorem knowsPlain_ofTokens (all : ∀ t ∈ us, s.KnowsPlain t)
    (ordered : Postfix.ofTokens us = .ok program) : ∀ t ∈ program, s.KnowsPlain t :=
  Postfix.forall_ofTokensFrom (fun _ _ _ known => known) all (List.forall_mem_nil _) ordered

/-- Resolving the names of a text to units does not regroup its operands. -/
def KeepsOperands (s : Session) (text : String) : Prop :=
  ∀ scan us isDefinition s' program plain, s.ReadsInto true text.toList scan us isDefinition s' →
    Postfix.ofTokens (Token.bind s'.isAssigned (some s'.unit?) scan.assignment us) = .ok program →
    Postfix.ofTokens (Token.bind s'.isAssigned none scan.assignment us) = .ok plain →
    Forall₂ (Token.StandsFor s') program plain

theorem parseUnit_eq (same : s.SameVocabulary s') (text : Option (List Char)) :
    (outcome (parseUnit text) s').1 = (outcome (parseUnit text) s).1 := by
  unfold parseUnit
  split
  · rfl
  · rw [outcome_read, outcome_read, same.unit?_eq]

/-- The session in which an expression over parameters is read. -/
def plotting (s : Session) : Session :=
  { s with isPlotting := true }

theorem sameVocabulary_plotting (s : Session) : s.SameVocabulary s.plotting :=
  ⟨rfl, rfl, rfl, fun _ => rfl⟩

/-- The flag of plotting has nothing to do with cells. -/
theorem AddsCells.of_plotting (adds : s.plotting.AddsCells s') :
    s.AddsCells { s' with isPlotting := s.isPlotting } :=
  { settings := adds.settings
    units := adds.units
    isCancelled := adds.isCancelled
    functions := adds.functions
    functionNames := adds.functionNames
    blocks := adds.blocks
    size := adds.size
    cell := adds.cell
    plain := adds.plain
    keepsName := adds.keepsName
    newName := adds.newName
    separates := fun separates =>
      (adds.separates (separates.of_cellNames rfl (Nat.le_refl _))).of_cellNames rfl (Nat.le_refl _)
    same := by
      rw [adds.same]
      rfl
    unassigned := adds.unassigned }

/-- An expression over parameters keeps its names, and reading it adds cells. -/
theorem parsePlotted_ok (known : s.NamesFunctions) (simple : Statement.IsSimple text.toList)
    (ended : outcome (parsePlotted text) s = (.ok plain, s')) :
    s.AddsCells s' ∧ plain.function = none ∧ (∀ t ∈ plain.program, s'.KnowsPlain t) ∧
      (outcome (parseUnit (Statement.split text.toList).2) s).1 = .ok plain.unit ∧
      ∃ scan us s₁, s.plotting.ReadsInto false text.toList scan us false s₁ ∧
        Postfix.ofTokens (Token.bind s₁.isAssigned none scan.assignment us) = .ok plain.program := by
  obtain ⟨s₂, made, rfl⟩ : ∃ s₂, outcome (parseStatement text.toList false) s.plotting = (.ok plain, s₂) ∧
      s' = { s₂ with isPlotting := s.isPlotting } := by
    rw [outcome_parsePlotted] at ended
    exact ⟨_, Prod.ext (Prod.mk.inj ended).1 rfl, (Prod.mk.inj ended).2.symm⟩
  have known' := s.sameVocabulary_plotting.namesFunctions known
  obtain ⟨unit, scan, us, isDefinition, s₁, reads, makes⟩ := parseStatement_ok known' simple made
  obtain ⟨adds, all⟩ := reads.adds known' simple
  obtain rfl := reads.isDefinition_eq simple
  rw [← parseUnit_eq s.sameVocabulary_plotting, unit]
  cases makes with
  | program value ordered =>
    have flag : s₂.isPlotting = true := by
      rw [adds.same]
      rfl
    rw [flag, Bool.or_true, if_pos rfl] at ordered
    have inside := knowsPlain_ofTokens (knowsPlain_bind all _ _ _) ordered
    exact ⟨adds.of_plotting, value, inside, rfl, scan, us, s₂, reads, ordered⟩

theorem outcome_parse (text : String) (s : Session) :
    outcome (parse text) s = outcome (parseStatement text.toList true) s.limitResults :=
  rfl

/-- The program of a statement stands for that of the expression over parameters. -/
theorem parse_standsFor (known : s.NamesFunctions) (vocabulary : s.SameVocabulary sA)
    (simple : Statement.IsSimple text.toList) (keeps : sA.limitResults.KeepsOperands text)
    (plotted : outcome (parsePlotted text) s = (.ok plain, s₂))
    (parsed : outcome (parse text) sA = (.ok statement, s₁)) :
    sA.limitResults.AddsCells s₁ ∧ statement.function = none ∧ statement.unit = plain.unit ∧
      (∀ t ∈ statement.program, s₁.KnowsPlain t) ∧
      Forall₂ (Token.StandsFor s₁) statement.program plain.program := by
  obtain ⟨-, -, -, unit, scan, us, s₂', reads, ordered⟩ := parsePlotted_ok known simple plotted
  have limited := vocabulary.trans sA.afterCalls_limitResults.sameVocabulary
  have known' := limited.namesFunctions known
  rw [outcome_parse] at parsed
  obtain ⟨unit', scanA, usA, isDefinition, s₁', readsA, makes⟩ := parseStatement_ok known' simple parsed
  obtain ⟨adds, all⟩ := readsA.adds known' simple
  obtain ⟨rfl, same⟩ :=
    reads.expression readsA (s.sameVocabulary_plotting.symm.trans limited) simple
  have units : statement.unit = plain.unit := by
    rw [← parseUnit_eq limited, unit'] at unit
    exact Except.ok.inj unit
  cases makes with
  | program value ordered' =>
    refine ⟨adds, value, units, knowsPlain_ofTokens (knowsPlain_bind all _ _ _) ordered', ?_⟩
    have bound := Token.bind_alike_none s₂'.isAssigned s₁.isAssigned scan.assignment scanA.assignment
      same
    obtain ⟨plain', unresolved, alike⟩ := Postfix.ofTokens_alike bound ordered
    split at ordered'
    · -- the names are not resolved either
      cases unresolved.symm.trans ordered'
      exact Token.StandsFor.forall₂_of_alike alike
    · have stand := keeps scanA usA false s₁ _ plain' readsA ordered' unresolved
      exact Token.StandsFor.forall₂_trans_alike stand alike

end Session

end UnitCalc

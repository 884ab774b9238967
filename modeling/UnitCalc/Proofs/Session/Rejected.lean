/-
# Rejected texts

A text that is rejected defines nothing. Its blocks were added while it was read, but no function
and no block that was there refers to them. What the session had stays: units, functions with their
definitions, and the values of variables. Two things may go. Results are limited whenever a text is
read. And a block that searches for an extreme value clears the variable for its place as soon as it
is added, even if the text is rejected later; what depends on that variable drops its results then.

## Main definitions

* `Session.Rejects`: a text is answered with an error, and not since a function leads to itself.
* `Session.Withstands`: what is left of a session.

## Main results

* `Session.Occurs.withstands`: sessions withstand the texts that they reject.
* `Session.rejected_clears_place`: a variable for a place does not keep its value.
-/

import UnitCalc.Proofs.Session.Occurrence

namespace UnitCalc

open SessionM

namespace Session

variable {s s' : Session} {d : Dependent} {id : CellId} {i : Nat} {text : String}

/-- A text is answered with an error, and not since a function that it defines leads to itself. -/
def Rejects (s : Session) (text : String) : Prop :=
  ∃ e, (outcome (parse text) s).1 = .error e ∧ ∀ name, e ≠ .circularReference name

/-- What is left of a session. Units, functions and blocks are the same. Variables keep their
values, except for the places of the blocks that are new, which are undefined. Results are only
dropped: when a function kept too many, or when it hears of such a place. None is left of a function
that depends on a variable with another value. -/
structure Withstands (s s' : Session) : Prop where
  units : s'.units = s.units
  functionNames : s'.functionNames = s.functionNames
  definitionOf : ∀ i, s'.definitionOf i = s.definitionOf i
  block : ∀ i < s.blocks.size,
    s'.blocks[i]?.map Block.definition = s.blocks[i]?.map Block.definition
  value : ∀ name, ¬ s'.LeavesPlace s.blocks.size name → s'.value? name = s.value? name
  place : ∀ name, s'.LeavesPlace s.blocks.size name → s'.value? name = some .undefined
  results : ∀ i, s'.resultsOf i ≠ s.resultsOf i → s'.resultsOf i = [] ∧
    (UserFunction.maxResults ≤ (s.resultsOf i).length ∨ ∃ name id,
      s'.LeavesPlace s.blocks.size name ∧ s'.cellNames.lookup name = some id ∧
        s'.Hears id (.function i))
  valid : ∀ name id, s.cellNames.lookup name = some id → s'.value? name ≠ s.value? name →
    ∀ i, s.Reaches (fun t => t.cell? = some id) (.function i) → s'.resultsOf i = []

/-- What depends on a variable hears of its assignments, unless it was refused. -/
theorem Informed.hears (informed : s.Informed) (named : s.IsNamed id)
    (reaches : s.Reaches (fun t => t.cell? = some id) d) (open_ : s.isRefused d = false) :
    s.Hears id d :=
  hears_of_mem_affected (informed.mem_affected
    (fun e t open_ within same => (informed.informs e open_ t within).cell id same named)
    reaches open_)

theorem isRefused_of_definitionOf (same : s'.definitionOf i = s.definitionOf i) :
    s'.isRefused (.function i) = s.isRefused (.function i) := by
  have circular : ∀ s : Session, s.isRefused (.function i) =
      (s.definitionOf i).elim false UserFunction.isCircular := by
    intro s
    rw [isRefused, definitionOf]
    cases s.functions[i]? <;> rfl
  rw [circular, circular, same]

theorem KeepsNothing.resultsOf (nothing : s.KeepsNothing (.function i)) : s.resultsOf i = [] := by
  rw [Session.resultsOf]
  cases found : s.functions[i]? with
  | none => rfl
  | some f => exact (nothing f found).2

/-- Results are limited by dropping all of them. -/
theorem resultsOf_limitResults (s : Session) (i : Nat) :
    s.limitResults.resultsOf i = s.resultsOf i ∨
      s.limitResults.resultsOf i = [] ∧ UserFunction.maxResults ≤ (s.resultsOf i).length := by
  rw [resultsOf, resultsOf, limitResults, Array.getElem?_map]
  cases s.functions[i]? with
  | none => exact .inl rfl
  | some f =>
    rw [Option.map_some, Option.elim_some, Option.elim_some, UserFunction.limited]
    split
    · next many => exact .inr ⟨rfl, many⟩
    · exact .inl rfl

/-- Reading that spares what a session had, after its results were limited, is withstood. -/
theorem withstands_of_spares (informed : s.Informed) (informed' : s'.Informed)
    (spares : s.limitResults.Spares s.blocks.size s') : s.Withstands s' := by
  have same := s.runsTo_limitResults.toSameWiring
  have fresh : s.limitResults.PlacesUndefined s.blocks.size := by
    rintro name ⟨i, later, place⟩
    have beyond : s.limitResults.blocks[i]? = none := Array.getElem?_eq_none later
    rw [placeOf, beyond] at place
    cases place
  have definitions : ∀ i, s'.definitionOf i = s.definitionOf i := fun i =>
    (spares.definitionOf i).trans (same.definitionOf_eq i)
  exact {
    units := spares.units
    functionNames := spares.functionNames
    definitionOf := definitions
    block := spares.block
    value := fun name other => (spares.value name).resolve_right fun place => other place.1
    place := spares.placesUndefined fresh
    results := fun i changed => by
      rcases spares.resultsOf i with kept | ⟨none', place⟩
      · rw [kept] at changed ⊢
        exact ((s.resultsOf_limitResults i).resolve_left changed).imp_right .inl
      · exact ⟨none', .inr place⟩
    valid := fun name id named changed i reaches => by
      cases refused : s.isRefused (.function i) with
      | true =>
        -- a function that was refused keeps nothing anyway
        rw [← isRefused_of_definitionOf (definitions i)] at refused
        exact (informed'.keepsWell.keepsNothing refused).resultsOf
      | false =>
        have hears := informed.hears ⟨name, named⟩ reaches refused
        exact spares.drops name id named changed i (same.hears hears) }

/-- Sessions withstand the texts that they reject. -/
theorem Occurs.withstands (occurs : s.Occurs) (rejects : s.Rejects text) :
    s.Withstands (s.after (.read text)) := by
  obtain ⟨e, refused, noCircle⟩ := rejects
  have informed := occurs.informed
  have limited : s.Reads s.limitResults := .single (.evolves (.single (.limit s)))
  have parsed := parsed_parseStatement (limited.informed informed).split text.toList true
  have ended : outcome (parse text) s = outcome (parseStatement text.toList true) s.limitResults :=
    rfl
  rw [after, ended]
  rw [ended] at refused
  generalize outcome (parseStatement text.toList true) s.limitResults = r at parsed refused
  cases parsed with
  | read reads _ =>
    exact withstands_of_spares informed (reads.reads.informed (limited.informed informed))
      reads.spares
  | define _ _ _ _ circles _ =>
    -- a definition that is not accepted was refused for the one reason that is left out
    obtain ⟨name, same⟩ := circles e refused
    exact absurd same (noCircle name)

/-- A text that ends too early is rejected. -/
theorem rejects_of_incomplete (incomplete :
    ((outcome (parse text) s).1 matches .error .incompleteExpression) = true) :
    s.Rejects text := by
  unfold Rejects
  split at incomplete
  · next same => exact ⟨_, same, nofun⟩
  · cases incomplete

/-- A rejected text leaves the result of `f` alone. That of `g` is dropped, which is in terms of the
place of an extreme value. -/
theorem withstands_incompleteSum : ∃ s : Session, s.Occurs ∧
    s.Rejects "$sup{x @ x : 0 : 1}+" ∧ s.Withstands (s.after (.read "$sup{x @ x : 0 : 1}+")) ∧
    ((s.after (.read "$sup{x @ x : 0 : 1}+")).resultsOf 0).length = 1 ∧
    (s.resultsOf 1).length = 1 ∧
    ((s.after (.read "$sup{x @ x : 0 : 1}+")).resultsOf 1).length = 0 := by
  let program : List Token :=
    [.constant (some (.real 1)) "1", .call (some 0) "f" 1, .call (some 1) "g" 1]
  let s := ((((start {} ⟨1, 1⟩).after (.assign "x_sup" (.real 5))).after (.read "f(y) = 2*y")).after
    (.read "g(y) = y + x_sup")).after (.run ⟨program, none, none, "g(f(1))"⟩)
  have occurs : s.Occurs := .request _ (.request _ (.request _ (.request _ (.start _ _))))
  have rejects : s.Rejects "$sup{x @ x : 0 : 1}+" := rejects_of_incomplete (by decide +kernel)
  exact ⟨s, occurs, rejects, occurs.withstands rejects, by decide +kernel, by decide +kernel,
    by decide +kernel⟩

/-- A variable loses its value to a text that is rejected. -/
theorem rejected_clears_place : ∃ (s : Session) (text name : String), s.Occurs ∧
    s.Rejects text ∧ (s.after (.read text)).value? name ≠ s.value? name := by
  refine ⟨_, "$sup{x @ x : 0 : 1}+", "x_sup",
    (Occurs.start {} ⟨1, 1⟩).request (.assign "x_sup" (.real 5)),
    rejects_of_incomplete (by decide +kernel), fun same => ?_⟩
  have values := congrArg (Option.map Quantity.re) same
  revert values
  decide +kernel

end Session

end UnitCalc

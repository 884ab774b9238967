/-
# Nesting of calls

In a numeric session calls of functions that are not circular are nested at most as deeply as
there are functions: every function leads to more functions than the ones it calls. While a
body is evaluated, its own parameters keep their arguments, since no call inside of it gets back
to the function.

## Main definitions

* `Session.rank` bounds how deeply calls are nested in a call.
* `Session.Below`: the cells of parameters that a body may change.
-/

import Mathlib.Data.Set.Card
import UnitCalc.Proofs.Session.Changes

namespace UnitCalc.Session

open Relation (TransGen ReflTransGen)

variable {s s' : Session} {settings : Settings} {free : CellId → Prop} {i j : Nat}

/-- The functions that a function leads to. -/
def descendants (s : Session) (i : Nat) : Set Nat :=
  { j | j < s.functions.size ∧ TransGen s.Leads i j }

/-- The number of functions that a function leads to. -/
noncomputable def rank (s : Session) (i : Nat) : Nat :=
  (s.descendants i).ncard

theorem descendants_subset (s : Session) (i : Nat) :
    s.descendants i ⊆ Finset.range s.functions.size := by
  intro j within
  simpa using within.1

theorem finite_descendants (s : Session) (i : Nat) : (s.descendants i).Finite :=
  (Finset.finite_toSet _).subset (s.descendants_subset i)

theorem rank_le (s : Session) (i : Nat) : s.rank i ≤ s.functions.size := by
  have bound := Set.ncard_le_ncard (s.descendants_subset i) (Finset.finite_toSet _)
  rwa [Set.ncard_coe_finset, Finset.card_range] at bound

/-- A function that is called leads to fewer functions. -/
theorem IsNumeric.rank_lt (numeric : s.IsNumeric settings) (leads : s.Leads i j) :
    s.rank j < s.rank i := by
  have known : j < s.functions.size := by
    obtain ⟨f, found, -, name, count, within⟩ := leads
    exact numeric.binds i f found _ within j rfl
  have fewer : s.descendants j ⊆ s.descendants i :=
    fun k within => ⟨within.1, TransGen.head leads within.2⟩
  -- the called function is one that it does not lead to itself
  apply Set.ncard_lt_ncard _ (s.finite_descendants i)
  rw [Set.ssubset_iff_of_subset fewer]
  exact ⟨j, ⟨known, TransGen.single leads⟩, fun within => numeric.acyclic j within.2⟩

theorem AfterCalls.rank_eq (after : AfterCalls free s s') : s'.rank = s.rank := by
  funext i
  simp only [rank, descendants, after.leads_eq, after.functions_size]

/-- The cells of parameters of the functions that a function leads to. -/
def Below (s : Session) (i : Nat) (id : CellId) : Prop :=
  ∃ k f, TransGen s.Leads i k ∧ s.functions[k]? = some f ∧ id ∈ f.cells

/-- The cells of parameters that a call may change. -/
def Touched (s : Session) (i : Nat) (id : CellId) : Prop :=
  ∃ k f, ReflTransGen s.Leads i k ∧ s.functions[k]? = some f ∧ id ∈ f.cells

theorem AfterCalls.cells_eq (after : AfterCalls free s s') {k : Nat} {f g : UserFunction}
    (found : s.functions[k]? = some f) (found' : s'.functions[k]? = some g) : g.cells = f.cells := by
  obtain ⟨f', here, same⟩ := after.exists_function found'
  cases found.symm.trans here
  rw [UserFunction.cells, UserFunction.cells, (UserFunction.eq_of_bare same).1]

/-- A call inside of a body changes cells below the function only. -/
theorem AfterCalls.below_of_touched (after : AfterCalls free s s') (leads : s.Leads i j)
    {id : CellId} (touched : s'.Touched j id) : s.Below i id := by
  obtain ⟨k, g, path, found, within⟩ := touched
  rw [after.leads_eq] at path
  obtain ⟨f, found', -⟩ := after.exists_function found
  exact ⟨k, f, TransGen.head' leads path, found', after.cells_eq found' found ▸ within⟩

theorem AfterCalls.below_eq (after : AfterCalls free s s') : s'.Below i = s.Below i := by
  funext id
  refine propext ⟨?_, ?_⟩
  · rintro ⟨k, g, path, found, within⟩
    rw [after.leads_eq] at path
    obtain ⟨f, found', -⟩ := after.exists_function found
    exact ⟨k, f, path, found', after.cells_eq found' found ▸ within⟩
  · rintro ⟨k, f, path, found, within⟩
    obtain ⟨g, found', -⟩ := after.exists_function' found
    refine ⟨k, g, ?_, found', (after.cells_eq found found').symm ▸ within⟩
    rw [after.leads_eq]
    exact path

theorem touched_of_below {id : CellId} (below : s.Below i id) : s.Touched i id := by
  obtain ⟨k, f, path, found, within⟩ := below
  exact ⟨k, f, path.to_reflTransGen, found, within⟩

/-- The parameters of a function are not below it. -/
theorem IsNumeric.not_below (numeric : s.IsNumeric settings) {f : UserFunction}
    (found : s.functions[i]? = some f) {id : CellId} (within : id ∈ f.cells) : ¬ s.Below i id := by
  rintro ⟨k, g, path, found', within'⟩
  obtain rfl := numeric.separate i k f g id found found' within within'
  exact numeric.acyclic i path

theorem IsNumeric.isPrivate_of_touched (numeric : s.IsNumeric settings) (id : CellId)
    (touched : s.Touched i id) : s.IsPrivate id := by
  obtain ⟨k, f, -, found, within⟩ := touched
  exact numeric.isPrivate k f found id within

end UnitCalc.Session

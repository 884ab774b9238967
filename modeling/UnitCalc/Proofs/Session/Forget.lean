/-
# Invalidation

After a change everything that depends on what changed forgets what it keeps. A function that
does not forget leads to nothing that changed: what it reads and what it calls knows about it,
so it would have been told. Its calls mean what they meant before, and what it keeps is as good
as it was.

## Main results

* `Session.Sound.forgetFrom`: a session is sound when those that a change affects forget.
* `Session.Sound.assign`: assignments of plain numbers leave a session sound.
-/

import UnitCalc.Proofs.Session.Changes

namespace UnitCalc.Session

variable {s s' : Session} {settings : Settings} {changed : List Dependent} {d : Dependent} {i : Nat}

/-- What is affected by changes of some functions and blocks. -/
def affected (s : Session) (changed : List Dependent) : List Dependent :=
  Graph.reach s.dependentsOf s.dependents changed

theorem forgetFrom_eq (s : Session) (changed : List Dependent) :
    s.forgetFrom changed = (s.affected changed).foldl forget s := by
  cases changed with
  | nil =>
    rw [affected, Graph.reach_nil List.filter_nil]
    rfl
  | cons d changed => rfl

theorem function_mem_dependents (known : i < s.functions.size) : .function i ∈ s.dependents := by
  simp [dependents, known]

/-- Forgetting changes nothing but what is kept. -/
theorem afterCalls_forget (s : Session) (d : Dependent) :
    s.AfterCalls (fun _ => False) (s.forget d) := by
  cases d with
  | function i => exact afterCalls_modifyFunction _ fun _ => rfl
  | block i =>
    refine { AfterCalls.refl (fun _ => False) s with
      blocks := fun j => ?_
      functions := fun _ => rfl
      dependents := fun _ => rfl
      cells := fun _ _ => rfl }
    simp only [dependentsOf, forget, modifyBlock]
    rw [Array.getElem?_modify]
    split
    · cases s.blocks[j]? <;> rfl
    · rfl

theorem afterCalls_forgetAll (s : Session) (ds : List Dependent) :
    s.AfterCalls (fun _ => False) (ds.foldl forget s) := by
  induction ds generalizing s with
  | nil => exact .refl _ s
  | cons d ds ih => exact (s.afterCalls_forget d).trans (ih (s.forget d))

theorem afterCalls_forgetFrom (s : Session) (changed : List Dependent) :
    s.AfterCalls (fun _ => False) (s.forgetFrom changed) := by
  rw [forgetFrom_eq]
  exact s.afterCalls_forgetAll _

theorem afterCalls_assign (s : Session) (id : CellId) (value : Value) :
    s.AfterCalls (· = id) (s.assign id value) :=
  (afterCalls_store value).trans ((afterCalls_forgetFrom _ _).mono fun _ => False.elim)

/-- What is assigned to holds the value. -/
theorem cell_assign (s : Session) {id : CellId} (within : id < s.cells.size) (value : Value) :
    (s.assign id value).cell id = { s.cell id with value, isAssigned := true } := by
  rw [assign, (afterCalls_forgetFrom _ _).cells id not_false, store, cell_modifyCell _ within]

theorem getElem?_forget (s : Session) (d : Dependent) (i : Nat) :
    (s.forget d).functions[i]? =
      if d = .function i then s.functions[i]?.map UserFunction.forget else s.functions[i]? := by
  cases d with
  | block j => rfl
  | function j =>
    rw [forget, getElem?_modifyFunction]
    simp only [Dependent.function.injEq]

/-- A function forgets, or it is what it was. -/
theorem getElem?_forgetAll (s : Session) (ds : List Dependent) (i : Nat) :
    (ds.foldl forget s).functions[i]? =
      if .function i ∈ ds then s.functions[i]?.map UserFunction.forget else s.functions[i]? := by
  induction ds generalizing s with
  | nil => rfl
  | cons d ds ih =>
    rw [List.foldl_cons, ih, getElem?_forget]
    by_cases first : d = .function i
    · have twice : UserFunction.forget ∘ UserFunction.forget = UserFunction.forget := rfl
      have within : .function i ∈ d :: ds := first ▸ List.mem_cons_self
      rw [if_pos first, if_pos within, Option.map_map, twice, ite_self]
    · have other : .function i ∈ d :: ds ↔ .function i ∈ ds := by
        simp [Ne.symm first]
      simp only [if_neg first, other]

/-- What knows about a function that is not affected is not affected itself. -/
theorem not_mem_affected_of_tells {j : Nat} (unaffected : .function i ∉ s.affected changed)
    (known : i < s.functions.size) (tells : .function i ∈ s.dependentsOf (.function j)) :
    .function j ∉ s.affected changed :=
  fun found => unaffected (Graph.mem_reach_of_edge found tells (function_mem_dependents known))

theorem not_mem_of_not_mem_affected (unaffected : .function i ∉ s.affected changed)
    (known : i < s.functions.size) : .function i ∉ changed :=
  fun told => unaffected (Graph.mem_reach_of_pending told (function_mem_dependents known))

/-- A sound session changes into a numeric one. When the functions that are not affected mean
what they meant and keep what was coherent, or keep nothing, the session is sound as soon as the
affected ones forget. -/
theorem Sound.forgetFrom {U : Nat → Prop} (sound : s.Sound settings) (numeric : s'.IsNumeric settings)
    (agree : s.AgreeOn s' U)
    (kept : ∀ (i : Nat) f, s'.functions[i]? = some f → .function i ∉ s'.affected changed →
      (U i ∧ s.Coherent i f) ∨ f.results = [] ∧ f.code = none) :
    (s'.forgetFrom changed).Sound settings := by
  rw [forgetFrom_eq]
  have after := s'.afterCalls_forgetAll (s'.affected changed)
  have numeric' := after.isNumeric numeric fun _ => False.elim
  refine { numeric' with coherent := fun i f found => ?_ }
  have body : ∀ t ∈ f.body, t.isNumeric = true := numeric'.numeric i f found
  rw [getElem?_forgetAll] at found
  split at found
  · obtain ⟨g, -, rfl⟩ := Option.map_eq_some_iff.1 found
    exact .of_nothing _ i rfl rfl
  · next unaffected =>
    rcases kept i f found unaffected with ⟨inside, coherent⟩ | ⟨results, code⟩
    · refine coherent.congr sound.toIsNumeric numeric' body fun depth args => ?_
      rw [after.substituted_eq numeric fun _ => False.elim,
        agree.substituted_eq sound.numeric depth inside args]
    · exact .of_nothing _ i results code

/-- An assignment of a plain number leaves a session sound. -/
theorem Sound.assign (sound : s.Sound settings) (id : CellId) {value : Value}
    (plain : value.IsPlain) : (s.assign id value).Sound settings := by
  have after : s.AfterCalls (· = id) (s.store id value) := afterCalls_store value
  have numeric : (s.store id value).IsNumeric settings :=
    after.isNumeric sound.toIsNumeric fun id' _ => isPlain_store plain sound.plain id'
  refine sound.forgetFrom (U := fun i => .function i ∉ (s.store id value).affected
    (s.cell id).dependents) numeric ?_ fun i f found unaffected =>
      .inl ⟨unaffected, sound.coherent i f found⟩
  refine ⟨rfl, fun _ _ => rfl, fun i f unaffected found closed id' name within free => ?_,
    fun i j unaffected ⟨f, found, closed, name, count, within⟩ => ?_⟩
  · -- a function that reads the variable is affected
    have known : i < (s.store id value).functions.size := (Array.getElem?_eq_some_iff.1 found).1
    have tells := sound.tells i f found closed (.variable (some id') name) (by
      simp [UserFunction.freeTokens, within, free])
    have other : id' ≠ id := by
      rintro rfl
      exact not_mem_of_not_mem_affected unaffected known tells
    simp only [assigned?, after.cells id' other]
  · -- and so is a function that calls an affected one
    have known : i < (s.store id value).functions.size := (Array.getElem?_eq_some_iff.1 found).1
    have tells := sound.tells i f found closed (.call (some j) name count) (by
      simp [UserFunction.freeTokens, within])
    exact not_mem_affected_of_tells unaffected known (after.dependentsOf_eq _ ▸ tells)

end UnitCalc.Session

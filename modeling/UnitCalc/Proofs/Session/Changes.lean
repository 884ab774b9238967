/-
# Changes of cells and functions

What the primitive changes of a session do to its cells and its functions.
-/

import UnitCalc.Proofs.Session.Coherence

namespace UnitCalc

namespace Session

variable {s : Session} {id id' : CellId} {i j : Nat}

theorem cell_eq (s : Session) (id : CellId) : s.cell id = s.cells[id]?.getD {} :=
  Array.getD_eq_getD_getElem? ..

/-- Another cell is not changed. -/
theorem cell_modifyCell_of_ne (f : Cell → Cell) (other : id' ≠ id) :
    (s.modifyCell id f).cell id' = s.cell id' := by
  simp only [cell_eq, modifyCell]
  rw [Array.getElem?_modify, if_neg other.symm]

theorem cell_modifyCell (f : Cell → Cell) (within : id < s.cells.size) :
    (s.modifyCell id f).cell id = f (s.cell id) := by
  simp only [cell_eq, modifyCell]
  rw [Array.getElem?_modify, if_pos rfl, Array.getElem?_eq_getElem within]
  rfl

theorem cells_size_modifyCell (f : Cell → Cell) :
    (s.modifyCell id f).cells.size = s.cells.size :=
  Array.size_modify

/-- A property of a cell that a change keeps. -/
theorem cell_modifyCell_keeps {α : Type} (g : Cell → α) {f : Cell → Cell}
    (keeps : ∀ c, g (f c) = g c) (id' : CellId) : g ((s.modifyCell id f).cell id') = g (s.cell id') := by
  by_cases same : id' = id
  · subst same
    by_cases within : id' < s.cells.size
    · rw [cell_modifyCell f within, keeps]
    · have absent : s.cells[id']? = none := Array.getElem?_eq_none (Nat.not_lt.1 within)
      simp only [cell_eq, modifyCell]
      rw [Array.getElem?_modify, if_pos rfl, absent]
      rfl
  · rw [cell_modifyCell_of_ne f same]

theorem getElem?_modifyFunction (f : UserFunction → UserFunction) :
    (s.modifyFunction i f).functions[j]? =
      if i = j then s.functions[j]?.map f else s.functions[j]? :=
  Array.getElem?_modify

theorem functions_size_modifyFunction (f : UserFunction → UserFunction) :
    (s.modifyFunction i f).functions.size = s.functions.size :=
  Array.size_modify

/-- A change of what a function keeps. -/
theorem afterCalls_modifyFunction {f : UserFunction → UserFunction} (free : CellId → Prop)
    (keeps : ∀ g, (f g).bare = g.bare) : s.AfterCalls free (s.modifyFunction i f) :=
  { AfterCalls.refl free s with
    functions := fun j => by
      rw [getElem?_modifyFunction]
      split
      · rw [Option.map_map]
        congr 1
        funext g
        exact keeps g
      · rfl
    dependents := fun _ => rfl
    cells := fun _ _ => rfl }

/-- A value that is stored in a cell. -/
theorem afterCalls_store (value : Value) : s.AfterCalls (· = id) (s.store id value) :=
  { AfterCalls.refl (· = id) s with
    size := cells_size_modifyCell _
    dependents := cell_modifyCell_keeps Cell.dependents fun _ => rfl
    cells := fun _ other => cell_modifyCell_of_ne _ other }

theorem assigned?_store (value : Value) (within : id < s.cells.size) :
    (s.store id value).assigned? id = some value := by
  simp only [assigned?, store, cell_modifyCell _ within, if_true]

theorem isPlain_store {value : Value} (plain : value.IsPlain)
    (others : ∀ id, (s.cell id).value.IsPlain) (id' : CellId) :
    ((s.store id value).cell id').value.IsPlain := by
  by_cases same : id' = id
  · subst same
    by_cases within : id' < s.cells.size
    · rw [store, cell_modifyCell _ within]
      exact plain
    · rw [cell_eq, Array.getElem?_eq_none]
      · exact .ofNumber _
      · rw [store, cells_size_modifyCell]
        exact Nat.not_lt.1 within
  · rw [store, cell_modifyCell_of_ne _ same]
    exact others id'

theorem storeAll_cons (value : Value) (cells : List CellId) (args : List Value) :
    s.storeAll (id :: cells) (value :: args) = (s.store id value).storeAll cells args := rfl

/-- Arguments that are stored in the cells of parameters. -/
theorem afterCalls_storeAll (cells : List CellId) (args : List Value) :
    s.AfterCalls (· ∈ cells) (s.storeAll cells args) := by
  induction cells generalizing s args with
  | nil => exact .refl _ s
  | cons id cells ih =>
    cases args with
    | nil => exact .refl _ s
    | cons value args =>
      rw [storeAll_cons]
      exact ((afterCalls_store value).mono fun _ same => same ▸ List.mem_cons_self).trans
        ((ih args).mono fun _ => List.mem_cons_of_mem id)

/-- Every parameter holds its argument. -/
theorem assigned?_storeAll {parameters : List (String × CellId)} {args : List Value} {name : String}
    (distinct : (parameters.map Prod.snd).Nodup)
    (within : ∀ id ∈ parameters.map Prod.snd, id < s.cells.size)
    (enough : args.length = parameters.length) (found : parameters.lookup name = some id) :
    (s.storeAll (parameters.map Prod.snd) args).assigned? id =
      ((parameters.map Prod.fst).zip args).lookup name := by
  induction parameters generalizing s args with
  | nil => cases found
  | cons parameter parameters ih =>
    obtain ⟨first, cell⟩ := parameter
    obtain ⟨value, args, rfl⟩ := List.exists_cons_of_length_eq_add_one enough
    simp only [List.map_cons, List.nodup_cons, List.forall_mem_cons] at distinct within
    simp only [List.map_cons, storeAll_cons, List.zip_cons_cons, List.lookup_cons] at found ⊢
    split at found
    · -- later parameters have other cells
      cases found
      have kept := (s.store id value).afterCalls_storeAll (parameters.map Prod.snd) args
      simp only [assigned?, kept.cells id distinct.1]
      exact assigned?_store value within.1
    · refine ih distinct.2 (fun id' inside => ?_) (by simpa using enough) found
      rw [store, cells_size_modifyCell]
      exact within.2 id' inside

end Session

end UnitCalc

/-
# Values of variables

What a name is worth in a session. Reading an expression makes cells for new names, which have no
value, and changes nothing else. An assignment gives a value to one name, since no two names denote
the same cell. The cells of parameters have no names, so they may be set while all variables keep
their values.

## Main definitions

* `Session.AddsCells`: a session with cells for new names, and nothing else.
* `Session.assignAll`: values are assigned to names one after the other.

## Main results

* `Session.value?_setValue`, `Session.value?_assignAll`: what names are worth after assignments.
-/

import UnitCalc.Proofs.Session.Informed
import UnitCalc.Proofs.Statement.Scan
import UnitCalc.Session.Evaluation

namespace UnitCalc

namespace Session

variable {s s' s'' : Session} {name : String} {id : CellId}

/-- A session in which new names have cells without a value, and nothing else is new. -/
structure AddsCells (s s' : Session) : Prop extends Extends s s' where
  same : s' = { s with cells := s'.cells, cellNames := s'.cellNames }
  unassigned : ∀ id, s.cells.size ≤ id → s'.assigned? id = none

namespace AddsCells

theorem refl (s : Session) : s.AddsCells s :=
  { Extends.refl s with
    same := rfl
    unassigned := fun id beyond => by
      simp [assigned?, Extends.cell_of_size_le beyond] }

theorem trans (first : s.AddsCells s') (second : s'.AddsCells s'') : s.AddsCells s'' :=
  { first.toExtends.trans second.toExtends with
    same := by rw [second.same, first.same]
    unassigned := fun id beyond => by
      by_cases old : id < s'.cells.size
      · rw [assigned?, second.cell id old]
        exact first.unassigned id beyond
      · exact second.unassigned id (Nat.not_lt.1 old) }

/-- Variables keep their values, and new ones have none. -/
theorem value?_eq (adds : s.AddsCells s') (separates : s.SeparatesNames) (name : String) :
    s'.value? name = s.value? name := by
  unfold value?
  -- An old name keeps its cell, and a new one has a cell without a value.
  cases old : s.cellNames.lookup name with
  | some id =>
    rw [adds.keepsName name id old, Option.bind_some, Option.bind_some, assigned?, assigned?,
      adds.cell id (separates.named name id old)]
  | none =>
    cases new : s'.cellNames.lookup name with
    | none => rfl
    | some id =>
      rcases adds.newName name id new with old' | ⟨beyond, -⟩
      · cases old.symm.trans old'
      · exact adds.unassigned id beyond

end AddsCells

theorem addsCells_cellOf (s : Session) (name : String) : s.AddsCells (s.cellOf name).2 := by
  have ext := (s.extends_cellOf name).1
  refine { ext with same := ?_, unassigned := fun id beyond => ?_ } <;> unfold cellOf
  · split <;> rfl
  · split
    · exact (AddsCells.refl s).unassigned id beyond
    · -- the cell is the new one, or there is none
      rw [assigned?, cell_eq]
      simp only [newCell, Array.getElem?_push]
      split
      · rfl
      · rw [Array.getElem?_eq_none beyond]
        rfl

/-- Reading without blocks and inputs adds cells. The tokens are of the session and no blocks. -/
theorem reading_addsCells :
    Reading AddsCells NamesFunctions fun s t => s.Knows t ∧ t.blockIndex? = none where
  refl := .refl
  trans := .trans
  keeps adds := adds.toExtends.namesFunctions
  mono adds knows := ⟨adds.toExtends.knows knows.1, knows.2⟩
  free {s t} free spelled := by
    refine ⟨reading_extends.free free spelled, ?_⟩
    cases t <;> first | rfl | cases free
  call names found := ⟨reading_extends.call names found, rfl⟩
  forward names none := ⟨reading_extends.forward names none, rfl⟩
  cell name names := ⟨addsCells_cellOf _ name, (reading_extends.cell name names).2, rfl⟩

/-- Variables keep their values when names and cells do. -/
theorem value?_congr (cellNames : s'.cellNames = s.cellNames)
    (assigned : ∀ id, s'.assigned? id = s.assigned? id) (name : String) :
    s'.value? name = s.value? name := by
  rw [value?, value?, cellNames]
  exact congrArg _ (funext assigned)

/-- New cells without names leave the values of variables as they are. -/
theorem Extends.value?_eq (ext : s.Extends s') (separates : s.SeparatesNames)
    (cellNames : s'.cellNames = s.cellNames) (name : String) :
    s'.value? name = s.value? name := by
  rw [value?, value?, cellNames]
  cases found : s.cellNames.lookup name with
  | none => rfl
  | some id =>
    rw [Option.bind_some, Option.bind_some, assigned?, assigned?,
      ext.cell id (separates.named name id found)]

/-- New parameters have no names, so names keep their values. -/
theorem value?_newParameters (separates : s.SeparatesNames) (names : List String) (name : String) :
    (s.newParameters names).2.value? name = s.value? name :=
  (s.extends_newParameters names).value?_eq separates (s.cellNames_newParameters names) name

/-! ## Assignments -/

/-- Values are assigned to names one after the other. -/
def assignAll (s : Session) (values : List (String × Value)) : Session :=
  values.foldl (fun s (name, value) => s.setValue name value) s

theorem assigned?_assign (value : Value) (within : id < s.cells.size) :
    (s.assign id value).assigned? id = some value := by
  rw [assigned?, s.cell_assign within value]
  rfl

theorem separatesNames_setValue (separates : s.SeparatesNames) (name : String) (value : Value) :
    (s.setValue name value).SeparatesNames := by
  have after := (s.cellOf name).2.afterCalls_assign (s.cellOf name).1 value
  exact (separates.cellOf name).of_cellNames after.cellNames (Nat.le_of_eq after.size.symm)

/-- An assignment gives a value to one name. -/
theorem value?_setValue (separates : s.SeparatesNames) (name : String) (value : Value)
    (name' : String) :
    (s.setValue name value).value? name' = if name' = name then some value else s.value? name' := by
  obtain ⟨ext, named⟩ := s.extends_cellOf name
  have separates' := separates.cellOf name
  have after := (s.cellOf name).2.afterCalls_assign (s.cellOf name).1 value
  have names : (s.setValue name value).cellNames = (s.cellOf name).2.cellNames := after.cellNames
  split
  · next same =>
    subst same
    rw [value?, names, named, Option.bind_some]
    exact assigned?_assign value (separates'.named _ _ named)
  · next other =>
    rw [← (s.addsCells_cellOf name).value?_eq separates, value?, value?, names]
    cases found : (s.cellOf name).2.cellNames.lookup name' with
    | none => rfl
    | some id =>
      -- No two names denote one cell, so the other cell is not touched.
      have different : id ≠ (s.cellOf name).1 := by
        rintro rfl
        exact other (separates'.separate _ _ _ found named)
      rw [Option.bind_some, Option.bind_some, assigned?, assigned?, ← after.cells id different]
      rfl

/-- An assignment to a cell gives a value to its name. -/
theorem value?_assign (separates : s.SeparatesNames) (named : s.cellNames.lookup name = some id)
    (value : Value) (name' : String) :
    (s.assign id value).value? name' = if name' = name then some value else s.value? name' := by
  have same : s.setValue name value = s.assign id value := by
    rw [setValue, cellOf, named]
  rw [← same]
  exact value?_setValue separates name value name'

theorem separatesNames_assignAll (separates : s.SeparatesNames) (values : List (String × Value)) :
    (s.assignAll values).SeparatesNames := by
  unfold assignAll
  induction values generalizing s with
  | nil => exact separates
  | cons value values ih => exact ih (separatesNames_setValue separates _ _)

/-- When no name is repeated, names have the values that were assigned to them. -/
theorem value?_assignAll (separates : s.SeparatesNames) {values : List (String × Value)}
    (distinct : (values.map Prod.fst).Nodup) (name : String) :
    (s.assignAll values).value? name = (values.lookup name).or (s.value? name) := by
  unfold assignAll
  -- The last assignment to a name counts; without repetitions it is the only one.
  induction values generalizing s with
  | nil => rfl
  | cons first values ih =>
    obtain ⟨name', value⟩ := first
    rw [List.map_cons, List.nodup_cons] at distinct
    rw [List.foldl_cons, ih (separatesNames_setValue separates _ _) distinct.2,
      value?_setValue separates, List.lookup_cons]
    by_cases same : name = name'
    · subst same
      -- The name does not come again behind.
      have absent : values.lookup name = none := by
        rw [List.lookup_eq_none_iff]
        intro p within
        exact bne_iff_ne.2 fun same => distinct.1 (List.mem_map.2 ⟨p, within, same.symm⟩)
      simp [absent]
    · simp only [if_neg same, beq_eq_false_iff_ne.2 same]

/-! ## Parameters -/

theorem map_fst_newParameters (s : Session) (names : List String) :
    (s.newParameters names).1.map Prod.fst = names := by
  induction names generalizing s with
  | nil => rfl
  | cons name names ih => exact congrArg (name :: ·) (ih s.newParameter.2)

/-- Parameters count as assigned before they are set. -/
theorem isAssigned_newParameters (s : Session) (names : List String) :
    ∀ id ∈ (s.newParameters names).1.map Prod.snd,
      (s.newParameters names).2.isAssigned id = true := by
  induction names generalizing s with
  | nil => exact List.forall_mem_nil _
  | cons name names ih =>
    refine List.forall_mem_cons.2 ⟨?_, ih s.newParameter.2⟩
    have ext := s.newParameter.2.extends_newParameters names
    have within : s.cells.size < s.newParameter.2.cells.size := by simp [newParameter, newCell]
    change ((s.newParameter.2.newParameters names).2.cell s.cells.size).isAssigned = true
    rw [ext.cell _ within, cell_eq]
    simp [newParameter, newCell]

theorem isSome_lookup_zip {parameters : List (String × CellId)} {args : List Value}
    (enough : args.length = parameters.length) (name : String) :
    (((parameters.map Prod.fst).zip args).lookup name).isSome =
      (parameters.lookup name).isSome := by
  induction parameters generalizing args with
  | nil => rfl
  | cons parameter parameters ih =>
    obtain ⟨value, args, rfl⟩ := List.exists_cons_of_length_eq_add_one enough
    rw [List.map_cons, List.zip_cons_cons, List.lookup_cons, List.lookup_cons]
    split
    · rfl
    · exact ih (by simpa using enough)

end Session

end UnitCalc

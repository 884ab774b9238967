/-
# New cells

Reading statements makes new cells for names, and definitions make new cells for parameters.
The functions of a session know nothing of them, so the session stays sound.

## Main definitions

* `Session.Extends`: a session with new cells, and new names for some of them.

## Main results

* `Session.Extends.sound`: new cells leave a session sound.
-/

import UnitCalc.Proofs.Session.Forget

namespace UnitCalc.Session

variable {s s' s'' : Session} {settings : Settings}

/-- Names denote cells of the session, and no two names the same one. -/
structure SeparatesNames (s : Session) : Prop where
  named : ∀ name id, s.cellNames.lookup name = some id → id < s.cells.size
  separate : ∀ name name' id, s.cellNames.lookup name = some id →
    s.cellNames.lookup name' = some id → name = name'

/-- A session with new cells. New names denote new cells. -/
structure Extends (s s' : Session) : Prop where
  settings : s'.settings = s.settings
  units : s'.units = s.units
  isCancelled : s'.isCancelled = s.isCancelled
  functions : s'.functions = s.functions
  functionNames : s'.functionNames = s.functionNames
  blocks : s'.blocks = s.blocks
  size : s.cells.size ≤ s'.cells.size
  cell : ∀ id < s.cells.size, s'.cell id = s.cell id
  plain : ∀ id, s.cells.size ≤ id → (s'.cell id).value.IsPlain
  keepsName : ∀ name id, s.cellNames.lookup name = some id → s'.cellNames.lookup name = some id
  newName : ∀ name id, s'.cellNames.lookup name = some id →
    s.cellNames.lookup name = some id ∨ s.cells.size ≤ id ∧ id < s'.cells.size
  separates : s.SeparatesNames → s'.SeparatesNames

/-- A session with the same names, and no fewer cells. -/
theorem SeparatesNames.of_cellNames (separates : s.SeparatesNames) (same : s'.cellNames = s.cellNames)
    (size : s.cells.size ≤ s'.cells.size) : s'.SeparatesNames where
  named name id found := Nat.lt_of_lt_of_le (separates.named name id (same ▸ found)) size
  separate name name' id found found' :=
    separates.separate name name' id (same ▸ found) (same ▸ found')

namespace Extends

theorem cell_of_size_le {id : CellId} (beyond : s.cells.size ≤ id) : s.cell id = {} := by
  rw [cell_eq, Array.getElem?_eq_none beyond]
  rfl

theorem refl (s : Session) : s.Extends s where
  settings := rfl
  units := rfl
  isCancelled := rfl
  functions := rfl
  functionNames := rfl
  blocks := rfl
  size := Nat.le_refl _
  cell _ _ := rfl
  plain id beyond := by
    rw [cell_of_size_le beyond]
    exact .ofNumber _
  keepsName _ _ := id
  newName _ _ := .inl
  separates := id

theorem trans (first : s.Extends s') (second : s'.Extends s'') : s.Extends s'' where
  settings := second.settings.trans first.settings
  units := second.units.trans first.units
  isCancelled := second.isCancelled.trans first.isCancelled
  functions := second.functions.trans first.functions
  functionNames := second.functionNames.trans first.functionNames
  blocks := second.blocks.trans first.blocks
  size := Nat.le_trans first.size second.size
  cell id within := (second.cell id (Nat.lt_of_lt_of_le within first.size)).trans (first.cell id within)
  plain id beyond := by
    by_cases within : id < s'.cells.size
    · rw [second.cell id within]
      exact first.plain id beyond
    · exact second.plain id (Nat.not_lt.1 within)
  keepsName name id found := second.keepsName name id (first.keepsName name id found)
  newName name id found := by
    rcases second.newName name id found with old | ⟨beyond, within⟩
    · rcases first.newName name id old with older | ⟨beyond, within⟩
      · exact .inl older
      · exact .inr ⟨beyond, Nat.lt_of_lt_of_le within second.size⟩
    · exact .inr ⟨Nat.le_trans first.size beyond, within⟩
  separates := second.separates ∘ first.separates

theorem leads_eq (ext : s.Extends s') : s'.Leads = s.Leads := by
  funext i j
  simp only [Leads, ext.functions]

theorem isPrivate (ext : s.Extends s') {id : CellId} (old : s.IsPrivate id) : s'.IsPrivate id where
  exists_ := Nat.lt_of_lt_of_le old.exists_ ext.size
  unnamed name found := by
    rcases ext.newName name id found with named | ⟨beyond, -⟩
    · exact old.unnamed name named
    · exact Nat.not_lt.2 beyond old.exists_

/-- New cells leave a numeric session numeric. -/
theorem isNumeric (ext : s.Extends s') (numeric : s.IsNumeric settings) :
    s'.IsNumeric settings where
  settings := ext.settings.trans numeric.settings
  units := ext.units.trans numeric.units
  going := ext.isCancelled.trans numeric.going
  plain id := by
    by_cases within : id < s.cells.size
    · rw [ext.cell id within]
      exact numeric.plain id
    · exact ext.plain id (Nat.not_lt.1 within)
  named name id found := by
    rcases ext.newName name id found with old | ⟨-, within⟩
    · exact Nat.lt_of_lt_of_le (numeric.named name id old) ext.size
    · exact within
  functionNamed := by
    rw [ext.functionNames, ext.functions]
    exact numeric.functionNamed
  unit := by
    rw [ext.functions]
    exact numeric.unit
  numeric := by
    unfold HasNumericBodies
    rw [ext.functions]
    exact numeric.numeric
  binds := by
    rw [ext.functions]
    intro i f found t within
    have bound := numeric.binds i f found t within
    unfold Binds at bound ⊢
    split at bound
    · next name =>
      obtain ⟨id, same, bound⟩ := bound
      refine ⟨id, same, ?_⟩
      cases parameter : f.parameters.lookup name with
      | some cell =>
        rw [parameter, Option.some_or] at bound
        rw [Option.some_or]
        exact bound
      | none =>
        rw [parameter, Option.none_or] at bound
        rw [Option.none_or]
        exact ext.keepsName name id bound
    · rw [ext.functions]
      exact bound
    · trivial
  distinct := by
    rw [ext.functions]
    exact numeric.distinct
  isPrivate := by
    rw [ext.functions]
    exact fun i f found id within => ext.isPrivate (numeric.isPrivate i f found id within)
  separate := by
    rw [ext.functions]
    exact numeric.separate
  tells := by
    rw [ext.functions]
    intro i f found closed t within
    have told := numeric.tells i f found closed t within
    unfold Tells at told ⊢
    split at told
    · next id name =>
      -- the cell has dependents, so it is no new one
      by_cases old : id < s.cells.size
      · rw [ext.cell id old]
        exact told
      · rw [cell_of_size_le (Nat.not_lt.1 old)] at told
        cases told
    · simp only [dependentsOf, ext.functions] at told ⊢
      exact told
    · trivial
  acyclic := by
    rw [ext.leads_eq]
    exact numeric.acyclic

/-- New cells leave a session sound. -/
theorem sound (ext : s.Extends s') (sound : s.Sound settings) : s'.Sound settings := by
  have numeric := ext.isNumeric sound.toIsNumeric
  have agree : s.AgreeOn s' fun _ => True := by
    refine ⟨ext.settings.symm, fun i _ => by rw [ext.functions], ?_, fun _ _ _ _ => trivial⟩
    intro i f _ found closed id name within free
    obtain ⟨id', same, bound⟩ := sound.binds i f found _ within
    cases same
    rw [free, Option.none_or] at bound
    simp only [assigned?, ext.cell id (sound.named name id bound)]
  refine { numeric with coherent := ?_ }
  rw [ext.functions]
  intro i f found
  exact (sound.coherent i f found).congr sound.toIsNumeric numeric (sound.numeric i f found)
    fun depth args => (agree.substituted_eq sound.numeric depth trivial args).symm

end Extends

theorem extends_newCell (s : Session) {cell : Cell} (plain : cell.value.IsPlain) :
    s.Extends (s.newCell cell).2 :=
  { Extends.refl s with
    size := by simp [newCell]
    cell := fun id within => by
      rw [cell_eq, cell_eq, newCell, Array.getElem?_push_lt within, Array.getElem?_eq_getElem within]
    plain := fun id beyond => by
      rw [cell_eq, newCell, Array.getElem?_push]
      split
      · exact plain
      · rw [Array.getElem?_eq_none beyond]
        exact .ofNumber _
    newName := fun name id found => .inl found
    separates := fun separates => separates.of_cellNames rfl (by simp [newCell]) }

/-- A new name may denote a new cell. -/
theorem SeparatesNames.cellOf (separates : s.SeparatesNames) (name : String) :
    (s.cellOf name).2.SeparatesNames := by
  unfold Session.cellOf
  split
  · exact separates
  · -- the new cell lies behind those that have a name
    have old : ∀ {name' id}, ((name, s.cells.size) :: s.cellNames).lookup name' = some id →
        name' = name ∧ id = s.cells.size ∨ s.cellNames.lookup name' = some id ∧ id < s.cells.size := by
      intro name' id found
      rw [List.lookup_cons] at found
      split at found
      · next same =>
        cases found
        exact .inl ⟨beq_iff_eq.1 same, rfl⟩
      · exact .inr ⟨found, separates.named _ _ found⟩
    refine ⟨fun name' id found => ?_, fun name' name'' id found found' => ?_⟩
    · have size : (s.newCell {}).2.cells.size = s.cells.size + 1 := by simp [newCell]
      change id < (s.newCell {}).2.cells.size
      rw [size]
      rcases old found with ⟨-, rfl⟩ | ⟨-, within⟩
      · exact Nat.lt_succ_self _
      · exact Nat.lt_succ_of_lt within
    · rcases old found with ⟨same, here⟩ | ⟨named, within⟩ <;>
        rcases old found' with ⟨same', here'⟩ | ⟨named', within'⟩
      · exact same.trans same'.symm
      · exact absurd here (Nat.ne_of_lt within')
      · exact absurd here' (Nat.ne_of_lt within)
      · exact separates.separate _ _ _ named named'

/-- The cell of a name is the one that it denotes from then on. -/
theorem extends_cellOf (s : Session) (name : String) :
    s.Extends (s.cellOf name).2 ∧ (s.cellOf name).2.cellNames.lookup name = some (s.cellOf name).1 := by
  have separates : s.SeparatesNames → (s.cellOf name).2.SeparatesNames := fun h => h.cellOf name
  unfold cellOf at separates ⊢
  cases found : s.cellNames.lookup name with
  | some id => exact ⟨.refl s, found⟩
  | none =>
    rw [found] at separates
    have ext : s.Extends (s.newCell {}).2 := s.extends_newCell (.ofNumber _)
    refine ⟨{ ext with
      keepsName := fun name' id old => ?_
      newName := fun name' id found' => ?_
      separates }, by simp⟩
    · rw [List.lookup_cons]
      split
      · next same =>
        rw [beq_iff_eq.1 same, found] at old
        cases old
      · exact old
    · rw [List.lookup_cons] at found'
      split at found'
      · cases found'
        exact .inr ⟨Nat.le_refl _, by simp [newCell]⟩
      · exact .inl found'

/-- New parameters only add cells. -/
theorem newParameters_same (s : Session) (names : List String) :
    (s.newParameters names).2 = { s with cells := (s.newParameters names).2.cells } := by
  induction names generalizing s with
  | nil => rfl
  | cons name names ih => exact ih s.newParameter.2

theorem cellNames_newParameters (s : Session) (names : List String) :
    (s.newParameters names).2.cellNames = s.cellNames := by
  rw [newParameters_same]

theorem extends_newParameters (s : Session) (names : List String) :
    s.Extends (s.newParameters names).2 := by
  induction names generalizing s with
  | nil => exact .refl s
  | cons name names ih => exact (s.extends_newCell (.ofNumber _)).trans (ih s.newParameter.2)

/-- The cells of parameters are new ones. -/
theorem cells_newParameters (s : Session) (names : List String) :
    ((s.newParameters names).1.map Prod.snd).Nodup ∧
      ∀ id ∈ (s.newParameters names).1.map Prod.snd,
        s.cells.size ≤ id ∧ id < (s.newParameters names).2.cells.size := by
  induction names generalizing s with
  | nil => exact ⟨List.nodup_nil, List.forall_mem_nil _⟩
  | cons name names ih =>
    obtain ⟨distinct, new⟩ := ih s.newParameter.2
    have size : s.newParameter.2.cells.size = s.cells.size + 1 := by simp [newParameter, newCell]
    have more := (s.newParameter.2.extends_newParameters names).size
    rw [size] at new more
    refine ⟨List.nodup_cons.2 ⟨fun within => ?_, distinct⟩, List.forall_mem_cons.2 ⟨?_, ?_⟩⟩
    · exact absurd (new _ within).1 (Nat.not_succ_le_self _)
    · exact ⟨Nat.le_refl _, more⟩
    · exact fun id within => ⟨Nat.le_of_succ_le (new id within).1, (new id within).2⟩

end UnitCalc.Session

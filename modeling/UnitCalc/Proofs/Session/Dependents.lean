/-
# Telling dependents

A function that is defined is told to everything that its body refers to. Nothing else of a
session changes, and nobody is forgotten.

## Main definitions

* `Session.Grows`: dependents are added.

## Main results

* `Session.dependOnAll_spec`: what a body refers to knows about the function.
-/

import UnitCalc.Proofs.Session.Extension

namespace UnitCalc

/-- A function without what depends on it. -/
def UserFunction.undepended (f : UserFunction) : UserFunction :=
  { f with dependents := [] }

/-- A block without what depends on it. -/
def Block.undepended (b : Block) : Block :=
  { b with dependents := [] }

namespace Session

variable {s s' s'' : Session} {d : Dependent} {t : Token}

/-- A session in which more is told. -/
structure Grows (s s' : Session) : Prop where
  settings : s'.settings = s.settings
  units : s'.units = s.units
  isCancelled : s'.isCancelled = s.isCancelled
  cellNames : s'.cellNames = s.cellNames
  functionNames : s'.functionNames = s.functionNames
  functions : ∀ i : Nat,
    s'.functions[i]?.map UserFunction.undepended = s.functions[i]?.map UserFunction.undepended
  functionsSize : s'.functions.size = s.functions.size
  blocks : ∀ i : Nat, s'.blocks[i]?.map Block.undepended = s.blocks[i]?.map Block.undepended
  blocksSize : s'.blocks.size = s.blocks.size
  size : s'.cells.size = s.cells.size
  value : ∀ id, (s'.cell id).value = (s.cell id).value
  isAssigned : ∀ id, (s'.cell id).isAssigned = (s.cell id).isAssigned
  told : ∀ id, (s.cell id).dependents ⊆ (s'.cell id).dependents
  dependents : ∀ d, s.dependentsOf d ⊆ s'.dependentsOf d

theorem Grows.refl (s : Session) : s.Grows s :=
  ⟨rfl, rfl, rfl, rfl, rfl, fun _ => rfl, rfl, fun _ => rfl, rfl, rfl, fun _ => rfl, fun _ => rfl,
    fun _ => List.Subset.refl _, fun _ => List.Subset.refl _⟩

theorem Grows.trans (first : s.Grows s') (second : s'.Grows s'') : s.Grows s'' where
  settings := second.settings.trans first.settings
  units := second.units.trans first.units
  isCancelled := second.isCancelled.trans first.isCancelled
  cellNames := second.cellNames.trans first.cellNames
  functionNames := second.functionNames.trans first.functionNames
  functions i := (second.functions i).trans (first.functions i)
  functionsSize := second.functionsSize.trans first.functionsSize
  blocks i := (second.blocks i).trans (first.blocks i)
  blocksSize := second.blocksSize.trans first.blocksSize
  size := second.size.trans first.size
  value id := (second.value id).trans (first.value id)
  isAssigned id := (second.isAssigned id).trans (first.isAssigned id)
  told id := List.Subset.trans (first.told id) (second.told id)
  dependents d := List.Subset.trans (first.dependents d) (second.dependents d)

theorem Grows.tells (grows : s.Grows s') (told : s.Tells d t) : s'.Tells d t := by
  unfold Tells at told ⊢
  split at told
  · exact grows.told _ told
  · exact grows.dependents _ told
  · trivial

theorem subset_add (d : Dependent) (ds : List Dependent) : ds ⊆ d.add ds := by
  unfold Dependent.add
  split
  · exact List.Subset.refl ds
  · exact List.subset_append_left ds [d]

theorem mem_add (d : Dependent) (ds : List Dependent) : d ∈ d.add ds := by
  unfold Dependent.add
  split
  · next known => exact List.contains_iff_mem.1 known
  · exact List.mem_append_right ds List.mem_cons_self

theorem grows_modifyCell (s : Session) (id : CellId) (d : Dependent) :
    s.Grows (s.modifyCell id fun c => { c with dependents := d.add c.dependents }) := by
  refine { Grows.refl s with
    size := cells_size_modifyCell _
    value := cell_modifyCell_keeps Cell.value fun _ => rfl
    isAssigned := cell_modifyCell_keeps Cell.isAssigned fun _ => rfl
    told := fun id' => ?_ }
  by_cases same : id' = id
  · subst same
    by_cases within : id' < s.cells.size
    · rw [cell_modifyCell _ within]
      exact subset_add d _
    · rw [Extends.cell_of_size_le (Nat.not_lt.1 within)]
      exact List.nil_subset _
  · rw [cell_modifyCell_of_ne _ same]
    exact List.Subset.refl _

theorem grows_modifyFunction (s : Session) (index : Nat) (d : Dependent) :
    s.Grows (s.modifyFunction index fun f => { f with dependents := d.add f.dependents }) := by
  refine { Grows.refl s with
    functions := fun j => ?_
    functionsSize := functions_size_modifyFunction _
    dependents := fun e => ?_ }
  · rw [getElem?_modifyFunction]
    split
    · cases s.functions[j]? <;> rfl
    · rfl
  · cases e with
    | block j => exact List.Subset.refl _
    | function j =>
      simp only [dependentsOf, getElem?_modifyFunction]
      split
      · cases s.functions[j]? with
        | none => exact List.Subset.refl _
        | some f => exact subset_add d _
      · exact List.Subset.refl _

theorem grows_modifyBlock (s : Session) (index : Nat) (d : Dependent) :
    s.Grows (s.modifyBlock index fun b => { b with dependents := d.add b.dependents }) := by
  refine { Grows.refl s with
    blocks := fun j => ?_
    blocksSize := Array.size_modify
    dependents := fun e => ?_ }
  · rw [modifyBlock, Array.getElem?_modify]
    split
    · cases s.blocks[j]? <;> rfl
    · rfl
  · cases e with
    | function j => exact List.Subset.refl _
    | block j =>
      simp only [dependentsOf, modifyBlock]
      rw [Array.getElem?_modify]
      split
      · cases s.blocks[j]? with
        | none => exact List.Subset.refl _
        | some b => exact subset_add d _
      · exact List.Subset.refl _

/-- The cell or the function of a token exists. -/
def Exists (s : Session) : Token → Prop
  | .variable (some id) _ => id < s.cells.size
  | .call (some index) _ _ => index < s.functions.size
  | _ => True

/-- What a token refers to is told. -/
theorem dependOn_spec (s : Session) (d : Dependent) (t : Token) :
    s.Grows (s.dependOn d t) ∧ (s.Exists t → (s.dependOn d t).Tells d t) := by
  unfold dependOn Tells
  split
  · refine ⟨s.grows_modifyCell _ d, fun known => ?_⟩
    simp only
    rw [cell_modifyCell _ known]
    exact mem_add d _
  · next index _ _ =>
    refine ⟨s.grows_modifyFunction _ d, fun known => ?_⟩
    simp only [dependentsOf, getElem?_modifyFunction, if_true]
    rw [Array.getElem?_eq_getElem known]
    exact mem_add d _
  · exact ⟨s.grows_modifyBlock _ d, fun _ => trivial⟩
  · next other other' _ =>
    refine ⟨.refl s, fun _ => ?_⟩
    split
    · exact absurd rfl (other _ _)
    · exact absurd rfl (other' _ _ _)
    · trivial

theorem Grows.exists_iff (grows : s.Grows s') : s'.Exists t ↔ s.Exists t := by
  unfold Exists
  split
  · rw [grows.size]
  · rw [grows.functionsSize]
  · rfl

/-- Everything that tokens refer to is told. -/
theorem dependOnAll_spec (s : Session) (d : Dependent) (tokens : List Token) :
    s.Grows (s.dependOnAll d tokens) ∧
      ∀ t ∈ tokens, s.Exists t → (s.dependOnAll d tokens).Tells d t := by
  unfold dependOnAll
  induction tokens generalizing s with
  | nil => exact ⟨.refl s, List.forall_mem_nil _⟩
  | cons t tokens ih =>
    obtain ⟨first, told⟩ := s.dependOn_spec d t
    obtain ⟨rest, others⟩ := ih (s.dependOn d t)
    refine ⟨first.trans rest, fun u within known => ?_⟩
    rcases List.mem_cons.1 within with rfl | within
    · exact rest.tells (told known)
    · exact others u within (first.exists_iff.2 known)

end Session

end UnitCalc

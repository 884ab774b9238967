/-
# What reading leaves alone

Reading a text that defines no function makes cells, binds new blocks to cells of parameters and
adds blocks. All that was there before stays as it is: units, functions and their definitions,
blocks, and the values of variables. Only a block that searches for an extreme value assigns
something when it is added. The variable that it leaves the place in becomes undefined, and what
depends on that variable drops its results.

## Main definitions

* `Block.place?`: the name of the variable that a block leaves the place of an extreme value in.
* `Session.IsPlace`: a variable of this kind, of a block that is not one of the first ones.
* `Session.Hears`: what is told of an assignment to a cell.
* `Session.IsSplit`: later blocks refer to none of the first ones.
* `Session.Spares`: what a session is after a change that leaves alone what it had.

## Main results

* `Session.spares_bindProgram`: binding a program that refers to later blocks spares a session.
* `Session.spares_place`: so does adding a block, with the place of its extreme value.
-/

import UnitCalc.Proofs.Session.Placement
import UnitCalc.Proofs.Session.Values

namespace UnitCalc

/-- The token refers to none of the first `n` blocks. -/
def Token.IsAbove (n : Nat) (t : Token) : Prop :=
  ∀ i, t.reference? = some (.block i) → n ≤ i

/-- The name of the variable that a block leaves the place of an extreme value in. -/
def Block.place? (b : Block) : Option String :=
  b.method.placeSuffix?.map (b.unknownName ++ ·)

/-- A block as it was read, without code and without what depends on it. -/
def Block.definition (b : Block) : Block :=
  b.undepended.forget

namespace Session

variable {n : Nat} {s s' s'' : Session} {id : CellId} {d e : Dependent} {i : Nat} {name : String}

/-- A function or a block that is told when a cell is assigned: it depends on the cell, or on what
is told. -/
inductive Hears (s : Session) (id : CellId) : Dependent → Prop where
  | cell {d : Dependent} (told : d ∈ (s.cell id).dependents) : Hears s id d
  | through {d e : Dependent} (hears : Hears s id d) (told : e ∈ s.dependentsOf d) : Hears s id e

/-- The name of the variable that a block of the session leaves a place in. -/
def placeOf (s : Session) (i : Nat) : Option String :=
  s.blocks[i]?.bind Block.place?

/-- A block behind the first ones leaves the place of an extreme value in the variable of the
name. -/
def LeavesPlace (n : Nat) (s : Session) (name : String) : Prop :=
  ∃ i, n ≤ i ∧ s.placeOf i = some name

/-- No block was evaluated that leaves a place behind the first ones. -/
def PlacesUndefined (n : Nat) (s : Session) : Prop :=
  ∀ name, s.LeavesPlace n name → s.value? name = some .undefined

/-- There are `n` blocks at least, and those behind them refer to none of them. -/
structure IsSplit (n : Nat) (s : Session) : Prop where
  size : n ≤ s.blocks.size
  above : ∀ i j, n ≤ i → .block j ∈ s.references (.block i) → n ≤ j

/-- The blocks from `n` to `m` refer to none of the first `n` blocks. -/
def IsCut (n m : Nat) (s : Session) : Prop :=
  ∀ i j, n ≤ i → i ≤ m → .block j ∈ s.references (.block i) → n ≤ j

theorem IsSplit.isCut (split : s.IsSplit n) (m : Nat) : s.IsCut n m :=
  fun i j later _ => split.above i j later

/-- All blocks are first ones. -/
theorem isSplit_size (s : Session) : s.IsSplit s.blocks.size := by
  refine ⟨Nat.le_refl _, fun i j later refers => ?_⟩
  rw [references, tokensOf, Array.getElem?_eq_none later] at refers
  cases refers

/-- The results that a function keeps. -/
def resultsOf (s : Session) (i : Nat) : List (List ArgumentKey × Value) :=
  s.functions[i]?.elim [] UserFunction.results

/-- A change that leaves alone what a session had, its first `n` blocks in particular. Only
variables for places of extreme values are assigned, and what hears of that drops its results. -/
structure Spares (n : Nat) (s s' : Session) : Prop where
  units : s'.units = s.units
  functionNames : s'.functionNames = s.functionNames
  definitionOf : ∀ i, s'.definitionOf i = s.definitionOf i
  block : ∀ i < n, s'.blocks[i]?.map Block.definition = s.blocks[i]?.map Block.definition
  keepsName : ∀ name id, s.cellNames.lookup name = some id → s'.cellNames.lookup name = some id
  leavesPlace : ∀ name, s.LeavesPlace n name → s'.LeavesPlace n name
  placesUndefined : s.PlacesUndefined n → s'.PlacesUndefined n
  value : ∀ name, s'.value? name = s.value? name ∨
    s'.LeavesPlace n name ∧ s'.value? name = some .undefined
  hears : ∀ id d, s.Hears id d → s'.Hears id d
  resultsOf : ∀ i, s'.resultsOf i = s.resultsOf i ∨ s'.resultsOf i = [] ∧ ∃ name id,
    s'.LeavesPlace n name ∧ s'.cellNames.lookup name = some id ∧ s'.Hears id (.function i)
  drops : ∀ name id, s.cellNames.lookup name = some id → s'.value? name ≠ s.value? name →
    ∀ i, s.Hears id (.function i) → s'.resultsOf i = []
  isSplit : s.IsSplit n → s'.IsSplit n

theorem Hears.mono (told : ∀ id, (s.cell id).dependents ⊆ (s'.cell id).dependents)
    (dependents : ∀ d, s.dependentsOf d ⊆ s'.dependentsOf d) (hears : s.Hears id d) :
    s'.Hears id d := by
  induction hears with
  | cell known => exact .cell (told id known)
  | through _ known ih => exact .through ih (dependents _ known)

/-- What an assignment affects hears of it. -/
theorem hears_of_mem_affected (affected : d ∈ s.affected (s.cell id).dependents) :
    s.Hears id d := by
  obtain ⟨e, told, path⟩ := Graph.exists_path_of_mem_reach affected
  clear affected
  induction path with
  | refl => exact .cell told
  | tail _ edge ih => exact .through ih edge

theorem mem_dependents_of_told (told : e ∈ s.dependentsOf d) : d ∈ s.dependents := by
  rw [mem_dependents_iff]
  by_contra missing
  cases d with
  | function i =>
    rw [dependentsOf, Array.getElem?_eq_none (Nat.not_lt.1 missing)] at told
    cases told
  | block i =>
    rw [dependentsOf, Array.getElem?_eq_none (Nat.not_lt.1 missing)] at told
    cases told

/-- What hears of an assignment is affected by it, as far as it exists. -/
theorem mem_affected_of_hears (hears : s.Hears id d) (known : d ∈ s.dependents) :
    d ∈ s.affected (s.cell id).dependents := by
  induction hears with
  | cell told => exact Graph.mem_reach_of_pending told known
  | through _ told ih =>
    exact Graph.mem_reach_of_edge (ih (mem_dependents_of_told told)) told known

theorem leavesPlace_of_placeOf (same : ∀ i name, s.placeOf i = some name →
    s'.placeOf i = some name) (leaves : s.LeavesPlace n name) : s'.LeavesPlace n name := by
  obtain ⟨i, later, place⟩ := leaves
  exact ⟨i, later, same i name place⟩

namespace Spares

theorem refl (n : Nat) (s : Session) : s.Spares n s where
  units := rfl
  functionNames := rfl
  definitionOf _ := rfl
  block _ _ := rfl
  keepsName _ _ same := same
  leavesPlace _ leaves := leaves
  placesUndefined undefined := undefined
  value _ := .inl rfl
  hears _ _ hears := hears
  resultsOf _ := .inl rfl
  drops _ _ _ changed := absurd rfl changed
  isSplit split := split

theorem trans (first : s.Spares n s') (second : s'.Spares n s'') : s.Spares n s'' where
  units := second.units.trans first.units
  functionNames := second.functionNames.trans first.functionNames
  definitionOf i := (second.definitionOf i).trans (first.definitionOf i)
  block i within := (second.block i within).trans (first.block i within)
  keepsName name id named := second.keepsName name id (first.keepsName name id named)
  leavesPlace name leaves := second.leavesPlace name (first.leavesPlace name leaves)
  placesUndefined undefined := second.placesUndefined (first.placesUndefined undefined)
  value name := by
    rcases second.value name with same | place
    · rw [same]
      exact (first.value name).imp_right (And.imp_left (second.leavesPlace name))
    · exact .inr place
  hears id d hears := second.hears id d (first.hears id d hears)
  resultsOf i := by
    rcases second.resultsOf i with same | dropped
    · rw [same]
      refine (first.resultsOf i).imp_right fun ⟨none', name, id, leaves, named, hears⟩ => ?_
      exact ⟨none', name, id, second.leavesPlace name leaves, second.keepsName name id named,
        second.hears id _ hears⟩
    · exact .inr dropped
  drops name id named changed i hears := by
    by_cases kept : s'.value? name = s.value? name
    · rw [← kept] at changed
      exact second.drops name id (first.keepsName name id named) changed i (first.hears id _ hears)
    · have dropped := first.drops name id named kept i hears
      rcases second.resultsOf i with same | ⟨none', -⟩
      · rwa [same]
      · exact none'
  isSplit split := second.isSplit (first.isSplit split)

end Spares

/-! ## Cells -/

/-- A change of cells and of later blocks. Variables keep their values, and functions stay. -/
theorem spares_of_values (units : s'.units = s.units)
    (functionNames : s'.functionNames = s.functionNames) (functions : s'.functions = s.functions)
    (block : ∀ i < n, s'.blocks[i]?.map Block.definition = s.blocks[i]?.map Block.definition)
    (places : ∀ i, s'.placeOf i = s.placeOf i)
    (dependents : ∀ i, s'.dependentsOf (.block i) = s.dependentsOf (.block i))
    (told : ∀ id, (s.cell id).dependents ⊆ (s'.cell id).dependents)
    (keepsName : ∀ name id, s.cellNames.lookup name = some id → s'.cellNames.lookup name = some id)
    (value : ∀ name, s'.value? name = s.value? name) (isSplit : s.IsSplit n → s'.IsSplit n) :
    s.Spares n s' where
  units := units
  functionNames := functionNames
  definitionOf i := by rw [Session.definitionOf, Session.definitionOf, functions]
  block := block
  keepsName := keepsName
  leavesPlace _ := leavesPlace_of_placeOf fun i _ place => (places i).trans place
  placesUndefined undefined name leaves := by
    rw [value]
    exact undefined name
      (leavesPlace_of_placeOf (fun i _ place => (places i).symm.trans place) leaves)
  value name := .inl (value name)
  hears id d := Hears.mono told fun d => by
    cases d with
    | function i =>
      rw [dependentsOf, dependentsOf, functions]
      exact List.Subset.refl _
    | block i =>
      rw [dependents]
      exact List.Subset.refl _
  resultsOf i := .inl (by rw [Session.resultsOf, Session.resultsOf, functions])
  drops name _ _ changed := absurd (value name) changed
  isSplit := isSplit

/-- New cells. Variables keep their values. -/
theorem spares_of_cells (n : Nat) (units : s'.units = s.units)
    (functionNames : s'.functionNames = s.functionNames) (functions : s'.functions = s.functions)
    (blocks : s'.blocks = s.blocks)
    (told : ∀ id, (s.cell id).dependents ⊆ (s'.cell id).dependents)
    (keepsName : ∀ name id, s.cellNames.lookup name = some id → s'.cellNames.lookup name = some id)
    (value : ∀ name, s'.value? name = s.value? name) : s.Spares n s' := by
  refine spares_of_values units functionNames functions (fun i _ => by rw [blocks])
    (fun i => by rw [placeOf, placeOf, blocks])
    (fun i => by rw [dependentsOf, dependentsOf, blocks]) told keepsName value fun split => ?_
  refine ⟨blocks ▸ split.size, fun i j later => ?_⟩
  simp only [references, tokensOf, blocks]
  exact split.above i j later

/-- Other parts of a session are none of what it had. -/
theorem spares_of_eq (n : Nat) (units : s'.units = s.units) (cellNames : s'.cellNames = s.cellNames)
    (cells : s'.cells = s.cells) (functionNames : s'.functionNames = s.functionNames)
    (functions : s'.functions = s.functions) (blocks : s'.blocks = s.blocks) : s.Spares n s' := by
  have cell : ∀ id, s'.cell id = s.cell id := fun id => by
    rw [Session.cell, Session.cell, cells]
  refine spares_of_cells n units functionNames functions blocks (fun id => ?_)
    (fun name id named => cellNames ▸ named)
    (value?_congr cellNames fun id => by rw [assigned?, assigned?, cell])
  rw [cell]
  exact List.Subset.refl _

theorem spares_of_extends (n : Nat) (ext : s.Extends s')
    (value : ∀ name, s'.value? name = s.value? name) : s.Spares n s' := by
  refine spares_of_cells n ext.units ext.functionNames ext.functions ext.blocks (fun id => ?_)
    ext.keepsName value
  by_cases within : id < s.cells.size
  · rw [ext.cell id within]
    exact List.Subset.refl _
  · rw [Extends.cell_of_size_le (Nat.not_lt.1 within)]
    exact List.nil_subset _

theorem spares_cellOf (n : Nat) (separates : s.SeparatesNames) (name : String) :
    s.Spares n (s.cellOf name).2 :=
  spares_of_extends n (s.extends_cellOf name).1 ((s.addsCells_cellOf name).value?_eq separates)

theorem spares_newParameter (n : Nat) (separates : s.SeparatesNames) :
    s.Spares n s.newParameter.2 :=
  have ext := s.extends_newCell (.ofNumber 0)
  spares_of_extends n ext (ext.value?_eq separates rfl)

theorem spares_newParameters (n : Nat) (separates : s.SeparatesNames) (names : List String) :
    s.Spares n (s.newParameters names).2 :=
  spares_of_extends n (s.extends_newParameters names) (value?_newParameters separates names)

/-! ## Parameters -/

theorem mem_blockIndices {ts : List Token} {j : Nat} :
    j ∈ Token.blockIndices ts ↔ .block j ∈ ts.filterMap Token.reference? := by
  have same (t : Token) : t.blockIndex? = some j ↔ t.reference? = some (.block j) := by
    cases t with
    | call index => cases index <;> simp [Token.blockIndex?, Token.reference?]
    | _ => simp [Token.blockIndex?, Token.reference?]
  simp only [Token.blockIndices, List.mem_filterMap, same]

variable {own : CellId → Prop} {parameters : List (String × CellId)}

theorem Rebound.references_eq (rebound : s.Rebound own s') (d : Dependent) :
    s'.references d = s.references d :=
  filterMap_reference_eq (rebound.tokensOf d)

theorem Rebound.placeOf_eq (rebound : s.Rebound own s') (i : Nat) : s'.placeOf i = s.placeOf i := by
  rw [placeOf, placeOf]
  cases found : s'.blocks[i]? with
  | none => rw [rebound.block_none found]
  | some c =>
    obtain ⟨b, old, block⟩ := rebound.block i c found
    rw [old, Option.bind_some, Option.bind_some, Block.place?, Block.place?, Block.unknownName,
      Block.unknownName, block.method, block.unknown]

theorem Rebound.isSplit (rebound : s.Rebound own s') (split : s.IsSplit n) : s'.IsSplit n := by
  refine ⟨?_, fun i j later => ?_⟩
  · rw [rebound.size]
    exact split.size
  · rw [rebound.references_eq]
    exact split.above i j later

theorem Rebound.isCut (rebound : s.Rebound own s') {m : Nat} (cut : s.IsCut n m) :
    s'.IsCut n m := fun i j later upto refers =>
  cut i j later upto (rebound.references_eq _ ▸ refers)

/-- Binding a later block leaves the first ones as they are. -/
theorem getElem?_bindBlock {index : Nat} (cut : s.IsCut n index) (later : n ≤ index)
    (first : i < n) : (s.bindBlock parameters index).blocks[i]? = s.blocks[i]? := by
  -- The blocks inside come first, so the induction is on the index, and then on the list of them.
  induction index using Nat.strongRecOn generalizing s parameters with
  | ind index ih =>
    rw [bindBlock]
    dsimp only
    split
    · rfl
    · next b found =>
      generalize parameters.filter _ = visible
      have nested : ∀ j ∈ Token.blockIndices b.tokens, n ≤ j := by
        intro j inside
        refine cut index j later (Nat.le_refl _) ?_
        rw [references, tokensOf, found]
        exact mem_blockIndices.1 inside
      have own : (s.modifyBlock index (Block.bind visible)).blocks[i]? = s.blocks[i]? := by
        rw [modifyBlock, Array.getElem?_modify, if_neg (by omega)]
      have modified : s.Rebound (fun _ => True) (s.modifyBlock index (Block.bind visible)) :=
        rebound_modifyBlock (fun _ _ => trivial) s index
      have cut' := modified.isCut cut
      rw [← own]
      clear modified own
      generalize s.modifyBlock index _ = start at cut'
      generalize Token.blockIndices b.tokens = indices at nested
      induction indices generalizing start with
      | nil => rfl
      | cons j indices ih' =>
        rw [List.forall_mem_cons] at nested
        rw [List.foldl_cons]
        split
        · next smaller =>
          have bound : start.Rebound (fun _ => True) (start.bindBlock visible j) :=
            rebound_bindBlock (fun _ _ => trivial) start j
          have inner : start.IsCut n j := fun k l above upto =>
            cut' k l above (Nat.le_trans upto (Nat.le_of_lt smaller))
          rw [ih' _ (bound.isCut cut') nested.2, ih j smaller inner nested.1]
        · exact ih' start cut' nested.2

theorem getElem?_bindProgram (split : s.IsSplit n) {program : List Token}
    (later : ∀ t ∈ program, t.IsAbove n) (first : i < n) :
    (s.bindProgram parameters program).2.blocks[i]? = s.blocks[i]? := by
  have above : ∀ j ∈ Token.blockIndices program, n ≤ j := by
    intro j within
    obtain ⟨t, inside, refers⟩ := List.mem_filterMap.1 (mem_blockIndices.1 within)
    exact later t inside j refers
  rw [bindProgram]
  dsimp only
  generalize Token.blockIndices program = indices at above
  induction indices generalizing s with
  | nil => rfl
  | cons j indices ih =>
    rw [List.forall_mem_cons] at above
    have bound : s.Rebound (fun _ => True) (s.bindBlock parameters j) :=
      rebound_bindBlock (fun _ _ => trivial) s j
    exact (ih (bound.isSplit split) above.2).trans
      (getElem?_bindBlock (split.isCut j) above.1 first)

/-- Binding a program that refers to later blocks only. -/
theorem spares_bindProgram (parameters : List (String × CellId)) (split : s.IsSplit n)
    {program : List Token} (later : ∀ t ∈ program, t.IsAbove n) :
    s.Spares n (s.bindProgram parameters program).2 := by
  have rebound : s.Rebound (fun _ => True) (s.bindProgram parameters program).2 :=
    rebound_bindProgram (fun _ _ => trivial) s program
  have first : ∀ i < n, (s.bindProgram parameters program).2.blocks[i]? = s.blocks[i]? :=
    fun i within => getElem?_bindProgram split later within
  generalize (s.bindProgram parameters program).2 = s' at rebound first
  have cell : ∀ id, s'.cell id = s.cell id := fun id => by
    rw [Session.cell, Session.cell, rebound.cells_eq]
  have value : ∀ name, s'.value? name = s.value? name :=
    value?_congr rebound.cellNames_eq fun id => by rw [assigned?, assigned?, cell]
  refine spares_of_values (by rw [rebound.same]) rebound.functionNames_eq rebound.functions_eq
    (fun i within => by rw [first i within]) rebound.placeOf_eq
    (fun i => rebound.dependentsOf_eq (.block i)) (fun id => ?_) (fun name id named => ?_) value
    rebound.isSplit
  · rw [cell]
    exact List.Subset.refl _
  · rwa [rebound.cellNames_eq]

/-! ## Blocks -/

variable {b : Block}

/-- Functions that differ in what depends on them keep the same results. -/
theorem Grows.resultsOf_eq (grows : s.Grows s') (i : Nat) : s'.resultsOf i = s.resultsOf i :=
  elim_eq (grows.functions i) fun _ _ same => (UserFunction.eq_of_undepended same).2.2.2.2.2

/-- A block that refers to later blocks only is a later block itself. -/
theorem isSplit_addBlock (split : s.IsSplit n) (later : ∀ t ∈ b.tokens, t.IsAbove n) :
    (s.addBlock b).2.IsSplit n := by
  have places := s.places_addBlock b
  refine ⟨Nat.le_trans split.size places.blocksSize, fun i j above refers => ?_⟩
  by_cases here : Dependent.block i = .block s.blocks.size
  · rw [here, references, tokensOf_addBlock] at refers
    obtain ⟨t, within, refers⟩ := List.mem_filterMap.1 refers
    exact later t within j refers
  · rw [references, places.tokensOf _ here] at refers
    exact split.above i j above refers

/-- A block that is there when one is added, or the one that is added. Others may depend on it. -/
theorem block_addBlock (i : Nat) :
    (s.addBlock b).2.blocks[i]?.map Block.undepended =
      if i = s.blocks.size then some b.undepended else s.blocks[i]?.map Block.undepended := by
  have grows : Grows { s with blocks := s.blocks.push b } (s.addBlock b).2 :=
    (dependOnAll_spec _ _ _).1
  have pushed := grows.blocks i
  rw [pushed, Array.getElem?_push]
  split <;> rfl

theorem placeOf_addBlock (i : Nat) : (s.addBlock b).2.placeOf i =
    if i = s.blocks.size then b.place? else s.placeOf i := by
  -- places do not depend on what is told
  have told : ∀ (s : Session) i,
      s.placeOf i = (s.blocks[i]?.map Block.undepended).bind Block.place? := by
    intro s i
    rw [placeOf]
    cases s.blocks[i]? <;> rfl
  rw [told, told, block_addBlock]
  split <;> rfl

/-- Adding a block that refers to later blocks only. If it leaves a place, it is undefined yet. -/
theorem spares_addBlock (split : s.IsSplit n) (later : ∀ t ∈ b.tokens, t.IsAbove n)
    (placed : ∀ name, b.place? = some name → s.value? name = some .undefined) :
    s.Spares n (s.addBlock b).2 := by
  have places := s.places_addBlock b
  have grows : Grows { s with blocks := s.blocks.push b } (s.addBlock b).2 :=
    (dependOnAll_spec _ _ _).1
  have value : ∀ name, (s.addBlock b).2.value? name = s.value? name := by
    refine value?_congr places.cellNames fun id => ?_
    simp only [assigned?, grows.value, grows.isAssigned]
    rfl
  exact {
    units := grows.units
    functionNames := grows.functionNames
    definitionOf := fun i => definitionOf_eq (grows.functions i)
    block := fun i within => by
      have old := block_addBlock (s := s) (b := b) i
      rw [if_neg (Nat.ne_of_lt (Nat.lt_of_lt_of_le within split.size))] at old
      have forgotten := congrArg (Option.map Block.forget) old
      rwa [Option.map_map, Option.map_map] at forgotten
    keepsName := fun name id named => by rwa [places.cellNames]
    leavesPlace := fun _ => leavesPlace_of_placeOf fun i name place => by
      rw [placeOf_addBlock, if_neg]
      · exact place
      · rintro rfl
        rw [placeOf, Array.getElem?_eq_none (Nat.le_refl _)] at place
        cases place
    placesUndefined := fun undefined name leaves => by
      obtain ⟨i, above, place⟩ := leaves
      rw [value]
      rw [placeOf_addBlock] at place
      split at place
      · exact placed name place
      · exact undefined name ⟨i, above, place⟩
    value := fun name => .inl (value name)
    hears := fun id d => Hears.mono places.told places.dependents
    resultsOf := fun i => .inl (grows.resultsOf_eq i)
    drops := fun name _ _ changed => absurd (value name) changed
    isSplit := fun _ => isSplit_addBlock split later }

/-! ## Places of extreme values -/

namespace SameWiring

theorem hears (same : s.SameWiring s') (hears : s.Hears id d) : s'.Hears id d := by
  refine hears.mono (fun id => ?_) fun d => ?_
  · rw [same.told]
    exact List.Subset.refl _
  · rw [same.dependentsOf_eq]
    exact List.Subset.refl _

theorem placeOf_eq (same : s.SameWiring s') (i : Nat) : s'.placeOf i = s.placeOf i := by
  -- places do not depend on code
  have coded : ∀ (s : Session) i,
      s.placeOf i = (s.blocks[i]?.map Block.forget).bind Block.place? := by
    intro s i
    rw [placeOf]
    cases s.blocks[i]? <;> rfl
  rw [coded, coded, same.block_at]

theorem isSplit (same : s.SameWiring s') (split : s.IsSplit n) : s'.IsSplit n := by
  refine ⟨same.blocks_size ▸ split.size, fun i j later => ?_⟩
  rw [same.references_eq]
  exact split.above i j later

theorem block_definition (same : s.SameWiring s') (i : Nat) :
    s'.blocks[i]?.map Block.definition = s.blocks[i]?.map Block.definition := by
  have alike := congrArg (Option.map Block.undepended) (same.block_at i)
  rwa [Option.map_map, Option.map_map] at alike

end SameWiring

theorem sameWiring_assign (s : Session) (id : CellId) (value : Value) :
    s.SameWiring (s.assign id value) :=
  ((s.runsTo_store id value).trans (runsTo_forgetFrom _ _)).toSameWiring

/-- An assignment drops the results of what hears of it only. -/
theorem resultsOf_assign (s : Session) (id : CellId) (value : Value) (i : Nat) :
    (s.assign id value).resultsOf i = s.resultsOf i ∨
      (s.assign id value).resultsOf i = [] ∧ s.Hears id (.function i) := by
  have stored := s.runsTo_store id value
  rw [assign, forgetFrom_eq, resultsOf, getElem?_forgetAll]
  split
  · next affected =>
    refine .inr ⟨?_, ?_⟩
    · cases (s.store id value).functions[i]? <;> rfl
    · rw [← stored.told] at affected
      exact stored.symm.hears (hears_of_mem_affected affected)
  · exact .inl rfl

/-- What hears of an assignment drops its results. -/
theorem resultsOf_assign_of_hears (value : Value) (hears : s.Hears id (.function i)) :
    (s.assign id value).resultsOf i = [] := by
  have stored := s.runsTo_store id value
  by_cases known : Dependent.function i ∈ s.dependents
  · have affected := mem_affected_of_hears (stored.toSameWiring.hears hears)
      (stored.dependents_eq ▸ known)
    rw [stored.told] at affected
    rw [assign, forgetFrom_eq, resultsOf, getElem?_forgetAll, if_pos affected]
    cases (s.store id value).functions[i]? <;> rfl
  · rw [mem_dependents_iff] at known
    rw [resultsOf, Array.getElem?_eq_none (Nat.le_trans
      (Nat.le_of_eq (s.sameWiring_assign id value).functions_size) (Nat.not_lt.1 known))]
    rfl

/-- What is done behind an assignment to a place. -/
theorem Spares.after_assign (separates : s.SeparatesNames)
    (named : s.cellNames.lookup name = some id) (spares : (s.assign id .undefined).Spares n s')
    (leaves : s'.LeavesPlace n name) : s.Spares n s' := by
  have after := s.afterCalls_assign id .undefined
  have same := s.sameWiring_assign id .undefined
  have value := value?_assign separates named .undefined
  have assigned : s'.value? name = some .undefined := by
    rcases spares.value name with kept | ⟨-, undefined⟩
    · rw [kept, value, if_pos rfl]
    · exact undefined
  exact {
    units := spares.units.trans after.units
    functionNames := spares.functionNames.trans after.functionNames
    definitionOf := fun i => (spares.definitionOf i).trans (same.definitionOf_eq i)
    block := fun i first => (spares.block i first).trans (same.block_definition i)
    keepsName := fun name' id' named' => spares.keepsName name' id' (after.cellNames ▸ named')
    leavesPlace := fun name' leaves' => spares.leavesPlace name'
      (leavesPlace_of_placeOf (fun i _ place => (same.placeOf_eq i).trans place) leaves')
    placesUndefined := fun undefined => spares.placesUndefined fun name' leaves' => by
      rw [value]
      split
      · rfl
      · exact undefined name'
          (leavesPlace_of_placeOf (fun i _ place => (same.placeOf_eq i).symm.trans place) leaves')
    value := fun name' => by
      by_cases here : name' = name
      · exact .inr (here ▸ ⟨leaves, assigned⟩)
      · refine (spares.value name').imp_left fun kept => ?_
        rw [kept, value, if_neg here]
    hears := fun id' d hears => spares.hears id' d (same.hears hears)
    resultsOf := fun i => by
      rcases spares.resultsOf i with kept | dropped
      · rw [kept]
        refine (s.resultsOf_assign id .undefined i).imp_right fun ⟨none', hears⟩ => ?_
        exact ⟨none', name, id, leaves, spares.keepsName name id (after.cellNames ▸ named),
          spares.hears id _ (same.hears hears)⟩
      · exact .inr dropped
    drops := fun name' id' named' changed i hears => by
      by_cases here : name' = name
      · subst here
        cases named.symm.trans named'
        have none' := s.resultsOf_assign_of_hears .undefined hears
        exact (spares.resultsOf i).elim (fun kept => kept.trans none') And.left
      · refine spares.drops name' id' (after.cellNames ▸ named') ?_ i (same.hears hears)
        rwa [value, if_neg here]
    isSplit := fun split => spares.isSplit (same.isSplit split) }

/-- Adds a block with the place of its extreme value, if it searches for one. -/
def place (s : Session) (b : Block) : Nat × Session :=
  match b.place? with
  | none => s.addBlock { b with extremum := none }
  | some name =>
    let (id, s) := s.cellOf name
    (s.assign id .undefined).addBlock { b with extremum := some id }

/-- A block is added, behind an assignment to its place if it has one. -/
theorem place_cases (s : Session) (b : Block) :
    (b.place? = none ∧ s.place b = s.addBlock { b with extremum := none }) ∨
      ∃ name, b.place? = some name ∧ s.place b =
        ((s.cellOf name).2.assign (s.cellOf name).1 .undefined).addBlock
          { b with extremum := some (s.cellOf name).1 } := by
  unfold place
  split
  · next none' => exact .inl ⟨none', rfl⟩
  · next name here => exact .inr ⟨name, here, rfl⟩

/-- Adding a block that refers to later blocks only, with the place of its extreme value. -/
theorem spares_place (separates : s.SeparatesNames) (split : s.IsSplit n)
    (later : ∀ t ∈ b.tokens, t.IsAbove n) : s.Spares n (s.place b).2 := by
  obtain ⟨none', same⟩ | ⟨name, here, same⟩ := s.place_cases b
  · rw [same]
    refine spares_addBlock split later fun name here => ?_
    cases none'.symm.trans here
  · rw [same]
    have named := (s.extends_cellOf name).2
    have separates' := separates.cellOf name
    have spares := spares_cellOf n separates name
    have split' := ((s.cellOf name).2.sameWiring_assign (s.cellOf name).1 .undefined).isSplit
      (spares.isSplit split)
    refine spares.trans (.after_assign separates' named (spares_addBlock split' later ?_) ?_)
    · intro name' here'
      cases here.symm.trans here'
      rw [value?_assign separates' named, if_pos rfl]
    · -- the new block is one of the later ones, and its variable is the one that was assigned
      exact ⟨_, split'.size, (placeOf_addBlock _).trans ((if_pos rfl).trans here)⟩

end Session

end UnitCalc

/-
# Sessions behind dead cells

Cells are never given back. When a session is cleared, those that it had stay in front of those
that it makes from then on, though nothing refers to them any more. Such a session is a session
that never had these cells, apart from the places of its cells, and all changes of a session keep
it that way.

## Main definitions

* `Session.behind dead angles s`: the session `s` behind cells that nothing refers to, maybe with
  another flag of angles.
* `SessionM.Relocates dead angles raise x y`: behind dead cells `y` does what `x` does elsewhere.

## Main results

* `Session.setValue_behind`, `Session.bindProgram_behind`, `Session.install_behind`,
  `Session.addBlock_behind`: changes of a session behind dead cells.
* `Session.clear_eq_behind`: a session that was cleared is behind the cells that it had.
-/

import UnitCalc.Proofs.Postfix.Raised
import UnitCalc.Proofs.Session.Parallel
import UnitCalc.Proofs.Session.Forget
import UnitCalc.Session.BlockValue
import UnitCalc.Session.FunctionCall
import UnitCalc.Statement.Block

namespace UnitCalc

/-- A part of a block whose cells stand further on. -/
def Part.raised (n : Nat) (part : Part) : Part :=
  { part with program := part.program.map (Token.raised n) }

/-- The code of a block whose cells stand further on. -/
def BlockCode.raised (n : Nat) (code : BlockCode) : BlockCode where
  objective := code.objective.raised n
  lower := code.lower.raised n
  upper := code.upper.map (Code.raised n)
  equation := code.equation.map (Code.raised n)

/-- A block whose cells stand further on. -/
def Block.raised (n : Nat) (b : Block) : Block :=
  { b with
    objective := b.objective.raised n
    unknown := b.unknown.raised n
    lower := b.lower.raised n
    upper := b.upper.map (Part.raised n)
    equation := b.equation.map (Part.raised n)
    parameter := n + b.parameter
    extremum := b.extremum.map (n + ·)
    code := b.code.map (BlockCode.raised n) }

/-- A function whose cells stand further on. -/
def UserFunction.raised (n : Nat) (f : UserFunction) : UserFunction :=
  { f with
    parameters := raisedNames n f.parameters
    body := f.body.map (Token.raised n)
    code := f.code.map (Code.raised n) }

/-- A session behind cells that nothing refers to. The flag of angles may be another one. -/
def Session.behind (dead : Array Cell) (angles : Option Bool) (s : Session) : Session :=
  { s with
    cells := dead ++ s.cells
    cellNames := raisedNames dead.size s.cellNames
    functions := s.functions.map (UserFunction.raised dead.size)
    blocks := s.blocks.map (Block.raised dead.size)
    returnAngles := angles.getD s.returnAngles }

/-- A change of an entry that fits a change of all entries. -/
theorem modify_map {α β : Type} {f : α → β} {g : α → α} {h : β → β}
    (fits : ∀ a, h (f a) = f (g a)) (xs : Array α) (i : Nat) :
    (xs.map f).modify i h = (xs.modify i g).map f := by
  refine Array.ext_getElem? fun j => ?_
  rw [Array.getElem?_map, Array.getElem?_modify, Array.getElem?_modify, Array.getElem?_map]
  split
  · cases xs[j]? with
    | none => rfl
    | some a => exact congrArg some (fits a)
  · rfl

/-! ## Blocks and functions -/

theorem Token.blockIndices_raised (n : Nat) (ts : List Token) :
    blockIndices (ts.map (raised n)) = blockIndices ts := by
  simp only [blockIndices, List.filterMap_map, Function.comp_def, blockIndex?_mapCell]

theorem Block.tokens_raised (n : Nat) (b : Block) :
    (b.raised n).tokens = b.tokens.map (Token.raised n) := by
  cases upper : b.upper <;> cases equation : b.equation <;>
    simp [Block.tokens, Block.raised, Part.raised, upper, equation]

theorem Block.bind_raised (n : Nat) (parameters : List (String × CellId))
    (b : Block) : (b.raised n).bind (raisedNames n parameters) = (b.bind parameters).raised n := by
  unfold Block.bind
  simp only [Block.raised, Part.raised, Option.map_map, Function.comp_def, Token.map_bound_raised,
    Option.map_none]

theorem UserFunction.freeTokens_raised (n : Nat) (f : UserFunction) :
    (f.raised n).freeTokens = f.freeTokens.map (Token.raised n) := by
  unfold UserFunction.freeTokens
  simp only [UserFunction.raised, List.filter_map]
  congr 2
  funext t
  cases t with
  | «variable» cell name =>
    simp only [Function.comp, Token.mapCell, lookup_raisedNames, Option.isNone_map]
  | _ => rfl

theorem filter_raisedNames (n : Nat) (parameters : List (String × CellId)) (p : String → Bool) :
    (raisedNames n parameters).filter (fun (name, _) => p name) =
      raisedNames n (parameters.filter fun (name, _) => p name) := by
  rw [raisedNames, List.filter_map]
  rfl

namespace UserFunction

variable (n : Nat) (f : UserFunction)

theorem arity_raised : (f.raised n).arity = f.arity :=
  List.length_map _

theorem keepsResults_raised : (f.raised n).keepsResults = f.keepsResults := by
  rw [keepsResults, keepsResults, arity_raised]

theorem result?_raised (args : List Value) : (f.raised n).result? args = f.result? args := by
  rw [result?, result?, keepsResults_raised]
  rfl

theorem limited_raised : (f.raised n).limited = f.limited.raised n := by
  have same : (f.raised n).results = f.results := rfl
  rw [limited, limited, same]
  split <;> rfl

theorem keep_raised (args : List Value) (result : Value) :
    (f.raised n).keep args result = (f.keep args result).raised n := by
  simp only [keep, limited_raised, keepsResults_raised]
  split <;> rfl

end UserFunction

/-! ## What a session shows -/

namespace Session

variable (dead : Array Cell) (angles : Option Bool) (s : Session)

@[simp]
theorem cell_behind (id : CellId) : (s.behind dead angles).cell (dead.size + id) = s.cell id := by
  simp [cell, behind, Array.getElem?_append_right]

@[simp]
theorem isAssigned_behind (id : CellId) :
    (s.behind dead angles).isAssigned (dead.size + id) = s.isAssigned id := by
  simp [isAssigned]

@[simp]
theorem assigned?_behind (id : CellId) :
    (s.behind dead angles).assigned? (dead.size + id) = s.assigned? id := by
  simp [assigned?]

@[simp]
theorem value?_behind (name : String) : (s.behind dead angles).value? name = s.value? name := by
  have found : (s.behind dead angles).cellNames.lookup name =
      (s.cellNames.lookup name).map (dead.size + ·) := lookup_raisedNames _ _ _
  rw [value?, value?, found]
  cases s.cellNames.lookup name with
  | none => rfl
  | some id => exact s.assigned?_behind dead angles id

theorem unit?_behind : (s.behind dead angles).unit? = s.unit? := rfl

theorem calculator_behind : (s.behind dead none).calculator = s.calculator := rfl

theorem precision_behind : (s.behind dead angles).precision = s.precision := by
  simp only [precision, value?_behind]

/-- What is known of a session when code is made. -/
theorem raises_behind : Code.Raises dead.size s.compilation (s.behind dead none).compilation :=
  ⟨rfl, s.isAssigned_behind dead none, rfl⟩

theorem getElem?_functions_behind (i : Nat) :
    (s.behind dead angles).functions[i]? = s.functions[i]?.map (UserFunction.raised dead.size) :=
  Array.getElem?_map

theorem getElem?_blocks_behind (i : Nat) :
    (s.behind dead angles).blocks[i]? = s.blocks[i]?.map (Block.raised dead.size) :=
  Array.getElem?_map

theorem dependents_behind : (s.behind dead angles).dependents = s.dependents := by
  simp only [dependents, behind, Array.size_map]

theorem dependentsOf_behind : (s.behind dead angles).dependentsOf = s.dependentsOf := by
  funext d
  cases d with
  | function i =>
    simp only [dependentsOf, getElem?_functions_behind]
    cases s.functions[i]? <;> rfl
  | block i =>
    simp only [dependentsOf, getElem?_blocks_behind]
    cases s.blocks[i]? <;> rfl

theorem tokensOf_behind (d : Dependent) :
    (s.behind dead angles).tokensOf d = (s.tokensOf d).map (Token.raised dead.size) := by
  cases d with
  | function i =>
    simp only [tokensOf, getElem?_functions_behind]
    cases s.functions[i]? <;> rfl
  | block i =>
    simp only [tokensOf, getElem?_blocks_behind]
    cases s.blocks[i]? with
    | none => rfl
    | some b => exact b.tokens_raised dead.size

theorem references_behind : (s.behind dead angles).references = s.references := by
  funext d
  simp only [references, tokensOf_behind, List.filterMap_map, Token.reference?_comp_raised]

/-! ## Changes -/

theorem modifyCell_behind (id : CellId) (f : Cell → Cell) :
    (s.behind dead angles).modifyCell (dead.size + id) f =
      (s.modifyCell id f).behind dead angles := by
  have cells : (dead ++ s.cells).modify (dead.size + id) f = dead ++ s.cells.modify id f := by
    rw [← Array.toList_inj, Array.toList_modify, Array.toList_append, Array.toList_append,
      Array.toList_modify]
    exact Legality.modify_append dead.toList s.cells.toList id f
  simp only [modifyCell, behind, cells]

variable {s dead angles} in
theorem modifyFunction_behind {f g : UserFunction → UserFunction}
    (fits : ∀ a, g (a.raised dead.size) = (f a).raised dead.size) (i : Nat) :
    (s.behind dead angles).modifyFunction i g = (s.modifyFunction i f).behind dead angles := by
  simp only [modifyFunction, behind, modify_map fits]

variable {s dead angles} in
theorem modifyBlock_behind {f g : Block → Block}
    (fits : ∀ a, g (a.raised dead.size) = (f a).raised dead.size) (i : Nat) :
    (s.behind dead angles).modifyBlock i g = (s.modifyBlock i f).behind dead angles := by
  simp only [modifyBlock, behind, modify_map fits]

theorem newCell_behind (cell : Cell) : (s.behind dead angles).newCell cell =
    (dead.size + (s.newCell cell).1, (s.newCell cell).2.behind dead angles) := by
  simp [newCell, behind]

theorem newParameter_behind : (s.behind dead angles).newParameter =
    (dead.size + s.newParameter.1, s.newParameter.2.behind dead angles) :=
  s.newCell_behind dead angles _

theorem newParameters_behind (names : List String) : (s.behind dead angles).newParameters names =
    (raisedNames dead.size (s.newParameters names).1,
      (s.newParameters names).2.behind dead angles) := by
  induction names generalizing s with
  | nil => rfl
  | cons name names ih =>
    simp only [newParameters, newParameter_behind, ih]
    rfl

theorem cellOf_behind (name : String) : (s.behind dead angles).cellOf name =
    (dead.size + (s.cellOf name).1, (s.cellOf name).2.behind dead angles) := by
  have found : (s.behind dead angles).cellNames.lookup name =
      (s.cellNames.lookup name).map (dead.size + ·) := lookup_raisedNames _ _ _
  rw [cellOf, cellOf, found]
  cases s.cellNames.lookup name with
  | some id => rfl
  | none =>
    simp only [Option.map_none, newCell_behind]
    rfl

theorem forget_behind (d : Dependent) :
    (s.behind dead angles).forget d = (s.forget d).behind dead angles := by
  cases d with
  | function i => exact modifyFunction_behind (f := UserFunction.forget) (fun _ => rfl) i
  | block i =>
    refine modifyBlock_behind (f := Block.forget) (fun b => ?_) i
    rfl

theorem forgetFrom_behind (changed : List Dependent) :
    (s.behind dead angles).forgetFrom changed = (s.forgetFrom changed).behind dead angles := by
  rw [forgetFrom_eq, forgetFrom_eq, affected, affected, dependentsOf_behind, dependents_behind]
  exact List.foldl_hom (Session.behind dead angles) fun s d => s.forget_behind dead angles d

theorem store_behind (id : CellId) (value : Value) :
    (s.behind dead angles).store (dead.size + id) value = (s.store id value).behind dead angles :=
  s.modifyCell_behind dead angles id _

theorem storeAll_behind (ids : List CellId) (args : List Value) :
    (s.behind dead angles).storeAll (ids.map (dead.size + ·)) args =
      (s.storeAll ids args).behind dead angles := by
  have pairs : (ids.map (dead.size + ·)).zip args =
      (ids.zip args).map fun p => (dead.size + p.1, p.2) := by
    rw [List.zip_map_left]
    rfl
  rw [storeAll, pairs, List.foldl_map]
  exact List.foldl_hom (Session.behind dead angles) fun s p =>
    s.store_behind dead angles p.1 p.2

theorem assign_behind (id : CellId) (value : Value) :
    (s.behind dead angles).assign (dead.size + id) value =
      (s.assign id value).behind dead angles := by
  rw [assign, assign, store_behind, cell_behind, forgetFrom_behind]

theorem setValue_behind (name : String) (value : Value) :
    (s.behind dead angles).setValue name value = (s.setValue name value).behind dead angles := by
  simp only [setValue, cellOf_behind, assign_behind]

theorem dependOn_behind (d : Dependent) (t : Token) :
    (s.behind dead angles).dependOn d (t.raised dead.size) =
      (s.dependOn d t).behind dead angles := by
  cases t with
  | «variable» cell =>
    cases cell with
    | none => rfl
    | some id => exact s.modifyCell_behind dead angles id _
  | call index =>
    cases index with
    | none => rfl
    | some i =>
      exact modifyFunction_behind
        (f := fun f => { f with dependents := d.add f.dependents }) (fun _ => rfl) i
  | block i =>
    exact modifyBlock_behind
      (f := fun b => { b with dependents := d.add b.dependents }) (fun _ => rfl) i
  | _ => rfl

theorem dependOnAll_behind (d : Dependent) (tokens : List Token) :
    (s.behind dead angles).dependOnAll d (tokens.map (Token.raised dead.size)) =
      (s.dependOnAll d tokens).behind dead angles := by
  rw [dependOnAll, List.foldl_map]
  exact List.foldl_hom (Session.behind dead angles) fun s t => s.dependOn_behind dead angles d t

theorem defineUnit_behind (name : String) (value : Value) :
    (s.behind dead angles).defineUnit name value =
      (s.defineUnit name value).map (Session.behind dead angles) := by
  unfold defineUnit
  cases unitOfValue name value with
  | error e => rfl
  | ok u =>
    have told := forgetFrom_behind dead angles { s with units := (name, u) :: s.units } s.dependents
    by_cases known : (s.units.lookup name).isSome = true
    · have known' : ((s.behind dead angles).units.lookup name).isSome = true := known
      simp only [bind, Except.bind, pure, Except.pure, if_pos known, if_pos known', Except.map,
        dependents_behind]
      exact congrArg Except.ok told
    · have known' : ¬ ((s.behind dead angles).units.lookup name).isSome = true := known
      simp only [bind, Except.bind, pure, Except.pure, if_neg known, if_neg known', Except.map]
      rfl

/-- Behind dead cells clearing does what it does elsewhere. -/
theorem clear_behind : (s.behind dead angles).clear = s.clear.behind dead angles := by
  let bare : Session := { s with
    cellNames := [], units := [], functions := #[], functionNames := [], blocks := #[] }
  have emptied : ({ s.behind dead angles with
      cellNames := [], units := [], functions := #[], functionNames := [], blocks := #[] } :
        Session) = bare.behind dead angles := by
    simp [bare, behind, raisedNames]
  unfold clear
  dsimp only
  rw [emptied]
  exact List.foldl_hom (Session.behind dead angles) fun s (name, value) =>
    s.setValue_behind _ _ name value

/-- Clearing gives up the cells of a session: what is left is a session without cells, behind
them. -/
theorem clear_eq_behind : s.clear = (clear { s with cells := #[] }).behind s.cells none := by
  rw [← clear_behind]
  unfold clear
  simp [behind]

/-! ## Programs and functions -/

theorem bindBlock_behind (parameters : List (String × CellId)) (index : Nat) :
    (s.behind dead angles).bindBlock (raisedNames dead.size parameters) index =
      (s.bindBlock parameters index).behind dead angles := by
  -- Blocks inside of a block come before it.
  induction index using Nat.strongRecOn generalizing s parameters with
  | ind index ih =>
    rw [bindBlock, bindBlock, getElem?_blocks_behind]
    cases s.blocks[index]? with
    | none => rfl
    | some b =>
      have visible := filter_raisedNames dead.size parameters (· != b.unknownName)
      have same : (b.raised dead.size).unknownName = b.unknownName :=
        Token.content_mapCell _ b.unknown
      have bound : (s.behind dead angles).modifyBlock index _ = _ := modifyBlock_behind (fun b' =>
        Block.bind_raised dead.size (parameters.filter fun (name, _) => name != b.unknownName) b')
        index
      simp only [Option.map_some, same, visible, bound, Block.tokens_raised,
        Token.blockIndices_raised]
      refine List.foldl_hom (Session.behind dead angles) fun s nested => ?_
      split
      · next inside => exact ih nested inside s _
      · rfl

theorem bindProgram_behind (parameters : List (String × CellId)) (program : List Token) :
    (s.behind dead angles).bindProgram (raisedNames dead.size parameters)
        (program.map (Token.raised dead.size)) =
      ((s.bindProgram parameters program).1.map (Token.raised dead.size),
        (s.bindProgram parameters program).2.behind dead angles) := by
  rw [bindProgram, Token.map_bound_raised, Token.blockIndices_raised]
  exact congrArg (Prod.mk _) (List.foldl_hom (Session.behind dead angles) fun s index =>
    s.bindBlock_behind dead angles parameters index)

theorem install_behind (f : UserFunction) : (s.behind dead angles).install (f.raised dead.size) =
    ((s.install f).1, (s.install f).2.1, (s.install f).2.2.behind dead angles) := by
  have replaced : (do
      let i ← (s.behind dead angles).functionNames.lookup (f.raised dead.size).name
      let old ← (s.behind dead angles).functions[i]?
      if old.parameters.length = (f.raised dead.size).parameters.length then
        some (i, old.dependents) else none) = (do
      let i ← s.functionNames.lookup f.name
      let old ← s.functions[i]?
      if old.parameters.length = f.parameters.length then some (i, old.dependents) else none) := by
    refine Option.bind_congr fun i _ => ?_
    rw [getElem?_functions_behind]
    cases s.functions[i]? with
    | none => rfl
    | some old =>
      have arity (f : UserFunction) :
          (f.raised dead.size).parameters.length = f.parameters.length := List.length_map _
      simp only [Option.map_some, bind, Option.bind, arity]
      rfl
  unfold install
  rw [replaced]
  generalize (do
    let i ← s.functionNames.lookup f.name
    let old ← s.functions[i]?
    if old.parameters.length = f.parameters.length then some (i, old.dependents) else none) = r
  rcases r with _ | ⟨i, dependents⟩
  · simp [behind, UserFunction.raised]
  · refine Prod.ext rfl (Prod.ext rfl ?_)
    exact modifyFunction_behind (f := fun _ => { f with dependents }) (fun _ => rfl) i

theorem isCircular_behind (index : Nat) :
    (s.behind dead angles).isCircular index = s.isCircular index := by
  rw [isCircular, isCircular, references_behind, dependents_behind]

theorem addBlock_behind (b : Block) : (s.behind dead angles).addBlock (b.raised dead.size) =
    ((s.addBlock b).1, (s.addBlock b).2.behind dead angles) := by
  have outer : (b.raised dead.size).tokens.filter
      (fun t => t.cell? != some (b.raised dead.size).parameter) =
        (b.tokens.filter fun t => t.cell? != some b.parameter).map (Token.raised dead.size) := by
    rw [Block.tokens_raised, List.filter_map]
    congr 2
    funext t
    simp only [Function.comp, Token.cell?_raised, Block.raised]
    cases t.cell? with
    | none => rfl
    | some id => simp [bne, Option.some_beq_some]
  have pushed : ({ s.behind dead angles with
      blocks := (s.behind dead angles).blocks.push (b.raised dead.size) } : Session) =
        behind dead angles { s with blocks := s.blocks.push b } := by
    simp [behind]
  have size : (s.behind dead angles).blocks.size = s.blocks.size := Array.size_map
  rw [addBlock, outer, pushed, dependOnAll_behind, size]
  rfl

/-- A function that is refused behind dead cells. -/
theorem refuse_behind (i : Nat) (changed : List Dependent) :
    ((s.behind dead angles).modifyFunction i
        fun f => { f with isCircular := true }).forgetFrom changed =
      ((s.modifyFunction i fun f => { f with isCircular := true }).forgetFrom changed).behind
        dead angles := by
  rw [modifyFunction_behind (f := fun f => { f with isCircular := true }) (fun _ => rfl),
    forgetFrom_behind]

/-- A function that is accepted behind dead cells. -/
theorem accept_behind (f : UserFunction) (i : Nat) (changed : List Dependent) :
    ((s.behind dead angles).dependOnAll (.function i)
        (f.raised dead.size).freeTokens).forgetFrom changed =
      ((s.dependOnAll (.function i) f.freeTokens).forgetFrom changed).behind dead angles := by
  rw [UserFunction.freeTokens_raised, dependOnAll_behind, forgetFrom_behind]

end Session

namespace SessionM

variable {α β γ δ : Type} {dead : Array Cell} {angles : Option Bool} {raise : α → β}
  {raise' : γ → δ}

/-- Behind dead cells `y` does what `x` does elsewhere, and `raise` is what becomes of values. -/
def Relocates (dead : Array Cell) (angles : Option Bool) (raise : α → β) (x : SessionM α)
    (y : SessionM β) : Prop :=
  Parallel (fun s s' => s' = s.behind dead angles) (fun a b => b = raise a) x y

namespace Relocates

variable {x : SessionM α} {y : SessionM β} {f : α → SessionM γ} {g : β → SessionM δ}

theorem outcome_eq (same : Relocates dead angles raise x y) (s : Session) :
    outcome y (s.behind dead angles) =
      ((outcome x s).1.map raise, (outcome x s).2.behind dead angles) := by
  obtain ⟨behind, agree⟩ := same s _ rfl
  refine Prod.ext ?_ behind
  generalize (outcome x s).1 = r at agree ⊢
  generalize (outcome y (s.behind dead angles)).1 = r' at agree ⊢
  cases agree with
  | ok related => exact congrArg Except.ok related
  | error e => rfl

theorem of_outcome (same : ∀ s, outcome y (s.behind dead angles) =
    ((outcome x s).1.map raise, (outcome x s).2.behind dead angles)) :
    Relocates dead angles raise x y := by
  rintro s - rfl
  rw [same]
  refine ⟨rfl, ?_⟩
  cases (outcome x s).1 with
  | ok a => exact .ok rfl
  | error e => exact .error e

theorem pure (a : α) : Relocates dead angles raise (Pure.pure a) (Pure.pure (raise a)) :=
  Parallel.pure rfl

theorem throw (e : CalcError) :
    Relocates dead angles raise (MonadExcept.throw e) (MonadExcept.throw e) :=
  Parallel.throw e

theorem result {r : Except CalcError α} {r' : Except CalcError β} (same : r' = r.map raise) :
    Relocates dead angles raise (ofExcept r) (ofExcept r') :=
  of_outcome fun s => by rw [outcome_ofExcept, outcome_ofExcept, same]

/-- A result that has nothing to do with cells. -/
theorem same (r : Except CalcError α) : Relocates dead angles id (ofExcept r) (ofExcept r) :=
  result (by cases r <;> rfl)

theorem read {f : Session → Except CalcError α} {g : Session → Except CalcError β}
    (same : ∀ s, g (s.behind dead angles) = (f s).map raise) :
    Relocates dead angles raise (SessionM.read f) (SessionM.read g) :=
  of_outcome fun s => by rw [outcome_read, outcome_read, same]

theorem modify {f g : Session → Session}
    (same : ∀ s, g (s.behind dead angles) = (f s).behind dead angles) :
    Relocates dead angles id (modify f : SessionM PUnit) (modify g) :=
  of_outcome fun s => Prod.ext rfl (same s)

theorem modifyGet {f : Session → α × Session} {g : Session → β × Session}
    (same : ∀ s, g (s.behind dead angles) = (raise (f s).1, (f s).2.behind dead angles)) :
    Relocates dead angles raise (modifyGet f) (modifyGet g) :=
  of_outcome fun s => by rw [outcome_modifyGet, outcome_modifyGet, same]; rfl

theorem set (s : Session) :
    Relocates dead angles id (MonadState.set s : SessionM PUnit)
      (MonadState.set (s.behind dead angles)) :=
  fun _ _ _ => ⟨rfl, .ok rfl⟩

theorem bind (first : Relocates dead angles raise x y)
    (second : ∀ a, Relocates dead angles raise' (f a) (g (raise a))) :
    Relocates dead angles raise' (x >>= f) (y >>= g) := by
  refine Parallel.bind first ?_
  rintro a - rfl
  exact second a

theorem get_bind {f : Session → SessionM γ} {g : Session → SessionM δ}
    (second : ∀ s, Relocates dead angles raise' (f s) (g (s.behind dead angles))) :
    Relocates dead angles raise' (get >>= f) (get >>= g) := by
  refine Parallel.bind Parallel.get ?_
  rintro s - rfl
  exact second s

theorem ite {x' : SessionM α} {y' : SessionM β} {c : Prop} [Decidable c]
    (first : Relocates dead angles raise x y) (second : Relocates dead angles raise x' y') :
    Relocates dead angles raise (if c then x else x') (if c then y else y') := by
  split
  · exact first
  · exact second

/-- A check that stops a computation. -/
theorem guard {c : Prop} [Decidable c] {e : CalcError} {k : PUnit → SessionM α}
    {k' : PUnit → SessionM β} (behind : Relocates dead angles raise (k ⟨⟩) (k' ⟨⟩)) :
    Relocates dead angles raise (if c then MonadExcept.throw e >>= k else k ⟨⟩)
      (if c then MonadExcept.throw e >>= k' else k' ⟨⟩) :=
  have stops : Relocates dead angles id (MonadExcept.throw e : SessionM PUnit)
      (MonadExcept.throw e) := throw e
  ite (bind stops fun _ => behind) behind

theorem tryCatch {handle : CalcError → SessionM α} {handle' : CalcError → SessionM β}
    (first : Relocates dead angles raise x y)
    (handled : ∀ e, Relocates dead angles raise (handle e) (handle' e)) :
    Relocates dead angles raise (MonadExcept.tryCatch x handle)
      (MonadExcept.tryCatch y handle') := by
  rintro s - rfl
  rw [outcome_tryCatch, outcome_tryCatch, first.outcome_eq]
  cases outcome x s with
  | mk r s' =>
    cases r with
    | ok a => exact ⟨rfl, .ok rfl⟩
    | error e => exact handled e s' _ rfl

end Relocates

end SessionM

end UnitCalc

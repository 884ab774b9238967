/-
# The wiring of a session

The wiring of a session is what its functions and blocks refer to, and what they and the cells
know about their dependents. Running statements changes values and what is kept, but it leaves
the wiring alone. What is kept fits it: code leads nowhere that its text does not lead to, and a
function that was refused keeps nothing.

## Main definitions

* `Session.Uses`: a function or a block refers to another one, and is evaluated at all.
* `Session.KeepsNothing`, `Session.KeepsWell`: what is kept is nothing, or fits the wiring.
* `Session.RunsTo`: a session with the same wiring, in which what is kept fits it too.

## Main results

* `Session.runsTo_store`, `Session.runsTo_forgetFrom`: assignments leave the wiring alone.
* `Session.keepsNothing_forgetFrom`: what a change affects keeps nothing.
-/

import UnitCalc.Proofs.Postfix.References
import UnitCalc.Proofs.Session.Forget
import UnitCalc.Proofs.Session.Memo

namespace UnitCalc

/-- A change that cannot be seen in what is read from each entry of an array. -/
theorem map_modify {α β : Type} {f : α → β} {g : α → α} (same : ∀ a, f (g a) = f a)
    (xs : Array α) (i : Nat) : (xs.modify i g).map f = xs.map f := by
  refine Array.ext_getElem? fun j => ?_
  rw [Array.getElem?_map, Array.getElem?_map, Array.getElem?_modify]
  split
  · rw [Option.map_map]
    congr 1
    funext a
    exact same a
  · rfl

/-- What is read from two entries that differ in what is not read. -/
theorem elim_eq {α β γ : Type} {erase : α → β} {r r' : Option α}
    (same : r'.map erase = r.map erase) {default : γ} {read : α → γ}
    (reads : ∀ a b, erase a = erase b → read a = read b) :
    r'.elim default read = r.elim default read := by
  cases r with
  | none => rw [Option.map_eq_none_iff.1 same]
  | some a =>
    obtain ⟨b, rfl, alike⟩ := Option.map_eq_some_iff.1 same
    exact reads b a alike

/-- What a function keeps fits its body. A refused function keeps nothing. -/
structure UserFunction.KeepsWell (f : UserFunction) : Prop where
  refused : f.isCircular = true → f.code = none ∧ f.results = []
  within : ∀ code ∈ f.code, code.Within (· ∈ f.body.filterMap Token.reference?)

/-- A function that keeps the same code, and no more results if it is refused. -/
theorem UserFunction.KeepsWell.change {f g : UserFunction} (keeps : f.KeepsWell)
    (bare : g.bare = f.bare) (code : g.code = f.code)
    (results : f.isCircular = true → g.results = f.results) : g.KeepsWell := by
  obtain ⟨-, body, -, circular⟩ := UserFunction.eq_of_bare bare
  refine ⟨fun refused => ?_, ?_⟩
  · rw [circular] at refused
    rw [code, results refused]
    exact keeps.refused refused
  · rw [code, body]
    exact keeps.within

/-- The codes of a block. -/
def BlockCode.parts (code : BlockCode) : List Code :=
  code.objective :: code.lower :: (code.upper.toList ++ code.equation.toList)

/-- The code that a block keeps fits its parts. -/
def Block.KeepsWell (b : Block) : Prop :=
  ∀ code ∈ b.code, ∀ part ∈ code.parts, part.Within (· ∈ b.tokens.filterMap Token.reference?)

theorem Block.tokens_eq_of_forget {b c : Block} (same : c.forget = b.forget) :
    c.tokens = b.tokens := by
  have tokens : c.forget.tokens = b.forget.tokens := by rw [same]
  exact tokens

namespace Session

variable {s s' s'' : Session} {changed : List Dependent} {d e : Dependent} {i : Nat}

/-- A function that was refused since it leads back to itself. -/
def isRefused (s : Session) : Dependent → Bool
  | .function i => s.functions[i]?.elim false UserFunction.isCircular
  | .block _ => false

/-- A function or a block that is evaluated refers to another one. -/
def Uses (s : Session) (d e : Dependent) : Prop :=
  e ∈ s.references d ∧ s.isRefused d = false

/-- A function has no code and no results, or a block no code. -/
def KeepsNothing (s : Session) : Dependent → Prop
  | .function i => ∀ f ∈ s.functions[i]?, f.code = none ∧ f.results = []
  | .block i => ∀ b ∈ s.blocks[i]?, b.code = none

/-- What functions and blocks keep fits the wiring. -/
structure KeepsWell (s : Session) : Prop where
  functions : ∀ (i : Nat) f, s.functions[i]? = some f → f.KeepsWell
  blocks : ∀ (i : Nat) b, s.blocks[i]? = some b → b.KeepsWell

/-- Two sessions have the same wiring. -/
structure SameWiring (s s' : Session) : Prop where
  cellNames : s'.cellNames = s.cellNames
  functionNames : s'.functionNames = s.functionNames
  size : s'.cells.size = s.cells.size
  told : ∀ id, (s'.cell id).dependents = (s.cell id).dependents
  functions : s'.functions.map UserFunction.bare = s.functions.map UserFunction.bare
  blocks : s'.blocks.map Block.forget = s.blocks.map Block.forget

namespace SameWiring

theorem refl (s : Session) : s.SameWiring s :=
  ⟨rfl, rfl, rfl, fun _ => rfl, rfl, rfl⟩

theorem trans (first : s.SameWiring s') (second : s'.SameWiring s'') : s.SameWiring s'' where
  cellNames := second.cellNames.trans first.cellNames
  functionNames := second.functionNames.trans first.functionNames
  size := second.size.trans first.size
  told id := (second.told id).trans (first.told id)
  functions := second.functions.trans first.functions
  blocks := second.blocks.trans first.blocks

theorem symm (same : s.SameWiring s') : s'.SameWiring s :=
  ⟨same.cellNames.symm, same.functionNames.symm, same.size.symm, fun id => (same.told id).symm,
    same.functions.symm, same.blocks.symm⟩

variable (same : s.SameWiring s')

include same

theorem functions_size : s'.functions.size = s.functions.size := by
  have sizes := congrArg Array.size same.functions
  rwa [Array.size_map, Array.size_map] at sizes

theorem blocks_size : s'.blocks.size = s.blocks.size := by
  have sizes := congrArg Array.size same.blocks
  rwa [Array.size_map, Array.size_map] at sizes

theorem function_at (i : Nat) :
    s'.functions[i]?.map UserFunction.bare = s.functions[i]?.map UserFunction.bare := by
  rw [← Array.getElem?_map, ← Array.getElem?_map, same.functions]

theorem block_at (i : Nat) : s'.blocks[i]?.map Block.forget = s.blocks[i]?.map Block.forget := by
  rw [← Array.getElem?_map, ← Array.getElem?_map, same.blocks]

theorem exists_function {f : UserFunction} (found : s.functions[i]? = some f) :
    ∃ g, s'.functions[i]? = some g ∧ g.bare = f.bare := by
  have at_ := same.function_at i
  rw [found, Option.map_some] at at_
  exact Option.map_eq_some_iff.1 at_

theorem tokensOf_eq (d : Dependent) : s'.tokensOf d = s.tokensOf d := by
  cases d with
  | function i => exact elim_eq (same.function_at i) fun f g h => (UserFunction.eq_of_bare h).2.1
  | block i => exact elim_eq (same.block_at i) fun b c h => Block.tokens_eq_of_forget h

theorem dependentsOf_eq (d : Dependent) : s'.dependentsOf d = s.dependentsOf d := by
  cases d with
  | function i =>
    refine elim_eq (same.function_at i) fun f g h => ?_
    have dependents : f.bare.dependents = g.bare.dependents := by rw [h]
    exact dependents
  | block i =>
    refine elim_eq (same.block_at i) fun b c h => ?_
    have dependents : b.forget.dependents = c.forget.dependents := by rw [h]
    exact dependents

theorem references_eq (d : Dependent) : s'.references d = s.references d := by
  rw [references, references, same.tokensOf_eq]

theorem isRefused_eq (d : Dependent) : s'.isRefused d = s.isRefused d := by
  cases d with
  | function i =>
    exact elim_eq (same.function_at i) fun f g h => (UserFunction.eq_of_bare h).2.2.2
  | block i => rfl

theorem uses_eq : s'.Uses = s.Uses := by
  funext d e
  simp only [Uses, same.references_eq, same.isRefused_eq]

theorem dependents_eq : s'.dependents = s.dependents := by
  rw [dependents, dependents, same.functions_size, same.blocks_size]

end SameWiring

/-- A session with the same wiring, in which what is kept still fits it. -/
structure RunsTo (s s' : Session) : Prop extends SameWiring s s' where
  keepsWell : s.KeepsWell → s'.KeepsWell

namespace RunsTo

theorem refl (s : Session) : s.RunsTo s :=
  { SameWiring.refl s with keepsWell := id }

theorem trans (first : s.RunsTo s') (second : s'.RunsTo s'') : s.RunsTo s'' :=
  { first.toSameWiring.trans second.toSameWiring with
    keepsWell := second.keepsWell ∘ first.keepsWell }

/-- Other parts of a session do not belong to its wiring. -/
theorem of_eq (cellNames : s'.cellNames = s.cellNames) (cells : s'.cells = s.cells)
    (functionNames : s'.functionNames = s.functionNames) (functions : s'.functions = s.functions)
    (blocks : s'.blocks = s.blocks) : s.RunsTo s' where
  cellNames := cellNames
  functionNames := functionNames
  size := congrArg Array.size cells
  told id := by rw [cell_eq, cell_eq, cells]
  functions := congrArg (Array.map UserFunction.bare) functions
  blocks := congrArg (Array.map Block.forget) blocks
  keepsWell well := by
    refine ⟨?_, ?_⟩
    · rw [functions]
      exact well.functions
    · rw [blocks]
      exact well.blocks

end RunsTo

/-! ## Changes that leave the wiring alone -/

theorem runsTo_modifyFunction {g : UserFunction → UserFunction} (bare : ∀ f, (g f).bare = f.bare)
    (well : ∀ f, s.functions[i]? = some f → f.KeepsWell → (g f).KeepsWell) :
    s.RunsTo (s.modifyFunction i g) := by
  refine { SameWiring.refl s with
    functions := map_modify bare s.functions i
    keepsWell := fun keeps => ⟨fun j f found => ?_, keeps.blocks⟩ }
  rw [getElem?_modifyFunction] at found
  split at found
  · next here =>
    subst here
    obtain ⟨f', old, rfl⟩ := Option.map_eq_some_iff.1 found
    exact well f' old (keeps.functions i f' old)
  · exact keeps.functions j f found

theorem runsTo_modifyBlock {g : Block → Block} (bare : ∀ b, (g b).forget = b.forget)
    (well : ∀ b, s.blocks[i]? = some b → b.KeepsWell → (g b).KeepsWell) :
    s.RunsTo (s.modifyBlock i g) := by
  refine { SameWiring.refl s with
    blocks := map_modify bare s.blocks i
    keepsWell := fun keeps => ⟨keeps.functions, fun j b found => ?_⟩ }
  rw [modifyBlock, Array.getElem?_modify] at found
  split at found
  · next here =>
    subst here
    obtain ⟨b', old, rfl⟩ := Option.map_eq_some_iff.1 found
    exact well b' old (keeps.blocks i b' old)
  · exact keeps.blocks j b found

theorem runsTo_forget (s : Session) (d : Dependent) : s.RunsTo (s.forget d) := by
  cases d with
  | function i =>
    exact runsTo_modifyFunction (fun _ => rfl) fun f _ _ => ⟨fun _ => ⟨rfl, rfl⟩, nofun⟩
  | block i => exact runsTo_modifyBlock (fun _ => rfl) fun b _ _ => nofun

theorem runsTo_forgetAll (s : Session) (ds : List Dependent) : s.RunsTo (ds.foldl forget s) := by
  induction ds generalizing s with
  | nil => exact .refl s
  | cons d ds ih => exact (s.runsTo_forget d).trans (ih (s.forget d))

theorem runsTo_forgetFrom (s : Session) (changed : List Dependent) :
    s.RunsTo (s.forgetFrom changed) := by
  rw [forgetFrom_eq]
  exact s.runsTo_forgetAll _

theorem runsTo_store (s : Session) (id : CellId) (value : Value) : s.RunsTo (s.store id value) :=
  { SameWiring.refl s with
    size := cells_size_modifyCell _
    told := cell_modifyCell_keeps Cell.dependents fun _ => rfl
    keepsWell := fun keeps => ⟨keeps.functions, keeps.blocks⟩ }

/-! ## What is forgotten -/

theorem keepsNothing_forget (s : Session) (d : Dependent) : (s.forget d).KeepsNothing d := by
  cases d with
  | function i =>
    intro f found
    rw [forget, getElem?_modifyFunction, if_pos rfl] at found
    obtain ⟨f', -, rfl⟩ := Option.map_eq_some_iff.1 found
    exact ⟨rfl, rfl⟩
  | block i =>
    intro b found
    rw [forget, modifyBlock, Array.getElem?_modify, if_pos rfl] at found
    obtain ⟨b', -, rfl⟩ := Option.map_eq_some_iff.1 found
    rfl

theorem KeepsNothing.forget (nothing : s.KeepsNothing d) (e : Dependent) :
    (s.forget e).KeepsNothing d := by
  by_cases same : e = d
  · rw [same]
    exact keepsNothing_forget s d
  · cases d with
    | function i =>
      intro f found
      rw [getElem?_forget, if_neg same] at found
      exact nothing f found
    | block i =>
      cases e with
      | function j => exact nothing
      | block j =>
        have other : j ≠ i := fun h => same (by rw [h])
        intro b found
        rw [Session.forget, modifyBlock, Array.getElem?_modify, if_neg other] at found
        exact nothing b found

theorem KeepsNothing.forgetAll (nothing : s.KeepsNothing d) (ds : List Dependent) :
    (ds.foldl Session.forget s).KeepsNothing d := by
  induction ds generalizing s with
  | nil => exact nothing
  | cons e ds ih => exact ih (nothing.forget e)

theorem keepsNothing_forgetAll (s : Session) {ds : List Dependent} (within : d ∈ ds) :
    (ds.foldl forget s).KeepsNothing d := by
  induction ds generalizing s with
  | nil => cases within
  | cons e ds ih =>
    rcases List.mem_cons.1 within with rfl | within
    · exact (s.keepsNothing_forget d).forgetAll ds
    · exact ih (s.forget e) within

/-- What a change affects keeps nothing. -/
theorem keepsNothing_forgetFrom (affected : d ∈ s.affected changed) :
    (s.forgetFrom changed).KeepsNothing d := by
  rw [forgetFrom_eq]
  exact s.keepsNothing_forgetAll affected

/-- A refused function keeps nothing. -/
theorem KeepsWell.keepsNothing (well : s.KeepsWell) (refused : s.isRefused d = true) :
    s.KeepsNothing d := by
  cases d with
  | block i => cases refused
  | function i =>
    intro f found
    have found : s.functions[i]? = some f := found
    rw [isRefused, found] at refused
    exact (well.functions i f found).refused refused

end Session

end UnitCalc

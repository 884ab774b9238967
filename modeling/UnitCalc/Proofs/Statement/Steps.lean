/-
# The steps of reading

Reading a statement makes cells, binds programs to cells of parameters and adds blocks, step by
step. Each step leaves the session informed and resolved, and defines no function.

## Main definitions

* `Session.ReadStep`: one step of reading a statement.
* `Session.Step`, `Session.Reads`: a step that leaves a session resolved, and many of them.
* `Session.Later`: what such steps leave.
* `Session.ReadsInPlace`: steps that leave alone what was there before.
* `Session.Names`: variables and new units are named as they should be.
* `Session.Scans`, `Session.Owns`: what is known of a token when it is read, and in a program.

## Main results

* `Session.ReadStep.informed`: every step leaves a session informed.
* `Session.scanning_inPlace`: tokens that are read refer to what the session has.
-/

import UnitCalc.Proofs.Session.Resolved
import UnitCalc.Proofs.Session.Spared
import UnitCalc.Proofs.Statement.Reading

namespace UnitCalc

open List (Forall₂)
open Relation (ReflTransGen)
open SessionM

namespace Session

variable {n : Nat} {s s' s'' : Session} {d : Dependent} {t u : Token} {id : CellId} {i : Nat}

/-- A step of reading a statement: values change, cells are made, a program is bound to the cells
of parameters, or a block is added. -/
inductive ReadStep : Session → Session → Prop where
  | run {s s' : Session} (runs : s.RunsTo s') : ReadStep s s'
  | cells {s s' : Session} (ext : s.Extends s') : ReadStep s s'
  | bind {s : Session} {parameters : List (String × CellId)} (program : List Token)
    (hidden : ∀ id ∈ parameters.map Prod.snd, s.IsPrivate id) :
    ReadStep s (s.bindProgram parameters program).2
  | block {s : Session} {b : Block} (has : ∀ t ∈ b.tokens, s.Has t)
    (hidden : s.IsPrivate b.parameter) (code : b.code = none) : ReadStep s (s.addBlock b).2

/-- A step of reading, which leaves a resolved session resolved. What is kept behind it was kept
before, or it is compiled from its text. -/
structure Step (s s' : Session) : Prop where
  read : s.ReadStep s'
  resolved : s.Resolved → s'.Resolved
  codesOf : ∀ d, ∀ code ∈ s'.codesOf d, code ∈ s.codesOf d ∨ s.Compiles d code

/-- A session that steps of reading lead to. -/
def Reads : Session → Session → Prop :=
  ReflTransGen Step

/-- What steps of reading leave: cells and dependents stay, and cells without a name too. The
names and the definitions of functions are the same. -/
structure Later (s s' : Session) : Prop where
  size : s.cells.size ≤ s'.cells.size
  dependents : s.dependents ⊆ s'.dependents
  isPrivate : ∀ id, s.IsPrivate id → s'.IsPrivate id
  functionNames : s'.functionNames = s.functionNames
  definitionOf : ∀ i, s'.definitionOf i = s.definitionOf i

theorem Later.refl (s : Session) : s.Later s :=
  ⟨Nat.le_refl _, List.Subset.refl _, fun _ => id, rfl, fun _ => rfl⟩

theorem Later.trans (first : s.Later s') (second : s'.Later s'') : s.Later s'' where
  size := Nat.le_trans first.size second.size
  dependents := List.Subset.trans first.dependents second.dependents
  isPrivate id isPrivate := second.isPrivate id (first.isPrivate id isPrivate)
  functionNames := second.functionNames.trans first.functionNames
  definitionOf i := (second.definitionOf i).trans (first.definitionOf i)

theorem Later.has (later : s.Later s') (has : s.Has t) : s'.Has t :=
  has.mono later.size later.dependents

theorem Later.offers {e : Entry} (later : s.Later s') (offers : s.Offers e) : s'.Offers e :=
  offers.of_definitionOf later.definitionOf later.dependents

/-- A session that names the same cells and functions, and has at least as much. -/
theorem later_of_names (cellNames : s'.cellNames = s.cellNames)
    (functionNames : s'.functionNames = s.functionNames)
    (size : s'.cells.size = s.cells.size) (functions : s.functions.size ≤ s'.functions.size)
    (blocks : s.blocks.size ≤ s'.blocks.size)
    (definitionOf : ∀ i, s'.definitionOf i = s.definitionOf i) : s.Later s' where
  size := Nat.le_of_eq size.symm
  dependents := dependents_subset functions blocks
  isPrivate id isPrivate := by
    refine ⟨?_, ?_⟩
    · rw [size]
      exact isPrivate.exists_
    · rw [cellNames]
      exact isPrivate.unnamed
  functionNames := functionNames
  definitionOf := definitionOf

theorem ReadStep.later (step : s.ReadStep s') : s.Later s' := by
  cases step with
  | run runs =>
    exact later_of_names runs.cellNames runs.functionNames runs.size
      (Nat.le_of_eq runs.functions_size.symm) (Nat.le_of_eq runs.blocks_size.symm)
      runs.definitionOf_eq
  | cells ext =>
    refine ⟨ext.size, dependents_subset ?_ ?_, fun id => ext.isPrivate, ext.functionNames,
      fun i => ?_⟩
    · rw [ext.functions]
    · rw [ext.blocks]
    · rw [definitionOf, definitionOf, ext.functions]
  | bind program hidden =>
    have rebound := rebound_bindProgram hidden s program
    refine later_of_names rebound.cellNames_eq rebound.functionNames_eq ?_ ?_
      (Nat.le_of_eq rebound.size.symm) fun i => ?_
    · rw [rebound.cells_eq]
    · rw [rebound.functions_eq]
    · rw [definitionOf, definitionOf, rebound.functions_eq]
  | @block b has hidden code =>
    have places := s.places_addBlock b
    have grows := (dependOnAll_spec { s with blocks := s.blocks.push b } (.block s.blocks.size)
      (b.tokens.filter fun t => t.cell? != some b.parameter)).1
    refine later_of_names places.cellNames grows.functionNames places.size places.functionsSize
      places.blocksSize fun i => ?_
    exact definitionOf_eq (grows.functions i)

/-- Every step of reading leaves a session informed. -/
theorem ReadStep.informed (step : s.ReadStep s') (informed : s.Informed) : s'.Informed := by
  cases step with
  | run runs => exact informed.runsTo runs
  | cells ext => exact informed.extends ext
  | bind program hidden =>
    exact informed.rebound (rebound_bindProgram hidden s program) fun _ => id
  | block has hidden code => exact informed.addBlock has hidden code

namespace Step

theorem evolves (evolves : s.Evolves s') : s.Step s' :=
  ⟨.run evolves.runsTo, fun resolved => resolved.evolves evolves, fun _ => evolves.codesOf⟩

theorem cells (ext : s.Extends s') : s.Step s' :=
  ⟨.cells ext, fun resolved => resolved.extends ext, fun d _ kept => .inl (ext.codesOf_eq d ▸ kept)⟩

theorem bind {parameters : List (String × CellId)} (program : List Token)
    (hidden : ∀ id ∈ parameters.map Prod.snd, s.IsPrivate id) :
    s.Step (s.bindProgram parameters program).2 :=
  have rebound := rebound_bindProgram hidden s program
  ⟨.bind program hidden, fun resolved => resolved.rebound rebound,
    fun _ _ kept => .inl (rebound.codesOf_subset kept)⟩

theorem block {b : Block} (has : ∀ t ∈ b.tokens, s.Has t) (resolves : ∀ t ∈ b.tokens, s.Resolves t)
    (hidden : s.IsPrivate b.parameter) (code : b.code = none) : s.Step (s.addBlock b).2 :=
  ⟨.block has hidden code, fun resolved => resolved.addBlock resolves code,
    fun _ _ kept => .inl (codesOf_addBlock code kept)⟩

/-- Other parts of a session belong to neither its texts nor its names. -/
theorem of_eq (cellNames : s'.cellNames = s.cellNames) (cells : s'.cells = s.cells)
    (functionNames : s'.functionNames = s.functionNames) (functions : s'.functions = s.functions)
    (blocks : s'.blocks = s.blocks) : s.Step s' :=
  .evolves (.single (.other cellNames cells functionNames functions blocks))

theorem plotting (s : Session) (isPlotting : Bool) : s.Step { s with isPlotting } :=
  .of_eq rfl rfl rfl rfl rfl

theorem later (step : s.Step s') : s.Later s' :=
  step.read.later

end Step

namespace Reads

theorem later (reads : s.Reads s') : s.Later s' := by
  induction reads with
  | refl => exact .refl s
  | tail _ step ih => exact ih.trans step.later

theorem informed (reads : s.Reads s') (informed : s.Informed) : s'.Informed := by
  induction reads with
  | refl => exact informed
  | tail _ step ih => exact step.read.informed ih

theorem resolved (reads : s.Reads s') (resolved : s.Resolved) : s'.Resolved := by
  induction reads with
  | refl => exact resolved
  | tail _ step ih => exact step.resolved ih

end Reads

/-- A session that texts are read in, which had `n` blocks before. -/
structure InformedSplit (n : Nat) (s : Session) : Prop extends Informed s, IsSplit n s

theorem Informed.split (informed : s.Informed) : s.InformedSplit s.blocks.size :=
  { informed, s.isSplit_size with }

/-- With no first blocks there is nothing to split. -/
theorem Informed.unsplit (informed : s.Informed) : s.InformedSplit 0 where
  toInformed := informed
  size := Nat.zero_le _
  above _ j _ _ := Nat.zero_le j

/-- Steps of reading that leave alone what the session had when it had `n` blocks. After them as
many blocks are being read as before. -/
structure ReadsInPlace (n : Nat) (s s' : Session) : Prop where
  reads : s.Reads s'
  blockDepth : s'.blockDepth = s.blockDepth
  spares : s.Spares n s'

theorem Step.inPlace (step : s.Step s') (depth : s'.blockDepth = s.blockDepth)
    (spares : s.Spares n s') : s.ReadsInPlace n s' :=
  ⟨.single step, depth, spares⟩

namespace ReadsInPlace

theorem refl (n : Nat) (s : Session) : s.ReadsInPlace n s :=
  ⟨.refl, rfl, .refl n s⟩

theorem trans (first : s.ReadsInPlace n s') (second : s'.ReadsInPlace n s'') :
    s.ReadsInPlace n s'' :=
  ⟨ReflTransGen.trans first.reads second.reads, second.blockDepth.trans first.blockDepth,
    first.spares.trans second.spares⟩

theorem growth : Growth (ReadsInPlace n) :=
  ⟨.refl n, .trans⟩

theorem later (reads : s.ReadsInPlace n s') : s.Later s' :=
  reads.reads.later

theorem informed (reads : s.ReadsInPlace n s') (informed : s.InformedSplit n) :
    s'.InformedSplit n :=
  { reads.reads.informed informed.toInformed, reads.spares.isSplit informed.toIsSplit with }

end ReadsInPlace

/-! The number of blocks that are being read -/

theorem blockDepth_cellOf (s : Session) (name : String) :
    (s.cellOf name).2.blockDepth = s.blockDepth := by
  unfold cellOf
  split <;> rfl

theorem blockDepth_newParameters (s : Session) (names : List String) :
    (s.newParameters names).2.blockDepth = s.blockDepth := by
  rw [newParameters_same]

theorem blockDepth_foldl {α : Type} {f : Session → α → Session}
    (same : ∀ s a, (f s a).blockDepth = s.blockDepth) (s : Session) (as : List α) :
    (as.foldl f s).blockDepth = s.blockDepth := by
  induction as generalizing s with
  | nil => rfl
  | cons a as ih => exact (ih (f s a)).trans (same s a)

theorem blockDepth_assign (s : Session) (id : CellId) (value : Value) :
    (s.assign id value).blockDepth = s.blockDepth := by
  rw [assign, forgetFrom_eq]
  exact blockDepth_foldl (fun s d => by cases d <;> rfl) _ _

theorem blockDepth_addBlock (s : Session) (b : Block) :
    (s.addBlock b).2.blockDepth = s.blockDepth := by
  refine blockDepth_foldl (fun s t => ?_) _ _
  unfold dependOn
  split <;> rfl

/-! ## Tokens -/

/-- The cell of a variable is that of its name, and the name of a unit that is defined is a word. -/
structure Names (s : Session) (t : Token) : Prop where
  cell : ∀ id name, t = .variable (some id) name → s.cellNames.lookup name = some id
  spelled : t.IsSpelled

/-- What is known of a token that was read: what it refers to exists, and is none of the blocks that
were there before, it enters what is offered, and the cell of a variable and the function of a call
are those of the name, if there is one. -/
structure Scans (n : Nat) (s : Session) (t : Token) : Prop extends Has s t where
  isAbove : t.IsAbove n
  offered : ∀ e ∈ t.entry?, s.Offers e
  names : s.Names t
  named : ∀ index name count, t = .call index name count → s.functionNames.lookup name = index

/-- What is known of a token of a program: what it refers to exists, and is none of the blocks that
were there before, and what it enters is offered. -/
structure Owns (n : Nat) (s : Session) (t : Token) : Prop extends Has s t, Resolves s t where
  isAbove : t.IsAbove n

theorem Later.scans (later : s.Later s') (keepsName : ∀ name id,
    s.cellNames.lookup name = some id → s'.cellNames.lookup name = some id)
    (scans : s.Scans n t) : s'.Scans n t where
  toHas := later.has scans.toHas
  isAbove := scans.isAbove
  offered e enters := later.offers (scans.offered e enters)
  names := ⟨fun id name same => keepsName name id (scans.names.cell id name same),
    scans.names.spelled⟩
  named := by
    rw [later.functionNames]
    exact scans.named

theorem Later.owns (later : s.Later s') (owns : s.Owns n t) : s'.Owns n t :=
  ⟨later.has owns.toHas, owns.toResolves.mono fun _ => later.offers, owns.isAbove⟩

theorem Scans.owns (scans : s.Scans n t) (defined : t.isForward = false) : s.Owns n t :=
  ⟨scans.toHas, ⟨scans.offered, defined⟩, scans.isAbove⟩

/-- A function of the session is offered with its arity. -/
theorem offers_arity (known : i < s.functions.size) : s.Offers (.call i (s.arity i)) := by
  simp [Offers, arity, UserFunction.arity, known]

/-- Tokens that are read refer to what the session has. -/
theorem reading_inPlace (n : Nat) :
    Reading (ReadsInPlace n) (InformedSplit n) fun s t => s.Scans n t where
  toGrowth := ReadsInPlace.growth
  keeps reads := reads.informed
  mono reads := reads.later.scans reads.spares.keepsName
  free {s t} free spelled := by
    cases t with
    | «variable» | call | block => cases free
    | _ => exact ⟨⟨nofun, nofun⟩, nofun, nofun, ⟨nofun, spelled⟩, nofun⟩
  call {s name i} informed found := by
    have known := informed.functionNamed _ _ found
    refine ⟨⟨nofun, fun d same => ?_⟩, nofun, fun e same => ?_, ⟨nofun, trivial⟩,
      fun index name' count same => ?_⟩
    · cases same
      exact mem_dependents_iff.2 known
    · cases same
      exact offers_arity known
    · cases same
      exact found
  forward informed none := by
    refine ⟨⟨nofun, nofun⟩, nofun, nofun, ⟨nofun, trivial⟩, fun index name count same => ?_⟩
    cases same
    exact none
  cell {s} name informed := by
    obtain ⟨ext, named⟩ := s.extends_cellOf name
    refine ⟨Step.inPlace (.cells ext) (s.blockDepth_cellOf name)
      (spares_cellOf n informed.toSeparatesNames name),
      ⟨fun id same => ?_, nofun⟩, nofun, nofun, ⟨fun id name' same => ?_, trivial⟩, nofun⟩
    · cases same
      exact (informed.extends ext).named name _ named
    · cases same
      exact named

/-- While tokens are read, functions that are not defined are called by the name of the header. -/
theorem scanning_inPlace (n : Nat) : Scanning (ReadsInPlace n) (InformedSplit n) fun s ts =>
    (∀ t ∈ ts, s.Scans n t) ∧ Token.HeadsForward ts :=
  (reading_inPlace n).headed

/-! ## Tokens of parts -/

theorem Scans.restates (scans : s.Scans n t) (restates : Token.Restates u t) : s.Scans n u := by
  cases t with
  | operator | negation | multiFunction =>
    obtain ⟨x, rfl⟩ := restates
    exact ⟨⟨nofun, nofun⟩, nofun, nofun, ⟨nofun, trivial⟩, nofun⟩
  | _ =>
    cases restates
    exact scans

theorem Names.restates (names : s.Names t) (restates : Token.Restates u t) : s.Names u := by
  cases t with
  | operator | negation | multiFunction =>
    obtain ⟨x, rfl⟩ := restates
    exact ⟨nofun, trivial⟩
  | _ =>
    cases restates
    exact names

theorem Owns.congr (owns : s.Owns n t) (cell : u.cell? = t.cell?) (entry : u.entry? = t.entry?)
    (forward : u.isForward = t.isForward) : s.Owns n u := by
  have reference : u.reference? = t.reference? := by
    rw [Token.reference?_eq, Token.reference?_eq, entry]
  exact ⟨⟨cell ▸ owns.cell, reference ▸ owns.reference⟩, owns.toResolves.congr entry forward,
    fun i refers => owns.isAbove i (reference ▸ refers)⟩

theorem Owns.restates (owns : s.Owns n t) (restates : Token.Restates u t) : s.Owns n u := by
  cases t with
  | operator | negation | multiFunction =>
    obtain ⟨x, rfl⟩ := restates
    exact owns.congr rfl rfl rfl
  | _ =>
    cases restates
    exact owns

theorem Has.rebinds {own : CellId → Prop} (has : s.Has t) (rebinds : Rebinds own u t)
    (hidden : ∀ id, own id → s.IsPrivate id) : s.Has u := by
  refine ⟨fun id same => ?_, fun d same => has.reference d (rebinds.reference ▸ same)⟩
  rcases rebinds.cell with cell | ⟨id', cell, own⟩
  · exact has.cell id (cell ▸ same)
  · cases cell.symm.trans same
    exact (hidden id own).exists_

theorem owns_bound {parameters : List (String × CellId)}
    (hidden : ∀ id ∈ parameters.map Prod.snd, s.IsPrivate id) (owns : s.Owns n t) :
    s.Owns n (t.bound parameters) := by
  have rebinds := rebinds_bound parameters t
  exact ⟨owns.toHas.rebinds rebinds hidden, owns.toResolves.congr rebinds.entry rebinds.forward,
    fun i refers => owns.isAbove i (rebinds.reference ▸ refers)⟩

/-- The cell of a new parameter has no name. -/
theorem Informed.isPrivate_newParameter (informed : s.Informed) :
    s.newParameter.2.IsPrivate s.newParameter.1 := by
  refine ⟨by simp [newParameter, newCell], fun name named => ?_⟩
  exact absurd (informed.named name _ named) (Nat.lt_irrefl _)

end Session

end UnitCalc

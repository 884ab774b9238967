/-
# Informed sessions

In an informed session everything that a function or a block refers to exists, and it knows about
what refers to it: the variables by name, the functions that are called, and the blocks inside.
Refused functions are left out, since they are never evaluated. The rest never leads in a circle.

## Main definitions

* `Session.Has`: what a token refers to exists.
* `Session.Informs`: what a token refers to knows a dependent.
* `Session.Informed`: the invariant of sessions.

## Main results

* `Session.Informed.runsTo`, `Session.Informed.extends`: evaluation and new cells keep it.
* `Session.Informed.rebound`: parameters may take the place of variables.
* `Session.Informed.places`: a function or a block may be placed that leads to no circle.
-/

import UnitCalc.Proofs.Session.Redefinition
import UnitCalc.Proofs.Session.Wiring
import UnitCalc.Proofs.Token.Binding
import UnitCalc.Statement.Definition

namespace UnitCalc

open List (Forall₂)
open Relation (TransGen ReflTransGen)

namespace Session

variable {s s' s'' : Session} {d e k : Dependent} {t : Token} {id : CellId} {i : Nat}

/-- The cell of a token and what it refers to belong to the session. -/
structure Has (s : Session) (t : Token) : Prop where
  cell : ∀ id ∈ t.cell?, id < s.cells.size
  reference : ∀ d ∈ t.reference?, d ∈ s.dependents

/-- The cell is that of a variable. -/
def IsNamed (s : Session) (id : CellId) : Prop :=
  ∃ name, s.cellNames.lookup name = some id

/-- The variable of a token, and what it refers to, knows a dependent. -/
structure Informs (s : Session) (d : Dependent) (t : Token) : Prop where
  cell : ∀ id ∈ t.cell?, s.IsNamed id → d ∈ (s.cell id).dependents
  reference : ∀ e ∈ t.reference?, d ∈ s.dependentsOf e

/-- The invariant: names denote variables that exist, no two the same one, everything that is
referred to exists and knows about it, functions and blocks that are evaluated form no circle, and
what is kept fits. -/
structure Informed (s : Session) : Prop extends SeparatesNames s where
  functionNamed : ∀ name (i : Nat), s.functionNames.lookup name = some i → i < s.functions.size
  has : ∀ d, ∀ t ∈ s.tokensOf d, s.Has t
  informs : ∀ d, s.isRefused d = false → ∀ t ∈ s.tokensOf d, s.Informs d t
  acyclic : ∀ d, ¬ TransGen s.Uses d d
  keepsWell : s.KeepsWell

theorem mem_dependents_iff : d ∈ s.dependents ↔ match d with
    | .function i => i < s.functions.size
    | .block i => i < s.blocks.size := by
  cases d <;> simp [dependents]

theorem length_dependents (s : Session) :
    s.dependents.length = s.functions.size + s.blocks.size := by
  simp [dependents]

theorem nodup_dependents (s : Session) : s.dependents.Nodup := by
  refine List.Nodup.append ?_ ?_ ?_
  · exact List.nodup_range.map fun _ _ same => Dependent.function.inj same
  · exact List.nodup_range.map fun _ _ same => Dependent.block.inj same
  · intro d function block
    obtain ⟨i, -, rfl⟩ := List.mem_map.1 function
    obtain ⟨j, -, same⟩ := List.mem_map.1 block
    cases same

/-- What has tokens belongs to the session. -/
theorem mem_dependents_of_mem_tokensOf (within : t ∈ s.tokensOf d) : d ∈ s.dependents := by
  rw [mem_dependents_iff]
  cases d with
  | function i =>
    by_contra beyond
    rw [tokensOf, Array.getElem?_eq_none (Nat.not_lt.1 beyond)] at within
    cases within
  | block i =>
    by_contra beyond
    rw [tokensOf, Array.getElem?_eq_none (Nat.not_lt.1 beyond)] at within
    cases within

theorem exists_mem_of_references (refers : e ∈ s.references d) :
    ∃ t ∈ s.tokensOf d, t.reference? = some e :=
  List.mem_filterMap.1 refers

/-- A session in which nothing that tokens refer to is missing any more. -/
theorem Has.mono (has : s.Has t) (size : s.cells.size ≤ s'.cells.size)
    (dependents : s.dependents ⊆ s'.dependents) : s'.Has t :=
  ⟨fun id same => Nat.lt_of_lt_of_le (has.cell id same) size,
    fun d same => dependents (has.reference d same)⟩

theorem dependents_subset (functions : s.functions.size ≤ s'.functions.size)
    (blocks : s.blocks.size ≤ s'.blocks.size) : s.dependents ⊆ s'.dependents := by
  intro d within
  rw [mem_dependents_iff] at within ⊢
  cases d with
  | function i => exact Nat.lt_of_lt_of_le within functions
  | block i => exact Nat.lt_of_lt_of_le within blocks

/-! ## Evaluation -/

theorem SameWiring.isNamed_iff (same : s.SameWiring s') : s'.IsNamed id ↔ s.IsNamed id := by
  rw [IsNamed, IsNamed, same.cellNames]

theorem SameWiring.has (same : s.SameWiring s') (has : s.Has t) : s'.Has t :=
  has.mono (Nat.le_of_eq same.size.symm) (by rw [same.dependents_eq]; exact List.Subset.refl _)

/-- Evaluation leaves a session informed. -/
theorem Informed.runsTo (informed : s.Informed) (runs : s.RunsTo s') : s'.Informed where
  toSeparatesNames := informed.of_cellNames runs.cellNames (Nat.le_of_eq runs.size.symm)
  functionNamed := by
    rw [runs.functionNames, runs.functions_size]
    exact informed.functionNamed
  has d t within := by
    rw [runs.tokensOf_eq] at within
    exact runs.has (informed.has d t within)
  informs d open_ t within := by
    rw [runs.tokensOf_eq] at within
    rw [runs.isRefused_eq] at open_
    have told := informed.informs d open_ t within
    refine ⟨fun id same isNamed => ?_, fun e same => ?_⟩
    · rw [runs.told]
      exact told.cell id same (runs.isNamed_iff.1 isNamed)
    · rw [runs.dependentsOf_eq]
      exact told.reference e same
  acyclic := by
    rw [runs.uses_eq]
    exact informed.acyclic
  keepsWell := runs.keepsWell informed.keepsWell

/-! ## New cells -/

namespace Extends

variable (ext : s.Extends s')

include ext

theorem tokensOf_eq (d : Dependent) : s'.tokensOf d = s.tokensOf d := by
  cases d <;> simp only [tokensOf, ext.functions, ext.blocks]

theorem dependentsOf_eq (d : Dependent) : s'.dependentsOf d = s.dependentsOf d := by
  cases d <;> simp only [dependentsOf, ext.functions, ext.blocks]

theorem isRefused_eq (d : Dependent) : s'.isRefused d = s.isRefused d := by
  cases d <;> simp only [isRefused, ext.functions]

theorem has (has : s.Has t) : s'.Has t :=
  has.mono ext.size (dependents_subset (Nat.le_of_eq (congrArg Array.size ext.functions.symm))
    (Nat.le_of_eq (congrArg Array.size ext.blocks.symm)))

/-- A cell that existed before has no new name. -/
theorem isNamed (isNamed : s'.IsNamed id) (old : id < s.cells.size) : s.IsNamed id := by
  obtain ⟨name, found⟩ := isNamed
  rcases ext.newName name id found with named | ⟨beyond, -⟩
  · exact ⟨name, named⟩
  · exact absurd old (Nat.not_lt.2 beyond)

end Extends

/-- New cells leave a session informed. -/
theorem Informed.extends (informed : s.Informed) (ext : s.Extends s') : s'.Informed where
  -- Old cells and all functions and blocks stay, so nothing new has to be told.
  toSeparatesNames := ext.separates informed.toSeparatesNames
  functionNamed := by
    rw [ext.functionNames, ext.functions]
    exact informed.functionNamed
  has d t within := by
    rw [ext.tokensOf_eq] at within
    exact ext.has (informed.has d t within)
  informs d open_ t within := by
    rw [ext.tokensOf_eq] at within
    rw [ext.isRefused_eq] at open_
    have told := informed.informs d open_ t within
    refine ⟨fun id same isNamed => ?_, fun e same => ?_⟩
    · have old := (informed.has d t within).cell id same
      rw [ext.cell id old]
      exact told.cell id same (ext.isNamed isNamed old)
    · rw [ext.dependentsOf_eq]
      exact told.reference e same
  acyclic := by
    have uses : s'.Uses = s.Uses := by
      funext d e
      simp only [Uses, references, ext.tokensOf_eq, ext.isRefused_eq]
    rw [uses]
    exact informed.acyclic
  keepsWell := by
    refine ⟨?_, ?_⟩
    · rw [ext.functions]
      exact informed.keepsWell.functions
    · rw [ext.blocks]
      exact informed.keepsWell.blocks

/-! ## Parameters in the place of variables -/

/-- A token in the place of another one: it enters the same function or block, and reads the same
cell or one of `own`. -/
structure Rebinds (own : CellId → Prop) (u t : Token) : Prop where
  entry : u.entry? = t.entry?
  forward : u.isForward = t.isForward
  cell : u.cell? = t.cell? ∨ ∃ id, u.cell? = some id ∧ own id

theorem Rebinds.refl {own : CellId → Prop} (t : Token) : Rebinds own t t :=
  ⟨rfl, rfl, .inl rfl⟩

theorem Rebinds.reference {own : CellId → Prop} {t u : Token} (rebinds : Rebinds own u t) :
    u.reference? = t.reference? := by
  rw [Token.reference?_eq, Token.reference?_eq, rebinds.entry]

theorem Rebinds.trans {own : CellId → Prop} {t u v : Token} (first : Rebinds own t u)
    (second : Rebinds own u v) : Rebinds own t v := by
  refine ⟨first.entry.trans second.entry, first.forward.trans second.forward, ?_⟩
  rcases first.cell with same | other
  · rw [same]
    exact second.cell
  · exact .inr other

theorem rebinds_bound (parameters : List (String × CellId)) (t : Token) :
    Rebinds (· ∈ parameters.map Prod.snd) (t.bound parameters) t := by
  cases t with
  | «variable» cell name =>
    refine ⟨rfl, rfl, ?_⟩
    cases found : parameters.lookup name with
    | none =>
      left
      rw [Token.bound, found]
      rfl
    | some id =>
      right
      rw [Token.bound, found]
      obtain ⟨before, behind, rfl, -⟩ := List.lookup_eq_some_iff.1 found
      exact ⟨id, rfl, by simp⟩
  | _ => exact .refl _

theorem filterMap_reference_eq {own : CellId → Prop} {us ts : List Token}
    (rebound : Forall₂ (Rebinds own) us ts) :
    us.filterMap Token.reference? = ts.filterMap Token.reference? := by
  induction rebound with
  | nil => rfl
  | cons first _ ih => rw [List.filterMap_cons, List.filterMap_cons, first.reference, ih]

/-- A block in the place of another one, whose tokens may read cells of `own` instead. -/
structure BlockRebound (own : CellId → Prop) (c b : Block) : Prop where
  method : c.method = b.method
  unknown : c.unknown = b.unknown
  tokens : Forall₂ (Rebinds own) c.tokens b.tokens
  dependents : c.dependents = b.dependents
  code : c.code = none ∨ c.code = b.code

/-- A session in which blocks may read cells of `own` instead. -/
structure Rebound (own : CellId → Prop) (s s' : Session) : Prop where
  same : s' = { s with blocks := s'.blocks }
  size : s'.blocks.size = s.blocks.size
  block : ∀ (i : Nat) c, s'.blocks[i]? = some c →
    ∃ b, s.blocks[i]? = some b ∧ BlockRebound own c b

theorem BlockRebound.refl {own : CellId → Prop} (b : Block) : BlockRebound own b b :=
  ⟨rfl, rfl, List.forall₂_same.2 fun t _ => .refl t, rfl, .inr rfl⟩

theorem Rebound.refl {own : CellId → Prop} (s : Session) : s.Rebound own s :=
  ⟨rfl, rfl, fun _ c found => ⟨c, found, .refl c⟩⟩

theorem Rebound.trans {own : CellId → Prop} (first : s.Rebound own s')
    (second : s'.Rebound own s'') : s.Rebound own s'' where
  same := by rw [second.same, first.same]
  size := second.size.trans first.size
  block i c found := by
    obtain ⟨b, found', rebound⟩ := second.block i c found
    obtain ⟨a, found'', rebound'⟩ := first.block i b found'
    refine ⟨a, found'', rebound.method.trans rebound'.method, rebound.unknown.trans rebound'.unknown,
      Token.forall₂_trans Rebinds.trans rebound.tokens rebound'.tokens,
      rebound.dependents.trans rebound'.dependents, ?_⟩
    rcases rebound.code with none | same
    · exact .inl none
    · rw [same]
      exact rebound'.code

theorem blockRebound_bind {own : CellId → Prop} {parameters : List (String × CellId)}
    (owned : ∀ id ∈ parameters.map Prod.snd, own id) (b : Block) :
    BlockRebound own (b.bind parameters) b := by
  have part : ∀ ts : List Token, Forall₂ (Rebinds own) (ts.map (Token.bound parameters)) ts := by
    intro ts
    refine List.forall₂_map_left_iff.2 (List.forall₂_same.2 fun t _ => ?_)
    obtain ⟨entry, forward, cell⟩ := rebinds_bound parameters t
    refine ⟨entry, forward, cell.imp_right fun ⟨id, same, within⟩ => ⟨id, same, owned id within⟩⟩
  have optional : ∀ p : Option Part,
      Forall₂ (Rebinds own)
        ((p.map fun part : Part =>
          { part with program := part.program.map (Token.bound parameters) }).elim [] Part.program)
        (p.elim [] Part.program) := by
    rintro (_ | p)
    · exact .nil
    · exact part p.program
  refine ⟨rfl, rfl, ?_, rfl, .inl rfl⟩
  exact List.rel_append (List.rel_append (List.rel_append (part _)
    (.cons (.refl _) (part _))) (optional _)) (optional _)

/-- A block that is bound. -/
theorem rebound_modifyBlock {own : CellId → Prop} {parameters : List (String × CellId)}
    (owned : ∀ id ∈ parameters.map Prod.snd, own id) (s : Session) (index : Nat) :
    s.Rebound own (s.modifyBlock index (Block.bind parameters)) := by
  refine ⟨rfl, Array.size_modify, fun i c found => ?_⟩
  rw [modifyBlock, Array.getElem?_modify] at found
  split at found
  · obtain ⟨b, old, rfl⟩ := Option.map_eq_some_iff.1 found
    exact ⟨b, old, blockRebound_bind owned b⟩
  · exact ⟨c, found, .refl c⟩

/-- Blocks that are bound, and the blocks inside of them, read the cells of parameters. -/
theorem rebound_bindBlock {own : CellId → Prop} {parameters : List (String × CellId)}
    (owned : ∀ id ∈ parameters.map Prod.snd, own id) (s : Session) (index : Nat) :
    s.Rebound own (s.bindBlock parameters index) := by
  induction index using Nat.strongRecOn generalizing s parameters with
  | ind index ih =>
    rw [bindBlock]
    dsimp only
    split
    · exact .refl s
    · next b found =>
      generalize kept : parameters.filter _ = inside
      have visible : ∀ id ∈ inside.map Prod.snd, own id := by
        rw [← kept]
        intro id within
        obtain ⟨p, member, rfl⟩ := List.mem_map.1 within
        exact owned p.2 (List.mem_map_of_mem (List.mem_of_mem_filter member))
      have first := rebound_modifyBlock visible s index
      -- the blocks inside come first, so the recursion goes down
      generalize s.modifyBlock index _ = start at first
      generalize Token.blockIndices b.tokens = nested
      induction nested generalizing start with
      | nil => exact first
      | cons n nested ih' =>
        rw [List.foldl_cons]
        split
        · next smaller => exact ih' _ (first.trans (ih n smaller visible start))
        · exact ih' start first

theorem rebound_bindProgram {own : CellId → Prop} {parameters : List (String × CellId)}
    (owned : ∀ id ∈ parameters.map Prod.snd, own id) (s : Session) (program : List Token) :
    s.Rebound own (s.bindProgram parameters program).2 := by
  rw [bindProgram]
  generalize Token.blockIndices program = indices
  induction indices generalizing s with
  | nil => exact .refl s
  | cons i indices ih => exact (rebound_bindBlock owned s i).trans (ih _)

namespace Rebound

variable {own : CellId → Prop} (rebound : s.Rebound own s')

include rebound

theorem functions_eq : s'.functions = s.functions := by
  rw [rebound.same]

theorem cells_eq : s'.cells = s.cells := by
  rw [rebound.same]

theorem cellNames_eq : s'.cellNames = s.cellNames := by
  rw [rebound.same]

theorem functionNames_eq : s'.functionNames = s.functionNames := by
  rw [rebound.same]

theorem block_none (absent : s'.blocks[i]? = none) : s.blocks[i]? = none := by
  rw [Array.getElem?_eq_none_iff] at absent ⊢
  rwa [rebound.size] at absent

theorem tokensOf (d : Dependent) : Forall₂ (Rebinds own) (s'.tokensOf d) (s.tokensOf d) := by
  cases d with
  | function i =>
    simp only [Session.tokensOf, rebound.functions_eq]
    exact List.forall₂_same.2 fun t _ => .refl t
  | block i =>
    simp only [Session.tokensOf]
    cases found : s'.blocks[i]? with
    | none =>
      rw [rebound.block_none found]
      exact .nil
    | some c =>
      obtain ⟨b, found', block⟩ := rebound.block i c found
      rw [found']
      exact block.tokens

theorem dependentsOf_eq (d : Dependent) : s'.dependentsOf d = s.dependentsOf d := by
  cases d with
  | function i => simp only [dependentsOf, rebound.functions_eq]
  | block i =>
    simp only [dependentsOf]
    cases found : s'.blocks[i]? with
    | none => rw [rebound.block_none found]
    | some c =>
      obtain ⟨b, found', block⟩ := rebound.block i c found
      rw [found']
      exact block.dependents

theorem isRefused_eq (d : Dependent) : s'.isRefused d = s.isRefused d := by
  cases d with
  | function i => simp only [isRefused, rebound.functions_eq]
  | block i => rfl

theorem dependents_eq : s'.dependents = s.dependents := by
  rw [dependents, dependents, rebound.functions_eq, rebound.size]

theorem has (has : s.Has t) : s'.Has t :=
  has.mono (Nat.le_of_eq (congrArg Array.size rebound.cells_eq.symm))
    (by rw [rebound.dependents_eq]; exact List.Subset.refl _)

theorem isNamed_iff : s'.IsNamed id ↔ s.IsNamed id := by
  rw [IsNamed, IsNamed, rebound.cellNames_eq]

end Rebound

/-- Parameters may take the place of variables in an informed session. -/
theorem Informed.rebound {own : CellId → Prop} (informed : s.Informed) (rebound : s.Rebound own s')
    (hidden : ∀ id, own id → s.IsPrivate id) : s'.Informed where
  toSeparatesNames := informed.of_cellNames rebound.cellNames_eq
    (Nat.le_of_eq (congrArg Array.size rebound.cells_eq.symm))
  functionNamed := by
    rw [rebound.functionNames_eq, rebound.functions_eq]
    exact informed.functionNamed
  has d u within := by
    obtain ⟨t, old, rebinds⟩ := Token.exists_of_forall₂ (rebound.tokensOf d) within
    have has := rebound.has (informed.has d t old)
    refine ⟨fun id same => ?_, fun e same => ?_⟩
    · rcases rebinds.cell with cell | ⟨id', cell, own⟩
      · exact has.cell id (cell ▸ same)
      · rw [rebound.cells_eq]
        cases cell.symm.trans same
        exact (hidden id own).exists_
    · exact has.reference e (rebinds.reference ▸ same)
  informs d open_ u within := by
    obtain ⟨t, old, rebinds⟩ := Token.exists_of_forall₂ (rebound.tokensOf d) within
    rw [rebound.isRefused_eq] at open_
    have told := informed.informs d open_ t old
    refine ⟨fun id same isNamed => ?_, fun e same => ?_⟩
    · rw [cell_eq, rebound.cells_eq, ← cell_eq]
      rcases rebinds.cell with cell | ⟨id', cell, own⟩
      · exact told.cell id (cell ▸ same) (rebound.isNamed_iff.1 isNamed)
      · -- parameters have no names
        cases cell.symm.trans same
        obtain ⟨name, named⟩ := rebound.isNamed_iff.1 isNamed
        exact absurd named ((hidden id own).unnamed name)
    · rw [rebound.dependentsOf_eq]
      exact told.reference e (rebinds.reference ▸ same)
  acyclic := by
    have uses : s'.Uses = s.Uses := by
      funext d e
      simp only [Uses, references, filterMap_reference_eq (rebound.tokensOf d),
        rebound.isRefused_eq]
    rw [uses]
    exact informed.acyclic
  keepsWell := by
    refine ⟨?_, fun i c found => ?_⟩
    · rw [rebound.functions_eq]
      exact informed.keepsWell.functions
    · obtain ⟨b, found', block⟩ := rebound.block i c found
      have keeps := informed.keepsWell.blocks i b found'
      intro code kept
      rcases block.code with none | same
      · rw [none] at kept
        cases kept
      · rw [filterMap_reference_eq block.tokens]
        exact keeps code (same ▸ kept)

end Session

end UnitCalc

/-
# Placing functions and blocks

A block is added behind all others, and a function takes a new place or that of the one it
replaces. Whatever the new text refers to is told, unless a function leads back to itself: then
it is refused. All that led to the replaced function forgets what it kept.

## Main definitions

* `Session.Places`: a session in which a function or a block was placed.
* `Session.Reaches`: a function or a block depends on a variable, a function or a block.
* `Session.settle`: a function is put in its place, and accepted or refused.

## Main results

* `Session.Informed.addBlock`, `Session.Informed.settle`: the session stays informed.
* `Session.Informed.keepsNothing_assign`, `Session.Informed.keepsNothing_settle`: what depends on
  a changed variable or a replaced function keeps nothing.
-/

import UnitCalc.Proofs.Session.Informed
import UnitCalc.Statement.Block

namespace UnitCalc

open Relation (TransGen ReflTransGen)

/-- Functions that differ in what depends on them keep the same. -/
theorem UserFunction.KeepsWell.of_undepended {f g : UserFunction} (keeps : f.KeepsWell)
    (same : g.undepended = f.undepended) : g.KeepsWell := by
  obtain ⟨-, body, -, circular, code, results⟩ := eq_of_undepended same
  refine ⟨?_, ?_⟩
  · rw [circular, code, results]
    exact keeps.refused
  · rw [code, body]
    exact keeps.within

theorem Block.KeepsWell.of_undepended {b c : Block} (keeps : b.KeepsWell)
    (same : c.undepended = b.undepended) : c.KeepsWell := by
  have kept : c.undepended.KeepsWell := by
    rw [same]
    exact keeps
  exact kept

namespace Session

variable {s s' s'' : Session} {d e k : Dependent} {t : Token} {tokens : List Token} {i : Nat}
  {f : UserFunction} {b : Block}

/-- A session in which a function or a block was placed. Others are as before, and everything
that knew a dependent still does. -/
structure Places (s : Session) (k : Dependent) (s' : Session) : Prop where
  cellNames : s'.cellNames = s.cellNames
  size : s'.cells.size = s.cells.size
  functionsSize : s.functions.size ≤ s'.functions.size
  blocksSize : s.blocks.size ≤ s'.blocks.size
  told : ∀ id, (s.cell id).dependents ⊆ (s'.cell id).dependents
  dependents : ∀ d, s.dependentsOf d ⊆ s'.dependentsOf d
  tokensOf : ∀ d, d ≠ k → s'.tokensOf d = s.tokensOf d
  isRefused : ∀ d, d ≠ k → s'.isRefused d = s.isRefused d

namespace Places

variable (places : s.Places k s')

include places

theorem has (has : s.Has t) : s'.Has t :=
  has.mono (Nat.le_of_eq places.size.symm) (dependents_subset places.functionsSize places.blocksSize)

theorem informs (told : s.Informs d t) : s'.Informs d t := by
  refine ⟨fun id same isNamed => places.told id (told.cell id same ?_), fun e same =>
    places.dependents e (told.reference e same)⟩
  rw [IsNamed, ← places.cellNames]
  exact isNamed

/-- What tokens refer to exists, when this holds of those that were placed. -/
theorem has_all (before : ∀ d, ∀ t ∈ s.tokensOf d, s.Has t) (new : ∀ t ∈ s'.tokensOf k, s'.Has t)
    (d : Dependent) : ∀ t ∈ s'.tokensOf d, s'.Has t := by
  by_cases here : d = k
  · subst here
    exact new
  · rw [places.tokensOf d here]
    exact fun t within => places.has (before d t within)

theorem uses_of_ne (other : d ≠ k) (uses : s'.Uses d e) : s.Uses d e := by
  unfold Uses references at uses ⊢
  rwa [places.tokensOf d other, places.isRefused d other] at uses

end Places

/-- A function or a block may be placed whose text refers to what exists, that is told to all of
it, and that leads to no circle. -/
theorem Informed.places (informed : s.Informed) (places : s.Places k s')
    (functionNamed : ∀ name (i : Nat), s'.functionNames.lookup name = some i → i < s'.functions.size)
    (has : ∀ t ∈ s'.tokensOf k, s'.Has t)
    (informs : s'.isRefused k = false → ∀ t ∈ s'.tokensOf k, s'.Informs k t)
    (noCircle : s'.isRefused k = false → ¬ TransGen s'.Uses k k) (keepsWell : s'.KeepsWell) :
    s'.Informed where
  toSeparatesNames := informed.of_cellNames places.cellNames (Nat.le_of_eq places.size.symm)
  functionNamed := functionNamed
  has := places.has_all informed.has has
  informs d open_ t within := by
    by_cases here : d = k
    · subst here
      exact informs open_ t within
    · rw [places.tokensOf d here] at within
      rw [places.isRefused d here] at open_
      exact places.informs (informed.informs d open_ t within)
  acyclic d cycle := by
    rcases Graph.transGen_cases (fun a b => places.uses_of_ne) cycle with old | ⟨first, second⟩
    · exact informed.acyclic d old
    · have circle : TransGen s'.Uses k k := second.trans_left first
      obtain ⟨e, uses, -⟩ := TransGen.head'_iff.1 circle
      exact noCircle uses.2 circle
  keepsWell := keepsWell

/-! ## Telling -/

namespace Grows

variable (grows : s.Grows s')

include grows

theorem tokensOf_eq (d : Dependent) : s'.tokensOf d = s.tokensOf d := by
  cases d with
  | function i =>
    exact elim_eq (grows.functions i) fun f g h => (UserFunction.eq_of_undepended h).2.1
  | block i =>
    refine elim_eq (grows.blocks i) fun b c h => ?_
    have tokens : b.undepended.tokens = c.undepended.tokens := by rw [h]
    exact tokens

theorem isRefused_eq (d : Dependent) : s'.isRefused d = s.isRefused d := by
  cases d with
  | function i =>
    exact elim_eq (grows.functions i) fun f g h => (UserFunction.eq_of_undepended h).2.2.2.1
  | block i => rfl

theorem uses_eq : s'.Uses = s.Uses := by
  funext d e
  simp only [Uses, references, grows.tokensOf_eq, grows.isRefused_eq]

theorem dependents_eq : s'.dependents = s.dependents := by
  rw [Session.dependents, Session.dependents, grows.functionsSize, grows.blocksSize]

theorem has (has : s.Has t) : s'.Has t :=
  has.mono (Nat.le_of_eq grows.size.symm) (by rw [grows.dependents_eq]; exact List.Subset.refl _)

theorem informs (told : s.Informs d t) : s'.Informs d t := by
  refine ⟨fun id same isNamed => grows.told id (told.cell id same ?_), fun e same =>
    grows.dependents e (told.reference e same)⟩
  rw [IsNamed, ← grows.cellNames]
  exact isNamed

theorem keepsWell (keeps : s.KeepsWell) : s'.KeepsWell := by
  refine ⟨fun i g found => ?_, fun i c found => ?_⟩
  · have same := grows.functions i
    rw [found, Option.map_some] at same
    obtain ⟨f, old, same⟩ := Option.map_eq_some_iff.1 same.symm
    exact (keeps.functions i f old).of_undepended same.symm
  · have same := grows.blocks i
    rw [found, Option.map_some] at same
    obtain ⟨b, old, same⟩ := Option.map_eq_some_iff.1 same.symm
    exact (keeps.blocks i b old).of_undepended same.symm

end Grows

theorem dependOn_informs (s : Session) (d : Dependent) (has : s.Has t) :
    (s.dependOn d t).Informs d t := by
  refine ⟨fun id same _ => ?_, fun e same => ?_⟩
  · cases t with
    | «variable» cell name =>
      cases same
      rw [dependOn, cell_modifyCell _ (has.cell id rfl)]
      exact mem_add d _
    | _ => cases same
  · have known := mem_dependents_iff.1 (has.reference e same)
    cases t with
    | call index name count =>
      cases index with
      | none => cases same
      | some index =>
        cases same
        simp only [dependOn, dependentsOf, getElem?_modifyFunction, if_true]
        rw [Array.getElem?_eq_getElem known]
        exact mem_add d _
    | block index name =>
      cases same
      simp only [dependOn, dependentsOf, modifyBlock]
      rw [Array.getElem?_modify, if_pos rfl, Array.getElem?_eq_getElem known]
      exact mem_add d _
    | _ => cases same

/-- Everything that tokens refer to is told. -/
theorem dependOnAll_informs (s : Session) (d : Dependent) (has : ∀ t ∈ tokens, s.Has t) :
    ∀ t ∈ tokens, (s.dependOnAll d tokens).Informs d t := by
  unfold dependOnAll
  induction tokens generalizing s with
  | nil => exact List.forall_mem_nil _
  | cons t tokens ih =>
    rw [List.forall_mem_cons] at has
    have grows := (s.dependOn_spec d t).1
    refine List.forall_mem_cons.2 ⟨?_, ih _ fun u within => grows.has (has.2 u within)⟩
    exact (dependOnAll_spec _ d tokens).1.informs (s.dependOn_informs d has.1)

/-! ## Blocks -/

theorem Places.grows (places : s.Places k s') (grows : s'.Grows s'') : s.Places k s'' where
  cellNames := grows.cellNames.trans places.cellNames
  size := grows.size.trans places.size
  functionsSize := grows.functionsSize ▸ places.functionsSize
  blocksSize := grows.blocksSize ▸ places.blocksSize
  told id := List.Subset.trans (places.told id) (grows.told id)
  dependents d := List.Subset.trans (places.dependents d) (grows.dependents d)
  tokensOf d other := (grows.tokensOf_eq d).trans (places.tokensOf d other)
  isRefused d other := (grows.isRefused_eq d).trans (places.isRefused d other)

theorem places_pushBlock (s : Session) (b : Block) :
    s.Places (.block s.blocks.size) { s with blocks := s.blocks.push b } := by
  have other : ∀ i, Dependent.block i ≠ .block s.blocks.size → (s.blocks.push b)[i]? = s.blocks[i]? := by
    intro i different
    rw [Array.getElem?_push, if_neg fun same => different (by rw [same])]
  refine ⟨rfl, rfl, Nat.le_refl _, by simp, fun _ => List.Subset.refl _, fun d => ?_,
    fun d different => ?_, fun d different => ?_⟩
  · cases d with
    | function i => exact List.Subset.refl _
    | block i =>
      by_cases here : Dependent.block i = .block s.blocks.size
      · cases here
        simp [dependentsOf]
      · simp only [dependentsOf, other i here]
        exact List.Subset.refl _
  · cases d with
    | function i => rfl
    | block i => simp only [Session.tokensOf, other i different]
  · cases d <;> rfl

/-- The session with a new block, which was told to what its tokens refer to. -/
theorem places_addBlock (s : Session) (b : Block) :
    s.Places (.block s.blocks.size) (s.addBlock b).2 :=
  (s.places_pushBlock b).grows (dependOnAll_spec _ _ _).1

theorem tokensOf_addBlock (s : Session) (b : Block) :
    (s.addBlock b).2.tokensOf (.block s.blocks.size) = b.tokens := by
  rw [addBlock, (dependOnAll_spec _ _ _).1.tokensOf_eq]
  simp [tokensOf]

theorem mem_dependents_addBlock (s : Session) (b : Block) :
    Dependent.block (s.addBlock b).1 ∈ (s.addBlock b).2.dependents := by
  rw [addBlock, (dependOnAll_spec _ _ _).1.dependents_eq, mem_dependents_iff]
  simp

/-- A new block leaves a session informed. -/
theorem Informed.addBlock (informed : s.Informed) (has : ∀ t ∈ b.tokens, s.Has t)
    (hidden : s.IsPrivate b.parameter) (code : b.code = none) : (s.addBlock b).2.Informed := by
  have places := s.places_addBlock b
  have grows := (dependOnAll_spec { s with blocks := s.blocks.push b } (.block s.blocks.size)
    (b.tokens.filter fun t => t.cell? != some b.parameter)).1
  refine informed.places places ?_ ?_ ?_ ?_ ?_
  · intro name i found
    have named : s.functionNames.lookup name = some i := grows.functionNames ▸ found
    have size : (s.addBlock b).2.functions.size = s.functions.size := grows.functionsSize
    rw [size]
    exact informed.functionNamed name i named
  · rw [tokensOf_addBlock]
    exact fun t within => places.has (has t within)
  · intro _ t within
    rw [tokensOf_addBlock] at within
    by_cases own : t.cell? = some b.parameter
    · -- its own variable has no name
      refine ⟨fun id same isNamed => ?_, fun e same => ?_⟩
      · cases own.symm.trans same
        obtain ⟨name, named⟩ := isNamed
        rw [places.cellNames] at named
        exact absurd named (hidden.unnamed name)
      · cases t with
        | «variable» cell name => cases same
        | _ => cases own
    · have outer : t ∈ b.tokens.filter fun t => t.cell? != some b.parameter :=
        List.mem_filter.2 ⟨within, bne_iff_ne.2 own⟩
      refine dependOnAll_informs _ _ (fun u inside => ?_) t outer
      exact (s.places_pushBlock b).has (has u (List.mem_of_mem_filter inside))
  · -- nothing refers to the new block
    intro _ circle
    have unreferenced : ∀ d, ¬ (s.addBlock b).2.Uses d (.block s.blocks.size) := by
      intro d uses
      have old : ∃ t, s.Has t ∧ t.reference? = some (.block s.blocks.size) := by
        obtain ⟨t, within, refers⟩ := exists_mem_of_references uses.1
        by_cases here : d = .block s.blocks.size
        · subst here
          rw [tokensOf_addBlock] at within
          exact ⟨t, has t within, refers⟩
        · rw [places.tokensOf d here] at within
          exact ⟨t, informed.has d t within, refers⟩
      obtain ⟨t, has, refers⟩ := old
      exact absurd (mem_dependents_iff.1 (has.reference _ refers)) (Nat.lt_irrefl _)
    obtain ⟨d, -, uses⟩ := TransGen.tail'_iff.1 circle
    exact unreferenced d uses
  · refine grows.keepsWell ⟨informed.keepsWell.functions, fun i c found => ?_⟩
    rw [Array.getElem?_push] at found
    split at found
    · cases found
      intro code' kept
      rw [code] at kept
      cases kept
    · exact informed.keepsWell.blocks i c found

/-! ## Functions -/

namespace Defines

variable {j : Nat} (defines : s.Defines j f s')

include defines

theorem tokensOf_eq : s'.tokensOf (.function j) = f.body := by
  obtain ⟨g, found, same⟩ := defines.function
  simp only [tokensOf, found, Option.elim_some]
  exact (UserFunction.eq_of_undepended same).2.1

theorem isRefused_eq : s'.isRefused (.function j) = f.isCircular := by
  obtain ⟨g, found, same⟩ := defines.function
  simp only [isRefused, found, Option.elim_some]
  exact (UserFunction.eq_of_undepended same).2.2.2.1

theorem places : s.Places (.function j) s' where
  cellNames := defines.cellNames
  size := defines.size
  functionsSize := defines.functionsSize
  blocksSize := Nat.le_of_eq defines.blocksSize.symm
  told := defines.told
  dependents := defines.dependents
  tokensOf d other := by
    cases d with
    | function i =>
      have different : i ≠ j := fun same => other (by rw [same])
      exact elim_eq (defines.others i different) fun f g h => (UserFunction.eq_of_undepended h).2.1
    | block i =>
      refine elim_eq (defines.blocks i) fun b c h => ?_
      have tokens : b.undepended.tokens = c.undepended.tokens := by rw [h]
      exact tokens
  isRefused d other := by
    cases d with
    | function i =>
      have different : i ≠ j := fun same => other (by rw [same])
      exact elim_eq (defines.others i different)
        fun f g h => (UserFunction.eq_of_undepended h).2.2.2.1
    | block i => rfl

theorem keepsWell (keeps : s.KeepsWell) (new : f.KeepsWell) : s'.KeepsWell := by
  refine ⟨fun i g found => ?_, fun i c found => ?_⟩
  · rcases defines.function_cases found with ⟨-, same⟩ | ⟨-, h, old, same⟩
    · exact new.of_undepended same
    · exact (keeps.functions i h old).of_undepended same
  · have same := defines.blocks i
    rw [found, Option.map_some] at same
    obtain ⟨b, old, same⟩ := Option.map_eq_some_iff.1 same.symm
    exact (keeps.blocks i b old).of_undepended same.symm

end Defines

/-- A function as a definition makes it: its body refers to what exists, and the names of its
parameters denote cells without a name. -/
structure Fits (s : Session) (f : UserFunction) : Prop where
  has : ∀ t ∈ f.body, s.Has t
  bound : ∀ t ∈ f.body, t ∉ f.freeTokens → ∀ id ∈ t.cell?, s.IsPrivate id
  open_ : f.isCircular = false
  dependents : f.dependents = []
  code : f.code = none
  results : f.results = []

/-- A function that leads to itself is recognized. -/
theorem isCircular_of_transGen (has : ∀ d, ∀ t ∈ s.tokensOf d, s.Has t)
    (circle : TransGen s.Uses (.function i) (.function i)) : s.isCircular i = true := by
  refine Graph.onCycle_of_transGen (circle.lift id fun d e uses => ⟨uses.1, ?_⟩)
  obtain ⟨t, within, refers⟩ := exists_mem_of_references uses.1
  exact (has d t within).reference e refers

/-- A function that was put in its place leaves a session informed if it was refused, or if it was
told to what it refers to. -/
theorem Informed.defines {j : Nat} (informed : s.Informed) (defines : s.Defines j f s')
    (has : ∀ t ∈ f.body, s.Has t) (informs : f.isCircular = false → ∀ t ∈ f.body,
      s'.Informs (.function j) t) (noCircle : f.isCircular = false →
      ¬ TransGen s'.Uses (.function j) (.function j)) (code : f.code = none) (results : f.results = []) :
    s'.Informed := by
  refine informed.places defines.places ?_ ?_ ?_ ?_ ?_
  · intro name i found
    rcases defines.functionNamed name i found with old | rfl
    · exact Nat.lt_of_lt_of_le (informed.functionNamed name i old) defines.functionsSize
    · exact defines.known
  · rw [defines.tokensOf_eq]
    exact fun t within => defines.places.has (has t within)
  · rw [defines.tokensOf_eq, defines.isRefused_eq]
    exact informs
  · rw [defines.isRefused_eq]
    exact noCircle
  · refine defines.keepsWell informed.keepsWell ⟨fun _ => ⟨code, results⟩, fun c kept => ?_⟩
    rw [code] at kept
    cases kept

/-- Puts a function in its place, and accepts it or refuses it. -/
def settle (s : Session) (f : UserFunction) : Except CalcError Nat × Session :=
  let (index, changed, s) := s.install f
  if s.isCircular index then
    (.error (.circularReference f.name),
      (s.modifyFunction index fun f => { f with isCircular := true }).forgetFrom changed)
  else (.ok index, (s.dependOnAll (.function index) f.freeTokens).forgetFrom changed)

theorem reference?_of_not_free (within : t ∈ f.body) (bound : t ∉ f.freeTokens) :
    t.reference? = none := by
  cases t with
  | «variable» cell name => rfl
  | _ => exact absurd (List.mem_filter.2 ⟨within, rfl⟩) bound

/-- Before those forget that depend on its place, a function is refused or told. -/
theorem Informed.exists_settled (informed : s.Informed) (fits : s.Fits f) :
    ∃ j s', s'.Informed ∧ s.Defines j { f with isCircular := s'.isRefused (.function j) } s' ∧
      (s.settle f).2 = s'.forgetFrom (s.dependentsOf (.function j)) := by
  obtain ⟨changed, defines, -⟩ := s.install_spec fits.dependents
  have has : ∀ t ∈ f.body, s.Has t := fits.has
  refine ⟨(s.install f).1, ?_⟩
  unfold settle
  simp only
  split
  · next circular =>
    have refused := defines.refused
    refine ⟨_, informed.defines refused has nofun nofun fits.code fits.results, ?_, by rw [changed]⟩
    rw [refused.isRefused_eq]
    exact refused
  · next open_ =>
    have grows := (dependOnAll_spec (s.install f).2.2 (.function (s.install f).1) f.freeTokens).1
    have accepted := defines.grows grows
    have exists_ : ∀ t ∈ f.freeTokens, (s.install f).2.2.Has t :=
      fun t within => defines.places.has (has t (List.mem_of_mem_filter within))
    have told := dependOnAll_informs (s.install f).2.2 (.function (s.install f).1) exists_
    have informed' := informed.defines accepted has (fun _ t within => ?_) (fun _ circle => ?_)
      fits.code fits.results
    · refine ⟨_, informed', ?_, by rw [changed]⟩
      rw [accepted.isRefused_eq]
      exact accepted
    · by_cases free : t ∈ f.freeTokens
      · exact told t free
      · -- parameters have no names
        refine ⟨fun id same isNamed => ?_, fun e same => ?_⟩
        · obtain ⟨name, named⟩ := isNamed
          rw [accepted.cellNames] at named
          exact absurd named ((fits.bound t within free id same).unnamed name)
        · rw [reference?_of_not_free within free] at same
          cases same
    · rw [grows.uses_eq] at circle
      refine open_ (isCircular_of_transGen (defines.places.has_all informed.has ?_) circle)
      rw [defines.tokensOf_eq]
      exact fun t within => defines.places.has (has t within)

/-- The definition of a function, without what it keeps and what depends on it. -/
def definitionOf (s : Session) (i : Nat) : Option UserFunction :=
  s.functions[i]?.map UserFunction.definition

/-- Functions that differ in what depends on them have the same definition. -/
theorem definitionOf_eq (same : s'.functions[i]?.map UserFunction.undepended =
    s.functions[i]?.map UserFunction.undepended) : s'.definitionOf i = s.definitionOf i := by
  have bare := congrArg (Option.map UserFunction.bare) same
  rwa [Option.map_map, Option.map_map] at bare

theorem SameWiring.definitionOf_eq (same : s.SameWiring s') (i : Nat) :
    s'.definitionOf i = s.definitionOf i := by
  have undepended := congrArg (Option.map UserFunction.undepended) (same.function_at i)
  rwa [Option.map_map, Option.map_map] at undepended

/-! ## What a change reaches -/

/-- A function or a block depends on what a token refers to: it mentions it, or it leads, through
functions that were not refused, to one that does. -/
inductive Reaches (s : Session) (goal : Token → Prop) : Dependent → Prop where
  | mention {d : Dependent} {t : Token} (within : t ∈ s.tokensOf d) (hits : goal t) :
    Reaches s goal d
  | through {d e : Dependent} (refers : e ∈ s.references d) (open_ : s.isRefused e = false)
    (rest : Reaches s goal e) : Reaches s goal d

variable {goal : Token → Prop} {changed : List Dependent}

theorem SameWiring.reaches (same : s.SameWiring s') (reaches : s.Reaches goal d) :
    s'.Reaches goal d := by
  induction reaches with
  | mention within hits => exact .mention (by rwa [same.tokensOf_eq]) hits
  | through refers open_ _ ih =>
    exact .through (by rwa [same.references_eq]) (by rwa [same.isRefused_eq]) ih

theorem Reaches.mem_dependents (reaches : s.Reaches goal d) : d ∈ s.dependents := by
  cases reaches with
  | mention within _ => exact mem_dependents_of_mem_tokensOf within
  | through refers _ _ =>
    obtain ⟨t, within, -⟩ := exists_mem_of_references refers
    exact mem_dependents_of_mem_tokensOf within

/-- A change that those are told of who mention it reaches all that depend on it. -/
theorem Informed.mem_affected (informed : s.Informed)
    (told : ∀ d t, s.isRefused d = false → t ∈ s.tokensOf d → goal t → d ∈ changed)
    (reaches : s.Reaches goal d) (open_ : s.isRefused d = false) : d ∈ s.affected changed := by
  have known := reaches.mem_dependents
  induction reaches with
  | mention within hits => exact Graph.mem_reach_of_pending (told _ _ open_ within hits) known
  | through refers inner rest ih =>
    obtain ⟨t, within, refers⟩ := exists_mem_of_references refers
    refine Graph.mem_reach_of_edge (ih inner rest.mem_dependents) ?_ known
    exact (informed.informs _ open_ t within).reference _ refers

/-- When those forget that a change reaches, all that depends on it keeps nothing. -/
theorem Informed.keepsNothing (informed : s.Informed)
    (told : ∀ d t, s.isRefused d = false → t ∈ s.tokensOf d → goal t → d ∈ changed)
    (reaches : s.Reaches goal d) : (s.forgetFrom changed).KeepsNothing d := by
  cases refused : s.isRefused d with
  | false => exact keepsNothing_forgetFrom (informed.mem_affected told reaches refused)
  | true =>
    have same := s.runsTo_forgetFrom changed
    refine (same.keepsWell informed.keepsWell).keepsNothing ?_
    rw [same.isRefused_eq, refused]

/-- After an assignment all that depends on the variable keeps nothing. -/
theorem Informed.keepsNothing_assign (informed : s.Informed) {id : CellId} (named : s.IsNamed id)
    (value : Value) (reaches : s.Reaches (fun t => t.cell? = some id) d) :
    (s.assign id value).KeepsNothing d := by
  have runs := s.runsTo_store id value
  refine (informed.runsTo runs).keepsNothing (fun e t open_ within same => ?_) (runs.reaches reaches)
  rw [runs.tokensOf_eq] at within
  rw [runs.isRefused_eq] at open_
  exact (informed.informs e open_ t within).cell id same named

/-- A function that is put in its place keeps nothing yet. -/
theorem Defines.keepsNothing {j : Nat} (defines : s.Defines j f s') (code : f.code = none)
    (results : f.results = []) : s'.KeepsNothing (.function j) := by
  obtain ⟨g, found, same⟩ := defines.function
  obtain ⟨-, -, -, -, code', results'⟩ := UserFunction.eq_of_undepended same
  intro g' found'
  cases found.symm.trans found'
  exact ⟨code'.trans code, results'.trans results⟩

/-- After a function was settled, it keeps nothing, nor does all that leads to it. -/
theorem Informed.keepsNothing_settle (informed : s.Informed) (fits : s.Fits f) :
    ∃ j, (s.settle f).2.Informed ∧
      (∀ i, i ≠ j → (s.settle f).2.definitionOf i = s.definitionOf i) ∧
      (s.settle f).2.KeepsNothing (.function j) ∧
      ∀ d, (s.settle f).2.Reaches (fun t => t.reference? = some (.function j)) d →
        (s.settle f).2.KeepsNothing d := by
  obtain ⟨j, s', informed', defines, settled⟩ := informed.exists_settled fits
  have runs := s'.runsTo_forgetFrom (s.dependentsOf (.function j))
  rw [settled]
  refine ⟨j, informed'.runsTo runs, fun i other => ?_, ?_, fun d reaches => ?_⟩
  · exact (runs.definitionOf_eq i).trans (definitionOf_eq (defines.others i other))
  · rw [forgetFrom_eq]
    exact (defines.keepsNothing fits.code fits.results).forgetAll _
  · refine informed'.keepsNothing (fun e t open_ within same => ?_) (runs.symm.reaches reaches)
    by_cases here : e = .function j
    · -- a function that mentions itself is refused
      subst here
      refine absurd (TransGen.single ⟨?_, open_⟩) (informed'.acyclic (.function j))
      exact List.mem_filterMap.2 ⟨t, within, same⟩
    · rw [defines.places.tokensOf e here] at within
      rw [defines.places.isRefused e here] at open_
      exact (informed.informs e open_ t within).reference _ same

end Session

end UnitCalc

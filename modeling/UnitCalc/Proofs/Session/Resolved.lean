/-
# Resolved sessions

A token keeps the index of a function and the number of its parameters, or the index of a block,
from when it was read. Functions and blocks are never taken away before a session is cleared, and
a function only takes the place of one with as many parameters. So what was resolved once stays
resolved: the function is still there and has as many parameters, and so is the block.

## Main definitions

* `Session.Offers`: the session has a function with so many parameters, or a block.
* `Session.Resolves`: a token enters what the session offers.
* `Session.Resolved`: the texts and the code of functions and blocks enter what is offered, and
  blocks only those that were added before them.
* `Session.Suits`: a function as a definition makes it.

## Main results

* `Session.Resolved.evolves`, `Session.Resolved.extends`, `Session.Resolved.rebound`,
  `Session.Resolved.addBlock`, `Session.Resolved.settle`: what leaves a session resolved.
* `Session.Resolved.confined`: evaluation enters what is offered, and misses nothing.
-/

import UnitCalc.Proofs.Session.Evolution
import UnitCalc.Proofs.Session.Placement

namespace UnitCalc

open List (Forall₂)

namespace Session

variable {s s' : Session} {d k : Dependent} {t u : Token} {e : Entry} {i : Nat} {f : UserFunction}
  {b : Block}

/-- The session has a function with so many parameters, or a block. -/
def Offers (s : Session) : Entry → Prop
  | .call i count => s.functions[i]?.map UserFunction.arity = some count
  | .block i => i < s.blocks.size

instance (s : Session) : DecidablePred s.Offers
  | .call _ _ => inferInstanceAs (Decidable (_ = _))
  | .block _ => inferInstanceAs (Decidable (_ < _))

/-- A token enters what the session offers, and calls nothing that is not defined. -/
structure Resolves (s : Session) (t : Token) : Prop where
  offered : ∀ e ∈ t.entry?, s.Offers e
  defined : t.isForward = false

/-- A token of a function or a block is resolved. In a block it enters only blocks with smaller
indices. -/
structure ResolvesIn (s : Session) (d : Dependent) (t : Token) : Prop extends Resolves s t where
  nested : ∀ i j, d = .block i → Entry.block j ∈ t.entry? → j < i

/-- All tokens of functions and blocks are resolved, and what is compiled enters what is offered. -/
structure Resolved (s : Session) : Prop where
  tokens : ∀ d, ∀ t ∈ s.tokensOf d, s.ResolvesIn d t
  codes : ∀ d, ∀ code ∈ s.codesOf d, code.Enters s.Offers

theorem Offers.mem_dependents (offers : s.Offers e) : e.dependent ∈ s.dependents := by
  cases e with
  | call i count =>
    obtain ⟨f, found, -⟩ := Option.map_eq_some_iff.1 offers
    exact mem_dependents_iff.2 (Array.getElem?_eq_some_iff.1 found).1
  | block i => exact mem_dependents_iff.2 offers

/-- Functions of the same arity may take each other's place. -/
theorem Offers.mono (arity : ∀ (i n : Nat), s.functions[i]?.map UserFunction.arity = some n →
      s'.functions[i]?.map UserFunction.arity = some n)
    (blocks : s.blocks.size ≤ s'.blocks.size) (offers : s.Offers e) : s'.Offers e := by
  cases e with
  | call i count => exact arity i count offers
  | block i => exact Nat.lt_of_lt_of_le offers blocks

/-- What is offered is told by the definitions of functions. -/
theorem Offers.of_definitionOf (same : ∀ i, s'.definitionOf i = s.definitionOf i)
    (dependents : s.dependents ⊆ s'.dependents) (offers : s.Offers e) : s'.Offers e := by
  have told : ∀ (s : Session) (i : Nat),
      (s.definitionOf i).map UserFunction.arity = s.functions[i]?.map UserFunction.arity :=
    fun s i => Option.map_map ..
  cases e with
  | call i count => exact (told s' i).symm.trans ((same i ▸ told s i).trans offers)
  | block i => exact mem_dependents_iff.1 (dependents offers.mem_dependents)

theorem Resolves.mono (resolves : s.Resolves t) (offers : ∀ e, s.Offers e → s'.Offers e) :
    s'.Resolves t :=
  ⟨fun e enters => offers e (resolves.offered e enters), resolves.defined⟩

/-- Only what a token enters matters. -/
theorem Resolves.congr (resolves : s.Resolves t) (entry : u.entry? = t.entry?)
    (forward : u.isForward = t.isForward) : s.Resolves u :=
  ⟨entry ▸ resolves.offered, forward.trans resolves.defined⟩

/-- A change leaves a session resolved when nothing that was offered is taken away, and when texts
and code are old or enter only what was offered before. -/
theorem Resolved.change (resolved : s.Resolved) (offers : ∀ e, s.Offers e → s'.Offers e)
    (tokens : ∀ d, ∀ t ∈ s'.tokensOf d, s.ResolvesIn d t)
    (codes : ∀ d, ∀ code ∈ s'.codesOf d, code ∈ s.codesOf d ∨ code.Enters s.Offers) :
    s'.Resolved where
  tokens d t within := by
    have before := tokens d t within
    exact ⟨before.mono offers, before.nested⟩
  codes d code within := by
    rcases codes d code within with old | enters
    · exact (resolved.codes d code old).mono offers
    · exact enters.mono offers

/-! ## Evaluation -/

theorem Evolves.offers (evolves : s.Evolves s') (offers : s.Offers e) : s'.Offers e := by
  refine offers.of_definitionOf evolves.runsTo.definitionOf_eq ?_
  rw [evolves.runsTo.dependents_eq]
  exact List.Subset.refl _

/-- Evaluation compiles only texts of the session. -/
theorem Resolved.evolves (resolved : s.Resolved) (evolves : s.Evolves s') : s'.Resolved := by
  refine resolved.change (fun e => evolves.offers) (fun d t within => ?_) fun d code within => ?_
  · rw [evolves.runsTo.tokensOf_eq] at within
    exact resolved.tokens d t within
  · -- new code enters what its text enters, and the text is resolved
    refine (evolves.codesOf code within).imp_right fun compiles =>
      compiles.enters.mono fun e inside => ?_
    obtain ⟨t, inside, enters⟩ := List.mem_filterMap.1 inside
    exact (resolved.tokens d t inside).offered e enters

/-- In a resolved session evaluation enters what is offered, and misses nothing. -/
theorem Resolved.confined (resolved : s.Resolved) (offers : s.Offers e) :
    s.Confined False s.Offers e.dependent where
  known := .inl offers.mem_dependents
  entries _ e' inside := by
    obtain ⟨t, inside, enters⟩ := List.mem_filterMap.1 inside
    exact (resolved.tokens _ t inside).offered e' enters
  defined _ t inside forward := by
    rw [(resolved.tokens _ t inside).defined] at forward
    cases forward
  codes _ := resolved.codes _

/-! ## Reading -/

theorem Extends.offers (ext : s.Extends s') (offers : s.Offers e) : s'.Offers e := by
  refine offers.mono (fun i n known => ?_) (Nat.le_of_eq ?_)
  · rwa [ext.functions]
  · rw [ext.blocks]

theorem Extends.codesOf_eq (ext : s.Extends s') (d : Dependent) : s'.codesOf d = s.codesOf d := by
  cases d <;> simp only [codesOf, ext.functions, ext.blocks]

/-- New cells leave functions and blocks alone. -/
theorem Resolved.extends (resolved : s.Resolved) (ext : s.Extends s') : s'.Resolved := by
  refine resolved.change (fun e => ext.offers) (fun d t within => ?_) fun d code within => ?_
  · rw [ext.tokensOf_eq] at within
    exact resolved.tokens d t within
  · rw [ext.codesOf_eq] at within
    exact .inl within

theorem Rebound.offers {own : CellId → Prop} (rebound : s.Rebound own s') (offers : s.Offers e) :
    s'.Offers e := by
  refine offers.mono (fun i n known => ?_) (Nat.le_of_eq rebound.size.symm)
  rwa [rebound.functions_eq]

/-- Code of blocks that are bound is dropped. -/
theorem Rebound.codesOf_subset {own : CellId → Prop} (rebound : s.Rebound own s') :
    s'.codesOf d ⊆ s.codesOf d := by
  intro code within
  cases d with
  | function i =>
    rw [codesOf, rebound.functions_eq] at within
    exact within
  | block i =>
    cases found : s'.blocks[i]? with
    | none =>
      rw [codesOf, found] at within
      cases within
    | some c =>
      obtain ⟨b, found', bound⟩ := rebound.block i c found
      rw [codesOf_block_eq found] at within
      rw [codesOf_block_eq found']
      rcases bound.code with none | same
      · rw [none] at within
        cases within
      · rwa [← same]

/-- Parameters may take the place of variables, but not of what is entered. -/
theorem Resolved.rebound {own : CellId → Prop} (resolved : s.Resolved)
    (rebound : s.Rebound own s') : s'.Resolved := by
  refine resolved.change (fun e => rebound.offers) (fun d u within => ?_)
    fun d code within => .inl (rebound.codesOf_subset within)
  obtain ⟨t, old, rebinds⟩ := Token.exists_of_forall₂ (rebound.tokensOf d) within
  have before := resolved.tokens d t old
  exact ⟨before.congr rebinds.entry rebinds.forward, rebinds.entry ▸ before.nested⟩

/-! ## Placing -/

/-- Functions that differ in what depends on them keep the same code, and so do blocks. -/
theorem codesOf_function_congr (same : s'.functions[i]?.map UserFunction.undepended =
    s.functions[i]?.map UserFunction.undepended) :
    s'.codesOf (.function i) = s.codesOf (.function i) := by
  refine elim_eq same fun f g same => ?_
  rw [(UserFunction.eq_of_undepended same).2.2.2.2.1]

theorem codesOf_block_congr (same : s'.blocks[i]?.map Block.undepended =
    s.blocks[i]?.map Block.undepended) : s'.codesOf (.block i) = s.codesOf (.block i) := by
  refine elim_eq same fun b c same => ?_
  have code : b.undepended.code = c.undepended.code := by rw [same]
  exact congrArg (·.elim [] BlockCode.parts) code

theorem Grows.codesOf_eq (grows : s.Grows s') (d : Dependent) : s'.codesOf d = s.codesOf d := by
  cases d with
  | function i => exact codesOf_function_congr (grows.functions i)
  | block i => exact codesOf_block_congr (grows.blocks i)

/-- A function or a block may be placed whose text is resolved, as long as it keeps no code. -/
theorem Resolved.places (resolved : s.Resolved) (places : s.Places k s')
    (offers : ∀ e, s.Offers e → s'.Offers e) (new : ∀ t ∈ s'.tokensOf k, s.ResolvesIn k t)
    (codes : ∀ d, s'.codesOf d ⊆ s.codesOf d) : s'.Resolved := by
  refine resolved.change offers (fun d t within => ?_) fun d code within => .inl (codes d within)
  by_cases here : d = k
  · subst here
    exact new t within
  · rw [places.tokensOf d here] at within
    exact resolved.tokens d t within

theorem codesOf_addBlock (code : b.code = none) :
    (s.addBlock b).2.codesOf d ⊆ s.codesOf d := by
  rw [addBlock, (dependOnAll_spec _ _ _).1.codesOf_eq]
  intro part within
  cases d with
  | function i => exact within
  | block i =>
    rw [codesOf, Array.getElem?_push] at within
    split at within
    · rw [Option.elim_some, code] at within
      cases within
    · exact within

theorem offers_addBlock (b : Block) (offers : s.Offers e) : (s.addBlock b).2.Offers e := by
  have grows := (dependOnAll_spec { s with blocks := s.blocks.push b } (.block s.blocks.size)
    (b.tokens.filter fun t => t.cell? != some b.parameter)).1
  have places := s.places_addBlock b
  refine Offers.of_definitionOf (fun i => ?_)
    (dependents_subset places.functionsSize places.blocksSize) offers
  exact definitionOf_eq (grows.functions i)

/-- All blocks that a new block enters were added before it. -/
theorem Resolved.addBlock (resolved : s.Resolved) (tokens : ∀ t ∈ b.tokens, s.Resolves t)
    (code : b.code = none) : (s.addBlock b).2.Resolved := by
  refine resolved.places (s.places_addBlock b) (fun e => offers_addBlock b) (fun t within => ?_)
    fun d => codesOf_addBlock code
  rw [tokensOf_addBlock] at within
  refine ⟨tokens t within, fun i j here enters => ?_⟩
  cases here
  exact (tokens t within).offered _ enters

namespace Defines

variable {j : Nat} (defines : s.Defines j f s')

include defines

theorem offers (offers : s.Offers e) : s'.Offers e := by
  refine offers.mono (fun i n known => ?_) (Nat.le_of_eq defines.blocksSize.symm)
  by_cases here : i = j
  · -- the function that was there had as many parameters
    subst here
    obtain ⟨g, found, same⟩ := defines.function
    obtain ⟨old, there, arity⟩ := Option.map_eq_some_iff.1 known
    rw [found, Option.map_some, UserFunction.arity, (UserFunction.eq_of_undepended same).1,
      defines.parameters old there]
    exact congrArg some arity
  · have arity := congrArg (Option.map UserFunction.arity) (defines.others i here)
    rw [Option.map_map, Option.map_map] at arity
    exact arity.trans known

theorem codesOf_subset (code : f.code = none) : s'.codesOf d ⊆ s.codesOf d := by
  intro part within
  cases d with
  | block i => rwa [codesOf_block_congr (defines.blocks i)] at within
  | function i =>
    by_cases here : i = j
    · subst here
      obtain ⟨g, found, same⟩ := defines.function
      rw [codesOf_function_eq found, (UserFunction.eq_of_undepended same).2.2.2.2.1, code] at within
      cases within
    · rwa [codesOf_function_congr (defines.others i here)] at within

end Defines

/-- A function as a definition makes it: its body is resolved and does not assign, and it has
parameters, which denote cells without a name. -/
structure Suits (s : Session) (f : UserFunction) : Prop extends Fits s f where
  takes : f.parameters ≠ []
  resolves : ∀ t ∈ f.body, s.Resolves t
  still : ∀ t ∈ f.body, t.isAssignment = false
  hidden : ∀ id ∈ f.cells, s.IsPrivate id

/-- A function that is put in its place, accepted or refused, leaves a session resolved. -/
theorem Resolved.settle (resolved : s.Resolved) (informed : s.Informed) (suits : s.Suits f) :
    (s.settle f).2.Resolved := by
  obtain ⟨j, s', -, defines, settled⟩ := informed.exists_settled suits.toFits
  rw [settled]
  -- The function is placed without code, and what depends on its place forgets what it keeps.
  refine Resolved.evolves ?_ (s'.evolves_forgetFrom _)
  refine resolved.places defines.places (fun e => defines.offers) (fun t within => ?_)
    fun d => defines.codesOf_subset suits.code
  rw [defines.tokensOf_eq] at within
  exact ⟨suits.resolves t within, nofun⟩

theorem Informed.offers_settle (informed : s.Informed) (suits : s.Suits f) (offers : s.Offers e) :
    (s.settle f).2.Offers e := by
  obtain ⟨j, s', -, defines, settled⟩ := informed.exists_settled suits.toFits
  rw [settled]
  exact (s'.evolves_forgetFrom _).offers (defines.offers offers)

end Session

end UnitCalc

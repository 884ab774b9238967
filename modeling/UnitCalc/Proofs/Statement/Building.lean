/-
# Programs behind each other

Reading goes on and on: what the session had is retained, and what is read later refers to later
blocks only. So the parts of a program, and the programs of a block, have no part in common, and
each of them can be bound without the others. A program that lies like this stays so when it is
checked, when its operators are ordered, and when names in it become units. At last it is bound to
parameters, and its names are in their scope.

## Main definitions

* `Session.Builds`: what a session is after reading.
* `Session.Lies`: programs whose names stand for variables of the session, behind the first blocks.
* `Session.Contains`: blocks whose variable is bound.
* `Session.InScope`: functions whose names stand for what they mean.

## Main results

* `Session.Lies.append`: what is read later lies behind.
* `Session.Lies.bindUnknown`, `Session.Contains.place`: the block of a program that lies behind.
* `Session.Lies.bindParameters`: the program in the scope of new parameters.
-/

import UnitCalc.Proofs.Postfix.Conservation
import UnitCalc.Proofs.Session.Scope
import UnitCalc.Proofs.Statement.Parsed

namespace UnitCalc

open List (Forall₂)
open Relation (ReflTransGen)
open Session SessionM

namespace Session

variable {n : Nat} {s s' s'' : Session} {scope : Scope} {t u : Token}
  {ts us program : List Token} {i j : Nat}

/-- A session retains what it had when later blocks only are changed. -/
theorem Retains.inPlace (retains : s.Retains s') (reads : s'.ReadsInPlace s.blocks.size s'') :
    s.Retains s'' where
  keepsName name id named := reads.spares.keepsName name id (retains.keepsName name id named)
  block i within := (reads.spares.block i within).trans (retains.block i within)

/-- Reading goes on: what the session had is retained, and new blocks refer to new ones only. -/
structure Builds (s s' : Session) : Prop extends Retains s s' where
  reads : s.Reads s'
  isSplit : s'.IsSplit s.blocks.size
  blockDepth : s'.blockDepth = s.blockDepth

namespace Builds

theorem refl (s : Session) : s.Builds s :=
  ⟨.refl s, .refl, s.isSplit_size, rfl⟩

/-- What the first blocks refer to stays, and later ones refer to later ones. -/
theorem keepsSplit (builds : s.Builds s') (split : s.IsSplit n) : s'.IsSplit n := by
  refine ⟨Nat.le_trans split.size builds.isSplit.size, fun i j later refers => ?_⟩
  by_cases old : i < s.blocks.size
  · rw [references_of_definition (builds.block i old)] at refers
    exact split.above i j later refers
  · exact Nat.le_trans split.size (builds.isSplit.above i j (Nat.not_lt.1 old) refers)

theorem trans (first : s.Builds s') (second : s'.Builds s'') : s.Builds s'' where
  toRetains := first.toRetains.trans second.toRetains
  reads := ReflTransGen.trans first.reads second.reads
  isSplit := second.keepsSplit first.isSplit
  blockDepth := second.blockDepth.trans first.blockDepth

theorem growth : Growth Builds :=
  ⟨.refl, .trans⟩

/-- Reading goes on, and leaves alone all blocks that there were at its begin. -/
theorem inPlace (builds : s.Builds s') (reads : s'.ReadsInPlace s.blocks.size s'') :
    s.Builds s'' where
  toRetains := builds.toRetains.inPlace reads
  reads := ReflTransGen.trans builds.reads reads.reads
  isSplit := reads.spares.isSplit builds.isSplit
  blockDepth := reads.blockDepth.trans builds.blockDepth

end Builds

/-- The tokens of a program stand for variables of the session. Its blocks have no part in common,
and are none of the first ones. -/
structure Lies (n : Nat) (s : Session) (program : List Token) : Prop where
  tokens : ∀ t ∈ program, s.Scoped .empty t
  apart : s.Apart program
  later : ∀ i ∈ Token.blockIndices program, n ≤ i ∧ i < s.blocks.size

theorem Lies.mono (lies : s.Lies n program) (retains : s.Retains s') : s'.Lies n program where
  tokens t within := retains.scoped_token (lies.tokens t within)
  apart := retains.apart lies.apart fun i within => (lies.later i within).2
  later i within :=
    ⟨(lies.later i within).1, Nat.lt_of_lt_of_le (lies.later i within).2 retains.size⟩

theorem lies_nil (n : Nat) (s : Session) : s.Lies n [] :=
  ⟨List.forall_mem_nil _, List.Pairwise.nil, List.forall_mem_nil _⟩

/-- What is read later lies behind what was read before. -/
theorem Lies.append (first : s.Lies n ts) (size : n ≤ s.blocks.size) (builds : s.Builds s')
    (second : s'.Lies s.blocks.size us) : s'.Lies n (ts ++ us) := by
  have first' := first.mono builds.toRetains
  have indices := Token.blockIndices_append ts us
  refine ⟨List.forall_mem_append.2 ⟨first'.tokens, second.tokens⟩, ?_, ?_⟩
  · rw [Apart, indices]
    exact List.pairwise_append.2 ⟨first'.apart, second.apart, fun i before j behind =>
      ⟨_, builds.isSplit.isCut j, (first.later i before).2, (second.later j behind).1⟩⟩
  · rw [indices]
    exact List.forall_mem_append.2 ⟨first'.later, fun j behind =>
      ⟨Nat.le_trans size (second.later j behind).1, (second.later j behind).2⟩⟩

/-- A single token. -/
theorem lies_token (reads : s.Scoped .empty t) (later : ∀ i ∈ t.blockIndex?, n ≤ i) :
    s.Lies n [t] := by
  refine ⟨List.forall_mem_singleton.2 reads, ?_, fun i within => ?_⟩
  · cases block : t.blockIndex? <;> simp [Apart, Token.blockIndices, block]
  · obtain ⟨u, member, refers⟩ := List.mem_filterMap.1 within
    cases List.mem_singleton.1 member
    exact ⟨later i refers, reads.lt_size i refers⟩

theorem Lies.sublist (lies : s.Lies n ts) (part : us.Sublist ts) : s.Lies n us :=
  have indices := part.filterMap Token.blockIndex?
  ⟨fun t within => lies.tokens t (part.subset within), lies.apart.sublist indices,
    fun i within => lies.later i (indices.subset within)⟩

/-- A token that is read behind others, and is no block. -/
theorem Lies.push (lies : s.Lies n ts.reverse) (size : n ≤ s.blocks.size)
    (reads : s.Scoped .empty t) (noBlock : t.blockIndex? = none) : s.Lies n (t :: ts).reverse := by
  rw [List.reverse_cons]
  refine lies.append size (.refl s) (lies_token reads fun i same => ?_)
  cases noBlock.symm.trans same
/-! ## Blocks -/

theorem indices_sublist (b : Block) :
    (Token.blockIndices b.boundTokens).Sublist (Token.blockIndices b.tokens) := by
  refine List.Sublist.filterMap _ ?_
  rw [Block.boundTokens, Block.tokens, List.append_assoc, List.append_assoc]
  refine (List.Sublist.refl _).append ?_
  exact (List.sublist_append_right _ _).trans (List.sublist_append_right _ _)

/-- A token of the bounds of a block has no part in common with its objective and with the right
side of its equation. -/
theorem Apart.beside {b : Block} (apart : s.Apart b.tokens)
    (member : j ∈ Token.blockIndices b.besideTokens) : ∀ k ∈ Token.blockIndices b.boundTokens,
      ∃ n, s.IsCut n k ∧ j < n ∧ n ≤ k ∨ s.IsCut n j ∧ k < n ∧ n ≤ j := by
  simp only [Apart, Block.tokens, Token.blockIndices_append, Token.blockIndices_cons,
    List.pairwise_append, List.mem_append] at apart
  simp only [Block.besideTokens, Token.blockIndices_append, List.mem_append] at member
  simp only [Block.boundTokens, Token.blockIndices_append, List.mem_append]
  obtain ⟨⟨⟨-, -, lower⟩, -, upper⟩, -, equation⟩ := apart
  rintro k (objective | side)
  · obtain ⟨n, between⟩ : ∃ n, s.IsCut n j ∧ k < n ∧ n ≤ j := by
      rcases member with member | member
      · exact lower k objective j (.inr member)
      · exact upper k (.inl objective) j member
    exact ⟨n, .inr between⟩
  · obtain ⟨n, between⟩ : ∃ n, s.IsCut n k ∧ j < n ∧ n ≤ k := by
      rcases member with member | member
      · exact equation j (.inl (.inr (.inr member))) k side
      · exact equation j (.inr member) k side
    exact ⟨n, .inl between⟩

/-- Binding the variable of a block puts its objective and the right side of its equation into the
scope of the variable, and leaves its bounds beside it. -/
theorem Lies.bindUnknown {b : Block} (lies : s.Lies n b.tokens) :
    (∀ t ∈ (s.bindProgram [(b.unknownName, b.parameter)] b.boundTokens).1,
      (s.bindProgram [(b.unknownName, b.parameter)] b.boundTokens).2.Scoped
        (Scope.empty.within b) t) ∧
    ∀ t ∈ b.besideTokens,
      (s.bindProgram [(b.unknownName, b.parameter)] b.boundTokens).2.Scoped .empty t := by
  have within : (Scope.empty).inside [(b.unknownName, b.parameter)] = Scope.empty.within b := by
    funext name
    rw [Scope.inside, Scope.empty, Option.none_or, Scope.within, List.lookup_cons]
    by_cases same : name = b.unknownName
    · rw [if_pos same, beq_iff_eq.2 same]
    · rw [if_neg same, beq_false_of_ne same]
      rfl
  refine ⟨?_, fun t member => ?_⟩
  · rw [← within]
    exact Scoped.bindProgram (lies.apart.sublist (indices_sublist b))
      (fun t member => lies.tokens t (Block.mem_tokens.2 (.inl member)))
      (Scope.lacks_empty _)
  · have reads := lies.tokens t (Block.mem_tokens.2 (.inr (.inr member)))
    cases block : t.blockIndex? with
    | none => exact reads.of_names block (s.rebound_foldl _ _).cellNames_eq
    | some j =>
      cases t with
      | block j' name =>
        refine reads.foldl_of_apart (lies.apart.beside ?_)
        exact List.mem_filterMap.2 ⟨_, member, rfl⟩
      | _ => cases block

/-- A block whose objective and equation are in the scope of its variable, and whose bounds are
beside it. -/
structure Contains (s : Session) (b : Block) : Prop where
  within : ∀ t ∈ b.boundTokens, s.Scoped (Scope.empty.within b) t
  beside : ∀ t ∈ b.besideTokens, s.Scoped .empty t
  apart : s.Apart b.tokens
  before : ∀ j ∈ Token.blockIndices b.tokens, j < s.blocks.size

/-- The block that is added stands behind all others, which stay as they are. -/
theorem place_block (s : Session) (b : Block) : (s.place b).1 = s.blocks.size ∧
    s.Retains (s.place b).2 ∧
    ∃ c extremum, (s.place b).2.blocks[s.blocks.size]? = some c ∧
      c.undepended = { b with extremum }.undepended := by
  have added (s : Session) (b : Block) : (∀ i < s.blocks.size,
      (s.addBlock b).2.blocks[i]?.map Block.definition = s.blocks[i]?.map Block.definition) ∧
      (s.addBlock b).2.cellNames = s.cellNames ∧
      ∃ c, (s.addBlock b).2.blocks[s.blocks.size]? = some c ∧ c.undepended = b.undepended := by
    refine ⟨fun i within => ?_, (s.places_addBlock b).cellNames, ?_⟩
    · have old := block_addBlock (s := s) (b := b) i
      rw [if_neg (Nat.ne_of_lt within)] at old
      have forgotten := congrArg (Option.map Block.forget) old
      rwa [Option.map_map, Option.map_map] at forgotten
    · have new := block_addBlock (s := s) (b := b) s.blocks.size
      rw [if_pos rfl] at new
      exact Option.map_eq_some_iff.1 new
  obtain ⟨-, same⟩ | ⟨name, -, same⟩ := s.place_cases b
  · rw [same]
    obtain ⟨old, names, c, found, alike⟩ := added s { b with extremum := none }
    exact ⟨rfl, ⟨fun _ _ named => names ▸ named, old⟩, c, none, found, alike⟩
  · -- the place of the extreme value is assigned before
    rw [same]
    have ext := (s.extends_cellOf name).1
    have wiring := (s.cellOf name).2.sameWiring_assign (s.cellOf name).1 .undefined
    have size := wiring.blocks_size.trans (congrArg Array.size ext.blocks)
    obtain ⟨old, names, c, found, alike⟩ :=
      added ((s.cellOf name).2.assign (s.cellOf name).1 .undefined)
        { b with extremum := some (s.cellOf name).1 }
    rw [size] at old found
    refine ⟨size, ⟨fun name' id named => ?_, fun i within => ?_⟩, c, _, found, alike⟩
    · rw [names, wiring.cellNames]
      exact ext.keepsName name' id named
    · rw [old i within, wiring.block_definition, ext.blocks]

theorem Contains.place {b : Block} (contains : s.Contains b) (name : String) :
    (s.place b).2.Scoped .empty (.block (s.place b).1 name) := by
  obtain ⟨last, retains, c, extremum, found, alike⟩ := s.place_block b
  have read {α : Type} (f : Block → α) : f c.undepended = f { b with extremum }.undepended :=
    congrArg f alike
  have tokens : c.tokens = b.tokens := read Block.tokens
  have boundTokens : c.boundTokens = b.boundTokens := read Block.boundTokens
  have besideTokens : c.besideTokens = b.besideTokens := read Block.besideTokens
  have within : Scope.empty.within c = Scope.empty.within b := read (Scope.empty.within ·)
  have beside : Scope.empty.beside c = Scope.empty := funext fun name => ite_self none
  rw [last]
  refine .block found ?_ ?_ ?_ ?_
  · rw [tokens]
    exact retains.apart contains.apart contains.before
  · rw [tokens]
    exact contains.before
  · rw [boundTokens, within]
    exact fun t member => retains.scoped_token (contains.within t member)
  · rw [besideTokens, beside]
    exact fun t member => retains.scoped_token (contains.beside t member)

/-! ## Statements -/

/-- A token in place of another one: of the same block, and in the same scopes. -/
def Follows (s : Session) (u t : Token) : Prop :=
  u.blockIndex? = t.blockIndex? ∧ ∀ scope, s.Scoped scope t → s.Scoped scope u

namespace Follows

theorem refl (s : Session) (t : Token) : s.Follows t t :=
  ⟨rfl, fun _ => id⟩

theorem trans {v : Token} (first : s.Follows t u) (second : s.Follows u v) : s.Follows t v :=
  ⟨first.1.trans second.1, fun scope reads => first.2 scope (second.2 scope reads)⟩

theorem of_restates (restates : Token.Restates u t) : s.Follows u t := by
  refine ⟨restates.blockIndex?_eq, fun scope reads => ?_⟩
  cases t with
  | operator | negation | multiFunction =>
    obtain ⟨x, rfl⟩ := restates
    exact .other rfl
  | _ =>
    cases restates
    exact reads

/-- A name that is read as a unit. -/
theorem resolved (isAssigned : CellId → Bool) (find : String → Option ValueUnit) (t : Token) :
    s.Follows (t.resolved isAssigned find) t := by
  cases t with
  | «variable» cell name =>
    rw [Token.resolved]
    split
    · exact .refl s _
    · split
      · exact ⟨rfl, fun _ _ => .other rfl⟩
      · exact .refl s _
  | _ => exact .refl s _

end Follows

theorem Lies.follow (lies : s.Lies n ts) (follow : Forall₂ s.Follows us ts) : s.Lies n us := by
  have indices : Token.blockIndices us = Token.blockIndices ts := by
    clear lies
    induction follow with
    | nil => rfl
    | cons first _ ih => rw [Token.blockIndices_cons, Token.blockIndices_cons, first.1, ih]
  refine ⟨fun u within => ?_, ?_, indices ▸ lies.later⟩
  · obtain ⟨t, read, follows⟩ := Token.exists_of_forall₂ follow within
    exact follows.2 _ (lies.tokens t read)
  · rw [Apart, indices]
    exact lies.apart

theorem Lies.check {isDefinition : Bool} (lies : s.Lies n ts)
    (checked : Token.check ts = .ok (us, isDefinition)) : s.Lies n us :=
  lies.follow ((Token.check_restates checked).imp fun _ _ => .of_restates)

theorem Lies.bound (lies : s.Lies n ts) (isAssigned : CellId → Bool)
    (find : Option (String → Option ValueUnit)) (place : Nat) :
    s.Lies n (Token.bind isAssigned find place ts) :=
  lies.follow (Token.forall₂_bind place (.refl s) .trans
    (fun t => .of_restates (Token.restates_tightened t))
    (fun t => .of_restates (Token.restates_ordered t))
    fun names _ t _ => .resolved isAssigned names t.ordered)

/-- Blocks are operands, so they stay in their order. -/
theorem blockIndices_ofTokens (ordered : Postfix.ofTokens ts = .ok program) :
    Token.blockIndices program = Token.blockIndices ts := by
  have placed (ts : List Token) :
      Token.blockIndices ts = Token.blockIndices (ts.filter Token.isPlaced) := by
    rw [Token.blockIndices, Token.blockIndices, List.filterMap_filter]
    refine List.filterMap_congr fun t _ => ?_
    cases t <;> rfl
  rw [placed program, placed ts,
    (Postfix.conserved_ofTokensFrom (List.forall_mem_nil _) ordered).2]

theorem Lies.ofTokens (lies : s.Lies n ts) (ordered : Postfix.ofTokens ts = .ok program) :
    s.Lies n program := by
  have indices := blockIndices_ofTokens ordered
  refine ⟨?_, ?_, indices ▸ lies.later⟩
  · exact Postfix.forall_ofTokensFrom (fun _ _ _ _ => .other rfl) lies.tokens
      (List.forall_mem_nil _) ordered
  · rw [Apart, indices]
    exact lies.apart

/-! ## Parameters -/

theorem retains_of_extends (ext : s.Extends s') : s.Retains s' :=
  ⟨ext.keepsName, fun i _ => by rw [ext.blocks]⟩

/-- A program that lies behind the first blocks is put into the scope of new parameters. The first
blocks are left alone. -/
theorem Lies.bindParameters {names : List String} {parameters : List (String × CellId)}
    (lies : s.Lies n program) (informed : s.InformedSplit n)
    (made : s.newParameters names = (parameters, s')) :
    s.ReadsInPlace n (s'.bindProgram parameters program).2 ∧
      ∀ t ∈ program.map (Token.bound parameters),
        (s'.bindProgram parameters program).2.Scoped (parameters.lookup ·) t := by
  have ext := s.extends_newParameters names
  have depth := s.blockDepth_newParameters names
  have spares := spares_newParameters n informed.toSeparatesNames names
  have hidden := isPrivate_newParameters informed.toInformed names
  rw [made] at ext depth spares hidden
  have cells : s.ReadsInPlace n s' := Step.inPlace (.cells ext) depth spares
  have lies' := lies.mono (retains_of_extends ext)
  have above : ∀ t ∈ program, t.IsAbove n := fun t within j refers =>
    (lies.later j (mem_blockIndices.2 (List.mem_filterMap.2 ⟨t, within, refers⟩))).1
  have bound : s'.ReadsInPlace n (s'.bindProgram parameters program).2 := by
    refine Step.inPlace (.bind program hidden) ?_
      (spares_bindProgram parameters (spares.isSplit informed.toIsSplit) above)
    rw [(rebound_bindProgram hidden s' program).same]
  exact ⟨cells.trans bound,
    Scoped.bindProgram lies'.apart lies'.tokens (Scope.lacks_empty parameters)⟩

/-- The names in the body of a function stand for its parameters, which have cells of their own, or
for variables of the session. -/
structure InScope (s : Session) (f : UserFunction) : Prop where
  body : ∀ t ∈ f.body, s.Scoped (f.parameters.lookup ·) t
  distinct : f.cells.Nodup


end Session

end UnitCalc

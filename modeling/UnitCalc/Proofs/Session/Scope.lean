/-
# Scopes of names

A name stands for a parameter of a function, for the variable of a block around it, or for a
variable of the session. The variable of a block hides all others of its name. It is read in the
objective and in the right side of an equation. The bounds of a block stand beside its variable, so
there its name stands for a variable of the session, also when a parameter has that name.

Programs are read without parameters first, and bound to those around them later, from the inside
out. Each time all names keep their meaning but those of the parameters.

## Main definitions

* `Scope`: what names stand for besides the variables of the session.
* `Session.Scoped`: the names of a token stand for what they mean in a scope, also inside of blocks.
* `Session.Apart`: the blocks of a program have no part in common.
* `Session.Retains`: names keep their cells, and blocks their parts.

## Main results

* `Session.Scoped.bindProgram`: binding a program to parameters puts it into their scope.
-/

import UnitCalc.Proofs.Session.Spared

namespace UnitCalc

/-- The cells that names stand for besides the variables of a session. -/
abbrev Scope := String → Option CellId

namespace Scope

/-- Names stand for variables of the session only. -/
def empty : Scope :=
  fun _ => none

/-- Where the variable of a block is read. -/
def within (b : Block) (scope : Scope) : Scope :=
  fun name => if name = b.unknownName then some b.parameter else scope name

/-- Where the bounds of a block stand: without what its variable hides. -/
def beside (b : Block) (scope : Scope) : Scope :=
  fun name => if name = b.unknownName then none else scope name

/-- Parameters around a scope. -/
def inside (parameters : List (String × CellId)) (scope : Scope) : Scope :=
  fun name => (scope name).or (parameters.lookup name)

/-- Parameters whose names stand for nothing in a scope yet. -/
def Lacks (parameters : List (String × CellId)) (scope : Scope) : Prop :=
  ∀ name, (scope name).isSome = true → parameters.lookup name = none

theorem lacks_empty (parameters : List (String × CellId)) : empty.Lacks parameters :=
  fun _ some => by cases some

end Scope

namespace Token

/-- The token has no name that is looked up, and no block. -/
def isNameless : Token → Bool
  | .variable _ _ | .block _ _ => false
  | _ => true

theorem blockIndex?_of_isNameless {t : Token} (nameless : t.isNameless = true) :
    t.blockIndex? = none := by
  cases t with
  | block => cases nameless
  | _ => rfl

theorem isNameless_bound {t : Token} (nameless : t.isNameless = true)
    (parameters : List (String × CellId)) : (t.bound parameters).isNameless = true := by
  cases t with
  | «variable» => cases nameless
  | _ => exact nameless

theorem blockIndices_append (ts us : List Token) :
    blockIndices (ts ++ us) = blockIndices ts ++ blockIndices us :=
  List.filterMap_append

theorem blockIndices_cons (t : Token) (ts : List Token) :
    blockIndices (t :: ts) = t.blockIndex?.toList ++ blockIndices ts := by
  cases index : t.blockIndex? <;> simp [blockIndices, index]

end Token

namespace Block

variable {b : Block} {t : Token}

/-- The tokens of a block that may read its variable. -/
def boundTokens (b : Block) : List Token :=
  b.objective.program ++ b.equation.elim [] Part.program

/-- The tokens of the bounds of a block. -/
def besideTokens (b : Block) : List Token :=
  b.lower.program ++ b.upper.elim [] Part.program

theorem mem_tokens : t ∈ b.tokens ↔ t ∈ b.boundTokens ∨ t = b.unknown ∨ t ∈ b.besideTokens := by
  simp only [tokens, boundTokens, besideTokens, List.mem_append, List.mem_cons]
  tauto

theorem boundTokens_bind (parameters : List (String × CellId)) (b : Block) :
    (b.bind parameters).boundTokens = b.boundTokens.map (Token.bound parameters) := by
  cases equation : b.equation <;> simp [Block.bind, boundTokens, equation]

theorem besideTokens_bind (parameters : List (String × CellId)) (b : Block) :
    (b.bind parameters).besideTokens = b.besideTokens.map (Token.bound parameters) := by
  cases upper : b.upper <;> simp [Block.bind, besideTokens, upper]

theorem blockIndices_map_bound (parameters : List (String × CellId)) (ts : List Token) :
    Token.blockIndices (ts.map (Token.bound parameters)) = Token.blockIndices ts := by
  rw [Token.blockIndices, List.filterMap_map]
  refine List.filterMap_congr fun t _ => ?_
  cases t <;> rfl

/-- Binding a block changes no block that it refers to. -/
theorem blockIndices_bind (parameters : List (String × CellId)) (b : Block) :
    Token.blockIndices (b.bind parameters).tokens = Token.blockIndices b.tokens := by
  cases upper : b.upper <;> cases equation : b.equation <;>
    simp only [tokens, Block.bind, upper, equation, Option.map_some, Option.map_none, Option.elim,
      Token.blockIndices_append, Token.blockIndices_cons, blockIndices_map_bound]

/-- Blocks that differ in what they keep have the same tokens in the same places. -/
theorem eq_of_definition {b c : Block} (same : c.definition = b.definition) :
    c.tokens = b.tokens ∧ c.boundTokens = b.boundTokens ∧ c.besideTokens = b.besideTokens ∧
      (∀ scope : Scope, scope.within c = scope.within b) ∧
      ∀ scope : Scope, scope.beside c = scope.beside b := by
  have read {α : Type} (f : Block → α) : f c.definition = f b.definition := congrArg f same
  exact ⟨read tokens, read boundTokens, read besideTokens, fun scope => read (scope.within ·),
    fun scope => read (scope.beside ·)⟩

end Block

/-- The parameters that the variable of a block leaves visible. -/
theorem lookup_visible (parameters : List (String × CellId)) (unknown name : String) :
    (parameters.filter fun p => p.1 != unknown).lookup name =
      if name = unknown then none else parameters.lookup name := by
  induction parameters with
  | nil => simp
  | cons first rest ih =>
    obtain ⟨other, id⟩ := first
    by_cases hidden : other = unknown
    · -- the parameter is hidden, and found by no other name
      rw [List.filter_cons_of_neg (by simpa using hidden), ih, List.lookup_cons]
      split
      · rfl
      · next free => rw [beq_false_of_ne (hidden ▸ free)]
    · rw [List.filter_cons_of_pos (by simpa using hidden), List.lookup_cons, List.lookup_cons, ih]
      by_cases same : name = other
      · subst same
        simp [hidden]
      · rw [beq_false_of_ne same]

namespace Session

variable {s s' : Session} {scope : Scope} {parameters : List (String × CellId)} {t : Token}
  {program : List Token} {i j n : Nat} {name : String} {own : CellId → Prop}

/-- The blocks of a program have no part in common: all parts of a later block lie behind the
earlier ones. -/
def Apart (s : Session) (program : List Token) : Prop :=
  (Token.blockIndices program).Pairwise fun i j => ∃ n, s.IsCut n j ∧ i < n ∧ n ≤ j

/-- The names of a token stand for what they mean in a scope, and so do the names inside of a
block. -/
inductive Scoped (s : Session) : Scope → Token → Prop where
  | name {scope : Scope} {id : CellId} {name : String}
    (means : (scope name).or (s.cellNames.lookup name) = some id) :
    Scoped s scope (.variable (some id) name)
  | block {scope : Scope} {i : Nat} {b : Block} {name : String} (found : s.blocks[i]? = some b)
    (apart : s.Apart b.tokens) (before : ∀ j ∈ Token.blockIndices b.tokens, j < i)
    (within : ∀ t ∈ b.boundTokens, Scoped s (scope.within b) t)
    (beside : ∀ t ∈ b.besideTokens, Scoped s (scope.beside b) t) : Scoped s scope (.block i name)
  | other {scope : Scope} {t : Token} (nameless : t.isNameless = true) : Scoped s scope t

theorem mem_references_of_blockIndices {b : Block} (found : s.blocks[i]? = some b)
    (nested : j ∈ Token.blockIndices b.tokens) : .block j ∈ s.references (.block i) := by
  rw [references, tokensOf, found]
  exact mem_blockIndices.1 nested

theorem references_of_definition
    (same : s'.blocks[i]?.map Block.definition = s.blocks[i]?.map Block.definition) :
    s'.references (.block i) = s.references (.block i) := by
  rw [references, references, tokensOf, tokensOf]
  exact congrArg _ (elim_eq same fun b c same => (Block.eq_of_definition same).1)

/-- Blocks of a region without gaps that are as before have no part in common, if they had none. -/
theorem Apart.congr {R : Nat → Prop} (apart : s.Apart program)
    (connected : ∀ i j k, R i → R j → i ≤ k → k ≤ j → R k)
    (blocks : ∀ i, R i →
      s'.blocks[i]?.map Block.definition = s.blocks[i]?.map Block.definition)
    (here : ∀ i ∈ Token.blockIndices program, R i) : s'.Apart program := by
  refine List.Pairwise.imp_of_mem (fun {i j} before behind => ?_) apart
  rintro ⟨n, cut, first, later⟩
  refine ⟨n, fun k l above upto refers => cut k l above upto ?_, first, later⟩
  have inside := connected i j k (here i before) (here j behind)
    (Nat.le_of_lt (Nat.lt_of_lt_of_le first above)) upto
  rwa [references_of_definition (blocks k inside)] at refers

theorem Apart.rebound (apart : s.Apart program) (rebound : s.Rebound own s') : s'.Apart program :=
  List.Pairwise.imp (fun ⟨n, cut, between⟩ => ⟨n, rebound.isCut cut, between⟩) apart

/-- A later session in which names keep their cells, and in which the parts of blocks stay in a
region without gaps that leads to no other blocks. -/
theorem Scoped.congr {R : Nat → Prop} (reads : s.Scoped scope t)
    (keepsName : ∀ name id, s.cellNames.lookup name = some id → s'.cellNames.lookup name = some id)
    (connected : ∀ i j k, R i → R j → i ≤ k → k ≤ j → R k)
    (closed : ∀ i j, R i → .block j ∈ s.references (.block i) → j < i → R j)
    (blocks : ∀ i, R i →
      s'.blocks[i]?.map Block.definition = s.blocks[i]?.map Block.definition)
    (here : ∀ i ∈ t.blockIndex?, R i) : s'.Scoped scope t := by
  induction reads with
  | @name scope id name means =>
    refine .name ?_
    cases bound : scope name with
    | some cell => rwa [bound] at means
    | none =>
      rw [bound, Option.none_or] at means
      exact keepsName name id means
  | @block scope i b name found apart before within beside ihWithin ihBeside =>
    have inside := here i rfl
    have same := blocks i inside
    rw [found, Option.map_some] at same
    obtain ⟨c, found', alike⟩ := Option.map_eq_some_iff.1 same
    obtain ⟨tokens, boundTokens, besideTokens, within_, beside_⟩ := Block.eq_of_definition alike
    have listed : ∀ j ∈ Token.blockIndices b.tokens, R j := fun j nested =>
      closed i j inside (mem_references_of_blockIndices found nested) (before j nested)
    have nested : ∀ t ∈ b.tokens, ∀ j ∈ t.blockIndex?, R j := fun t member j refers =>
      listed j (List.mem_filterMap.2 ⟨t, member, refers⟩)
    refine .block found' (tokens ▸ apart.congr connected blocks listed) (tokens ▸ before) ?_ ?_
    · rw [boundTokens, within_]
      exact fun t member => ihWithin t member (nested t (Block.mem_tokens.2 (.inl member)))
    · rw [besideTokens, beside_]
      exact fun t member => ihBeside t member (nested t (Block.mem_tokens.2 (.inr (.inr member))))
  | other nameless => exact .other nameless

/-! ## Later sessions -/

/-- A later session: names keep their cells, and the blocks that there were keep their parts. -/
structure Retains (s s' : Session) : Prop where
  keepsName : ∀ name id, s.cellNames.lookup name = some id → s'.cellNames.lookup name = some id
  block : ∀ i < s.blocks.size,
    s'.blocks[i]?.map Block.definition = s.blocks[i]?.map Block.definition

theorem Scoped.lt_size (reads : s.Scoped scope t) : ∀ i ∈ t.blockIndex?, i < s.blocks.size := by
  intro i same
  cases reads with
  | name => cases same
  | block found =>
    cases same
    exact (Array.getElem?_eq_some_iff.1 found).1
  | other nameless => cases (Token.blockIndex?_of_isNameless nameless).symm.trans same

namespace Retains

theorem refl (s : Session) : s.Retains s :=
  ⟨fun _ _ => id, fun _ _ => rfl⟩

variable (retains : s.Retains s')

include retains

theorem size : s.blocks.size ≤ s'.blocks.size := by
  by_contra fewer
  have same := retains.block _ (Nat.not_le.1 fewer)
  rw [Array.getElem?_eq_none (Nat.le_refl _),
    Array.getElem?_eq_getElem (Nat.not_le.1 fewer)] at same
  cases same

theorem trans {s'' : Session} (second : s'.Retains s'') : s.Retains s'' where
  keepsName name id named := second.keepsName name id (retains.keepsName name id named)
  block i within :=
    (second.block i (Nat.lt_of_lt_of_le within retains.size)).trans (retains.block i within)

theorem apart (apart : s.Apart program)
    (within : ∀ i ∈ Token.blockIndices program, i < s.blocks.size) : s'.Apart program :=
  apart.congr (R := (· < s.blocks.size))
    (fun _ _ _ _ last _ upto => Nat.lt_of_le_of_lt upto last) retains.block within

theorem scoped_token (reads : s.Scoped scope t) : s'.Scoped scope t :=
  reads.congr (R := (· < s.blocks.size)) retains.keepsName
    (fun _ _ _ _ last _ upto => Nat.lt_of_le_of_lt upto last)
    (fun _ _ within _ before => Nat.lt_trans before within) retains.block reads.lt_size

end Retains

/-! ## Binding -/

theorem bindBlock_eq {b : Block} (found : s.blocks[i]? = some b)
    (before : ∀ j ∈ Token.blockIndices b.tokens, j < i) : s.bindBlock parameters i =
      (Token.blockIndices b.tokens).foldl
        (bindBlock · (parameters.filter fun p => p.1 != b.unknownName))
        (s.modifyBlock i (Block.bind (parameters.filter fun p => p.1 != b.unknownName))) := by
  rw [bindBlock, found]
  refine List.foldl_ext _ _ _ fun s j nested => ?_
  rw [dif_pos (before j nested)]

/-- Binding a block leaves later ones as they are. -/
theorem getElem?_bindBlock_of_lt (later : j < i) :
    (s.bindBlock parameters j).blocks[i]? = s.blocks[i]? := by
  induction j using Nat.strongRecOn generalizing s parameters with
  | ind j ih =>
    rw [bindBlock]
    dsimp only
    split
    · rfl
    · next b found =>
      generalize parameters.filter _ = visible
      have own : (s.modifyBlock j (Block.bind visible)).blocks[i]? = s.blocks[i]? := by
        rw [modifyBlock, Array.getElem?_modify, if_neg (by omega)]
      rw [← own]
      generalize s.modifyBlock j _ = start
      generalize Token.blockIndices b.tokens = indices
      induction indices generalizing start with
      | nil => rfl
      | cons k indices ih' =>
        rw [List.foldl_cons, ih']
        split
        · next smaller => exact ih k smaller (Nat.lt_trans smaller later)
        · rfl

theorem rebound_bindBlock_any (s : Session) (parameters : List (String × CellId)) (i : Nat) :
    s.Rebound (fun _ => True) (s.bindBlock parameters i) :=
  rebound_bindBlock (fun _ _ => trivial) s i

/-- Binding a block leaves alone the blocks that have no part in common with it. -/
theorem Scoped.bindBlock_of_apart (reads : s.Scoped scope (.block j name))
    (apart : ∃ n, s.IsCut n i ∧ j < n ∧ n ≤ i ∨ s.IsCut n j ∧ i < n ∧ n ≤ j) :
    (s.bindBlock parameters i).Scoped scope (.block j name) := by
  have keepsName : ∀ name id, s.cellNames.lookup name = some id →
      (s.bindBlock parameters i).cellNames.lookup name = some id := fun name id named => by
    rwa [(s.rebound_bindBlock_any parameters i).cellNames_eq]
  obtain ⟨n, ⟨cut, first, later⟩ | ⟨cut, first, later⟩⟩ := apart
  · -- all parts of the other block come first
    refine reads.congr (R := (· < n)) keepsName
      (fun _ _ _ _ last _ upto => Nat.lt_of_le_of_lt upto last)
      (fun _ _ first _ before => Nat.lt_trans before first)
      (fun k first => congrArg _ (getElem?_bindBlock cut later first)) fun k same => ?_
    cases same
    exact first
  · -- all parts of the other block come later
    refine reads.congr (R := fun k => n ≤ k ∧ k ≤ j) keepsName
      (fun _ _ _ first last above upto => ⟨Nat.le_trans first.1 above, Nat.le_trans upto last.2⟩)
      (fun k l inside refers before => ⟨cut k l inside.1 inside.2 refers,
        Nat.le_trans (Nat.le_of_lt before) inside.2⟩)
      (fun k inside =>
        congrArg _ (getElem?_bindBlock_of_lt (Nat.lt_of_lt_of_le first inside.1))) fun k same => ?_
    cases same
    exact ⟨later, Nat.le_refl _⟩

/-- A name that stands for no block is bound by itself. -/
theorem Scoped.bound (reads : s.Scoped scope t) (noBlock : t.blockIndex? = none)
    (lacks : scope.Lacks parameters) : s.Scoped (scope.inside parameters) (t.bound parameters) := by
  cases reads with
  | @name _ id name means =>
    rw [Token.bound]
    cases here : scope name with
    | some cell =>
      rw [lacks name (by rw [here]; rfl), Option.none_or]
      refine .name ?_
      rw [Scope.inside, here, Option.some_or]
      rwa [here] at means
    | none =>
      rw [here, Option.none_or] at means
      cases parameter : parameters.lookup name with
      | some cell =>
        refine .name ?_
        rw [Scope.inside, here, Option.none_or, parameter, Option.some_or]
      | none =>
        refine .name ?_
        rwa [Scope.inside, here, Option.none_or, parameter, Option.none_or]
  | block => cases noBlock
  | other nameless => exact .other (Token.isNameless_bound nameless parameters)

/-- A token other than a block stands for the same in all sessions with these names. -/
theorem Scoped.of_names (reads : s.Scoped scope t) (noBlock : t.blockIndex? = none)
    (cellNames : s'.cellNames = s.cellNames) : s'.Scoped scope t := by
  cases reads with
  | name means => exact .name (cellNames ▸ means)
  | block => cases noBlock
  | other nameless => exact .other nameless

/-- A block stays as it is when others are bound that have no part in common with it. -/
theorem Scoped.foldl_of_apart {ks : List Nat} (reads : s.Scoped scope (.block j name))
    (apart : ∀ k ∈ ks, ∃ n, s.IsCut n k ∧ j < n ∧ n ≤ k ∨ s.IsCut n j ∧ k < n ∧ n ≤ j) :
    (ks.foldl (bindBlock · parameters) s).Scoped scope (.block j name) := by
  induction ks generalizing s with
  | nil => exact reads
  | cons k ks ih =>
    rw [List.forall_mem_cons] at apart
    refine ih (reads.bindBlock_of_apart apart.1) fun l member => ?_
    obtain ⟨n, between⟩ := apart.2 l member
    have isCut {n m : Nat} (cut : s.IsCut n m) : (s.bindBlock parameters k).IsCut n m :=
      (s.rebound_bindBlock_any parameters k).isCut cut
    exact ⟨n, between.imp (And.imp_left isCut) (And.imp_left isCut)⟩

/-- Blocks that have no part in common are bound one after the other. -/
theorem scoped_foldl {js : List Nat} (bound : ∀ j ∈ js, ∀ (s : Session) scope name,
      s.Scoped scope (.block j name) → scope.Lacks parameters →
      (s.bindBlock parameters j).Scoped (scope.inside parameters) (.block j name))
    (apart : js.Pairwise fun i j => ∃ n, s.IsCut n j ∧ i < n ∧ n ≤ j) (member : j ∈ js)
    (reads : s.Scoped scope (.block j name)) (lacks : scope.Lacks parameters) :
    (js.foldl (bindBlock · parameters) s).Scoped (scope.inside parameters) (.block j name) := by
  induction js generalizing s with
  | nil => cases member
  | cons k js ih =>
    rw [List.forall_mem_cons] at bound
    rw [List.pairwise_cons] at apart
    have kept : ∀ {l m}, (∃ n, s.IsCut n m ∧ l < n ∧ n ≤ m) →
        ∃ n, (s.bindBlock parameters k).IsCut n m ∧ l < n ∧ n ≤ m :=
      fun ⟨n, cut, between⟩ => ⟨n, (s.rebound_bindBlock_any parameters k).isCut cut, between⟩
    rw [List.foldl_cons]
    rcases List.mem_cons.1 member with rfl | member
    · -- later ones leave the first one as it was bound
      refine (bound.1 s scope name reads lacks).foldl_of_apart fun l member => ?_
      obtain ⟨n, between⟩ := kept (apart.1 l member)
      exact ⟨n, .inl between⟩
    · obtain ⟨n, between⟩ := apart.1 j member
      exact ih bound.2 (apart.2.imp kept) member (reads.bindBlock_of_apart ⟨n, .inr between⟩)

theorem Scope.lacks_within {b : Block} (lacks : scope.Lacks parameters) :
    (scope.within b).Lacks (parameters.filter fun p => p.1 != b.unknownName) := by
  intro name some
  rw [lookup_visible]
  split
  · rfl
  · next other =>
    rw [Scope.within, if_neg other] at some
    exact lacks name some

theorem Scope.lacks_beside {b : Block} (lacks : scope.Lacks parameters) :
    (scope.beside b).Lacks (parameters.filter fun p => p.1 != b.unknownName) := by
  intro name some
  rw [lookup_visible]
  split
  · rfl
  · next other =>
    rw [Scope.beside, if_neg other] at some
    exact lacks name some

/-- What the variable of a block hides is hidden before parameters are added or after. -/
theorem Scope.inside_within (parameters : List (String × CellId)) (scope : Scope) (b : Block) :
    (scope.within b).inside (parameters.filter fun p => p.1 != b.unknownName) =
      (scope.inside parameters).within b := by
  funext name
  simp only [Scope.inside, Scope.within, lookup_visible]
  split
  · rw [Option.some_or]
  · rfl

theorem Scope.inside_beside (parameters : List (String × CellId)) (scope : Scope) (b : Block) :
    (scope.beside b).inside (parameters.filter fun p => p.1 != b.unknownName) =
      (scope.inside parameters).beside b := by
  funext name
  simp only [Scope.inside, Scope.beside, lookup_visible]
  split
  · rw [Option.none_or]
  · rfl

theorem rebound_foldl (s : Session) (parameters : List (String × CellId)) (js : List Nat) :
    s.Rebound (fun _ => True) (js.foldl (bindBlock · parameters) s) := by
  induction js generalizing s with
  | nil => exact .refl s
  | cons j js ih => exact (s.rebound_bindBlock_any parameters j).trans (ih _)

/-- So is a token of a program whose blocks are bound. -/
theorem Scoped.bound_foldl {js : List Nat} (reads : s.Scoped scope t)
    (bound : ∀ j ∈ js, ∀ (s : Session) scope name, s.Scoped scope (.block j name) →
      scope.Lacks parameters →
      (s.bindBlock parameters j).Scoped (scope.inside parameters) (.block j name))
    (apart : js.Pairwise fun i j => ∃ n, s.IsCut n j ∧ i < n ∧ n ≤ j)
    (member : ∀ j ∈ t.blockIndex?, j ∈ js) (lacks : scope.Lacks parameters) :
    (js.foldl (bindBlock · parameters) s).Scoped (scope.inside parameters)
      (t.bound parameters) := by
  cases block : t.blockIndex? with
  | none =>
    have noBlock : (t.bound parameters).blockIndex? = none := by
      cases t <;> first | rfl | cases block
    exact (reads.bound block lacks).of_names noBlock (s.rebound_foldl parameters js).cellNames_eq
  | some j =>
    cases t with
    | block j' name =>
      cases block
      exact scoped_foldl bound apart (member _ rfl) reads lacks
    | _ => cases block

theorem getElem?_foldl_of_lt {js : List Nat} (later : ∀ j ∈ js, j < i) :
    (js.foldl (bindBlock · parameters) s).blocks[i]? = s.blocks[i]? := by
  induction js generalizing s with
  | nil => rfl
  | cons j js ih =>
    rw [List.forall_mem_cons] at later
    exact (ih later.2).trans (getElem?_bindBlock_of_lt later.1)

/-- A block is put into the scope of parameters, with all blocks inside of it. -/
theorem Scoped.bindBlock (reads : s.Scoped scope (.block i name))
    (lacks : scope.Lacks parameters) :
    (s.bindBlock parameters i).Scoped (scope.inside parameters) (.block i name) := by
  -- Blocks inside have smaller indices.
  induction i using Nat.strongRecOn generalizing s scope parameters name with
  | ind i ih =>
    cases reads with
    | other nameless => cases nameless
    | @block _ _ b _ found apart before within beside =>
      rw [bindBlock_eq found before]
      have insideWithin := Scope.inside_within parameters scope b
      have insideBeside := Scope.inside_beside parameters scope b
      have lacksWithin := Scope.lacks_within (b := b) lacks
      have lacksBeside := Scope.lacks_beside (b := b) lacks
      generalize (parameters.filter fun p => p.1 != b.unknownName) = visible at *
      have modified : s.Rebound (fun _ => True) (s.modifyBlock i (Block.bind visible)) :=
        rebound_modifyBlock (fun _ _ => trivial) s i
      have own : (s.modifyBlock i (Block.bind visible)).blocks[i]? = some (b.bind visible) := by
        rw [modifyBlock, Array.getElem?_modify, if_pos rfl, found, Option.map_some]
      have nested : ∀ t ∈ b.tokens, ∀ j ∈ t.blockIndex?, j ∈ Token.blockIndices b.tokens :=
        fun t member j refers => List.mem_filterMap.2 ⟨t, member, refers⟩
      -- The blocks inside are still as they were when the block itself was bound.
      have kept : ∀ t ∈ b.tokens, ∀ {scope : Scope}, s.Scoped scope t →
          (s.modifyBlock i (Block.bind visible)).Scoped scope t := by
        intro t member scope reads
        refine reads.congr (R := (· < i)) (fun _ _ => id)
          (fun _ _ _ _ last _ upto => Nat.lt_of_le_of_lt upto last)
          (fun _ _ first _ smaller => Nat.lt_trans smaller first) (fun k first => ?_)
          fun j refers => before j (nested t member j refers)
        rw [modifyBlock, Array.getElem?_modify, if_neg (Nat.ne_of_gt first)]
      have apart' := apart.rebound modified
      generalize s.modifyBlock i (Block.bind visible) = start at modified own kept apart'
      have rebound := start.rebound_foldl visible (Token.blockIndices b.tokens)
      have bound : ∀ j ∈ Token.blockIndices b.tokens, ∀ (s : Session) scope name,
          s.Scoped scope (.block j name) → scope.Lacks visible →
          (s.bindBlock visible j).Scoped (scope.inside visible) (.block j name) :=
        fun j member s scope name => ih j (before j member)
      refine .block (b := b.bind visible) ?_ ?_ ?_ ?_ ?_
      · rw [getElem?_foldl_of_lt before, own]
      · rw [Apart, Block.blockIndices_bind]
        exact apart'.rebound rebound
      · rw [Block.blockIndices_bind]
        exact before
      · rw [Block.boundTokens_bind]
        refine List.forall_mem_map.2 fun t member => ?_
        have inside := Block.mem_tokens.2 (.inl member)
        have placed := (kept t inside (within t member)).bound_foldl bound apart'
          (nested t inside) lacksWithin
        rwa [insideWithin] at placed
      · rw [Block.besideTokens_bind]
        refine List.forall_mem_map.2 fun t member => ?_
        have inside := Block.mem_tokens.2 (.inr (.inr member))
        have placed := (kept t inside (beside t member)).bound_foldl bound apart'
          (nested t inside) lacksBeside
        rwa [insideBeside] at placed

/-- A program is put into the scope of parameters. -/
theorem Scoped.bindProgram (apart : s.Apart program) (reads : ∀ t ∈ program, s.Scoped scope t)
    (lacks : scope.Lacks parameters) : ∀ t ∈ (s.bindProgram parameters program).1,
      (s.bindProgram parameters program).2.Scoped (scope.inside parameters) t := by
  refine List.forall_mem_map.2 fun t member => ?_
  exact (reads t member).bound_foldl (fun j _ s scope name reads lacks => reads.bindBlock lacks)
    apart (fun j refers => List.mem_filterMap.2 ⟨t, member, refers⟩) lacks

end Session

end UnitCalc

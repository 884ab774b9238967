/-
# Reading statements in steps

Blocks are read part by part, and a block counts as being read meanwhile. What the session had is
left alone; new programs and blocks refer to new blocks only. A statement ends as a program whose
tokens belong to the session. Or it ends in a definition, which comes last and never inside of a
block: its function is put in its place when all steps are taken. A function that is not defined is
called by the name of the header only, so the check finds it in no program and no body.

## Main definitions

* `SessionM.HasAll`, `SessionM.HasBlock`: what programs and blocks refer to exists.
* `SessionM.Parsed`: what reading a statement ends with.

## Main results

* `SessionM.createBlock_adds`: blocks are read in steps.
* `SessionM.parsed_parseStatement`: statements are read in steps.
-/

import UnitCalc.Proofs.Statement.Steps

namespace UnitCalc

open List (Forall₂)
open Relation (ReflTransGen)
open Session

/-! ## Blocks -/

namespace SessionM

variable {α : Type} {limit n : Nat} {s : Session}

theorem outcome_insideBlock (action : SessionM α) (s : Session) :
    outcome (insideBlock action) s =
      ((outcome action { s with blockDepth := s.blockDepth + 1 }).1,
        { (outcome action { s with blockDepth := s.blockDepth + 1 }).2 with
          blockDepth :=
            (outcome action { s with blockDepth := s.blockDepth + 1 }).2.blockDepth - 1 }) :=
  rfl

/-- What is read as part of a block counts it meanwhile. -/
theorem insideBlock_adds {P : Session → α → Prop} {action : SessionM α}
    (informed : s.InformedSplit n)
    (stays : ∀ s a (m : Nat), P s a → P { s with blockDepth := m } a)
    (adds : ∀ s, s.InformedSplit n → s.inBlock = true → Adds (ReadsInPlace n) s P action) :
    Adds (ReadsInPlace n) s P (insideBlock action) := by
  have count : ∀ (s : Session) (m : Nat), s.Step { s with blockDepth := m } :=
    fun s m => .of_eq rfl rfl rfl rfl rfl
  have counted : ∀ (s : Session) (m : Nat), s.Spares n { s with blockDepth := m } :=
    fun s m => spares_of_eq n rfl rfl rfl rfl rfl rfl
  have entered : Session.InformedSplit n { s with blockDepth := s.blockDepth + 1 } :=
    { (count s _).read.informed informed.toInformed,
      (counted s _).isSplit informed.toIsSplit with }
  obtain ⟨⟨reads, depth, spares⟩, holds⟩ :=
    adds { s with blockDepth := s.blockDepth + 1 } entered (by simp [inBlock])
  unfold Adds
  rw [outcome_insideBlock]
  refine ⟨⟨?_, ?_, ?_⟩, fun a ended => stays _ a _ (holds a ended)⟩
  · exact (ReflTransGen.head (count s _) reads).tail (count _ _)
  · simp only [depth, Nat.add_sub_cancel]
  · exact (counted s _).trans (spares.trans (counted _ _))

/-- The tokens of a program are those of the session, and refer to none of its first blocks. -/
def HasAll (n : Nat) (s : Session) (program : List Token) : Prop :=
  ∀ t ∈ program, s.Owns n t

theorem HasAll.mono {s' : Session} {program : List Token} (has : HasAll n s program)
    (later : s.Later s') : HasAll n s' program :=
  fun t within => later.owns (has t within)

theorem bindProgram_adds {parameters : List (String × CellId)} {program : List Token}
    (split : s.IsSplit n) (hidden : ∀ id ∈ parameters.map Prod.snd, s.IsPrivate id)
    (has : HasAll n s program) :
    Adds (ReadsInPlace n) s (HasAll n) (bindProgram parameters program) := by
  have step : s.Step (s.bindProgram parameters program).2 := .bind program hidden
  have depth : (s.bindProgram parameters program).2.blockDepth = s.blockDepth := by
    rw [(rebound_bindProgram hidden s program).same]
  have spares := spares_bindProgram parameters split fun t within =>
    (has t within).isAbove
  refine ⟨step.inPlace depth spares, fun bound same => ?_⟩
  cases same
  intro t within
  obtain ⟨u, old, rfl⟩ := List.mem_map.1 within
  exact step.later.owns (owns_bound hidden (has u old))

/-- A block whose tokens are those of the session, with a variable of its own. -/
structure HasBlock (n : Nat) (method : Method) (s : Session) (b : Block) : Prop where
  method : b.method = method
  tokens : HasAll n s b.tokens
  parameter : s.IsPrivate b.parameter
  code : b.code = none

theorem HasBlock.mono {s' : Session} {b : Block} {method : Method} (has : HasBlock n method s b)
    (later : s.Later s') : HasBlock n method s' b :=
  ⟨has.method, has.tokens.mono later, later.isPrivate _ has.parameter, has.code⟩

section Blocks

variable {parse : Shorter limit → Bool → SessionM (List Token)}
  (parts : ∀ text allowed (s : Session), s.InformedSplit n → s.inBlock = true →
    Adds (ReadsInPlace n) s (HasAll n) (parse text allowed))

include parts

/-- A part of a block. -/
theorem part_adds (informed : s.InformedSplit n) (inside : s.inBlock = true) (text : Shorter limit)
    (allowed : Bool) :
    Adds (ReadsInPlace n) s (fun s part => HasAll n s part.program)
      (do return (⟨String.ofList text.1, ← parse text allowed⟩ : Part)) :=
  ReadsInPlace.growth.bind (parts text allowed s informed inside) fun _ _ _ has =>
    ReadsInPlace.growth.pure has

/-- A part that may be missing. -/
theorem optional_adds (informed : s.InformedSplit n) (inside : s.inBlock = true)
    (text : Option (Shorter limit)) :
    Adds (ReadsInPlace n) s (fun s (part : Option Part) => HasAll n s (part.elim [] Part.program))
      (text.mapM fun text => do return (⟨String.ofList text.1, ← parse text false⟩ : Part)) := by
  cases text with
  | none => exact ReadsInPlace.growth.pure (List.forall_mem_nil _)
  | some text =>
    rw [Option.mapM_some, map_eq_pure_bind]
    exact ReadsInPlace.growth.bind (part_adds parts informed inside text false) fun _ _ _ has =>
      ReadsInPlace.growth.pure has

omit parts in
theorem inBlock_of_reads {s s' : Session} (reads : s.ReadsInPlace n s')
    (inside : s.inBlock = true) : s'.inBlock = true := by
  rw [inBlock, reads.blockDepth]
  exact inside

omit parts in
theorem newParameter_adds (informed : s.InformedSplit n) :
    Adds (ReadsInPlace n) s (fun s id => s.IsPrivate id) (modifyGet Session.newParameter) := by
  unfold Adds
  rw [outcome_modifyGet]
  refine ⟨Step.inPlace (.cells (s.extends_newCell (.ofNumber _))) rfl
    (spares_newParameter n informed.toSeparatesNames),
    fun id same => ?_⟩
  cases same
  exact informed.isPrivate_newParameter

theorem readBlock_adds (informed : s.InformedSplit n) (inside : s.inBlock = true) (method : Method)
    (script : Script limit) :
    Adds (ReadsInPlace n) s (HasBlock n method) (readBlock parse method script) := by
  unfold readBlock
  dsimp only
  refine ReadsInPlace.growth.bind (part_adds parts informed inside _ _)
    fun s₁ objective reads₁ has₁ => ?_
  have informed₁ := reads₁.informed informed
  have inside₁ := inBlock_of_reads reads₁ inside
  refine ReadsInPlace.growth.bind (part_adds parts informed₁ inside₁ _ _)
    fun s₂ unknown reads₂ has₂ => ?_
  have informed₂ := reads₂.informed informed₁
  have inside₂ := inBlock_of_reads reads₂ inside₁
  refine ReadsInPlace.growth.bind (part_adds parts informed₂ inside₂ _ _)
    fun s₃ lower reads₃ has₃ => ?_
  have informed₃ := reads₃.informed informed₂
  have inside₃ := inBlock_of_reads reads₃ inside₂
  refine ReadsInPlace.growth.bind (optional_adds parts informed₃ inside₃ _)
    fun s₄ upper reads₄ has₄ => ?_
  have informed₄ := reads₄.informed informed₃
  have inside₄ := inBlock_of_reads reads₄ inside₃
  refine ReadsInPlace.growth.bind (optional_adds parts informed₄ inside₄ _)
    fun s₅ equation reads₅ has₅ => ?_
  split
  · next cell name same =>
    refine ReadsInPlace.growth.bind (newParameter_adds (reads₅.informed informed₄))
      fun s₆ parameter reads₆ hidden => ?_
    refine ReadsInPlace.growth.pure ⟨rfl, ?_, hidden, rfl⟩
    -- what was read before is still there
    have after₄ := reads₅.later.trans reads₆.later
    have after₃ := reads₄.later.trans after₄
    have after₂ := reads₃.later.trans after₃
    have after₁ := reads₂.later.trans after₂
    rw [same] at has₂
    simp only [HasAll, Block.tokens, List.forall_mem_append, List.forall_mem_cons]
    exact ⟨⟨⟨has₁.mono after₁, (has₂.mono after₂) _ List.mem_cons_self, has₃.mono after₃⟩,
      has₄.mono after₄⟩, has₅.mono reads₆.later⟩
  · exact ReadsInPlace.growth.throw _

omit parts in
theorem boundPart_adds {b : Block} {part : Part} (split : s.IsSplit n)
    (hidden : s.IsPrivate b.parameter) (has : HasAll n s part.program) :
    Adds (ReadsInPlace n) s (fun s part => HasAll n s part.program)
      (do return { part with
        program := ← bindProgram [(b.unknownName, b.parameter)] part.program }) := by
  have own : ∀ id ∈ [(b.unknownName, b.parameter)].map Prod.snd, s.IsPrivate id := by
    simpa using hidden
  exact ReadsInPlace.growth.bind (bindProgram_adds split own has) fun _ _ _ has =>
    ReadsInPlace.growth.pure has

omit parts in
theorem bindUnknown_adds {b : Block} {method : Method} (split : s.IsSplit n)
    (has : HasBlock n method s b) :
    Adds (ReadsInPlace n) s (HasBlock n method) (bindUnknown b) := by
  have inside := has.tokens
  simp only [HasAll, Block.tokens, List.forall_mem_append, List.forall_mem_cons] at inside
  obtain ⟨⟨⟨objective, unknown, lower⟩, upper⟩, equation⟩ := inside
  unfold bindUnknown
  dsimp only
  -- The unknown is bound in the objective first, then in the other side of the equation if any.
  refine ReadsInPlace.growth.bind (boundPart_adds split has.parameter objective)
    fun s₁ part reads₁ has₁ => ?_
  have later₁ := reads₁.later
  have split₁ := reads₁.spares.isSplit split
  have hidden₁ := later₁.isPrivate _ has.parameter
  have bound : Adds (ReadsInPlace n) s₁
      (fun s (part : Option Part) => HasAll n s (part.elim [] Part.program))
      (b.equation.mapM fun part => do return { part with
        program := ← bindProgram [(b.unknownName, b.parameter)] part.program }) := by
    cases side : b.equation with
    | none => exact ReadsInPlace.growth.pure (List.forall_mem_nil _)
    | some part =>
      rw [side] at equation
      rw [Option.mapM_some, map_eq_pure_bind]
      exact ReadsInPlace.growth.bind (boundPart_adds split₁ hidden₁ (HasAll.mono equation later₁))
        fun _ _ _ has => ReadsInPlace.growth.pure has
  refine ReadsInPlace.growth.bind bound fun s₂ part' reads₂ has₂ => ?_
  have later₂ := reads₂.later
  have later := later₁.trans later₂
  refine ReadsInPlace.growth.pure ⟨has.method, ?_, later.isPrivate _ has.parameter, has.code⟩
  simp only [HasAll, Block.tokens, List.forall_mem_append, List.forall_mem_cons]
  exact ⟨⟨⟨has₁.mono later₂, later.owns unknown, HasAll.mono lower later⟩, HasAll.mono upper later⟩,
    has₂⟩

omit parts in
/-- A block is added with the place of its extreme value. -/
theorem outcome_place {b : Block} {method : Method} (same : b.method = method) (s : Session) :
    outcome (do
      let extremum ← extremumCell method b.unknownName
      modifyGet fun s => s.addBlock { b with extremum }) s =
      (.ok (s.place b).1, (s.place b).2) := by
  subst same
  unfold extremumCell place Block.place?
  cases b.method.placeSuffix? with
  | none => rfl
  | some suffix => rfl

omit parts in
theorem HasBlock.step {b : Block} {method : Method} (has : HasBlock n method s b)
    (extremum : Option CellId) : s.Step (s.addBlock { b with extremum }).2 :=
  .block (fun t within => (has.tokens t within).toHas)
    (fun t within => (has.tokens t within).toResolves) has.parameter has.code

omit parts in
/-- Adding a block, with the place of its extreme value, is done in steps of reading. -/
theorem HasBlock.reads_place {b : Block} {method : Method} (has : HasBlock n method s b) :
    s.Reads (s.place b).2 ∧ (s.place b).2.blockDepth = s.blockDepth := by
  obtain ⟨-, same⟩ | ⟨name, -, same⟩ := s.place_cases b
  · rw [same]
    exact ⟨.single (has.step none), blockDepth_addBlock s _⟩
  · rw [same]
    have named := Step.cells (s.extends_cellOf name).1
    have assigned := Step.evolves ((s.cellOf name).2.evolves_assign (s.cellOf name).1 .undefined)
    have has' := (has.mono named.later).mono assigned.later
    refine ⟨((ReflTransGen.single named).tail assigned).tail (has'.step _), ?_⟩
    exact (blockDepth_addBlock _ _).trans
      ((blockDepth_assign _ _ .undefined).trans (s.blockDepth_cellOf name))

omit parts in
/-- The block that is added is the last one. -/
theorem lt_size_place (s : Session) (b : Block) :
    s.blocks.size ≤ (s.place b).1 ∧ (s.place b).1 < (s.place b).2.blocks.size := by
  obtain ⟨-, same⟩ | ⟨name, -, same⟩ := s.place_cases b
  · rw [same]
    exact ⟨Nat.le_refl _, mem_dependents_iff.1 (s.mem_dependents_addBlock _)⟩
  · rw [same]
    refine ⟨Nat.le_of_eq ?_, mem_dependents_iff.1 (mem_dependents_addBlock _ _)⟩
    have blocks := congrArg Array.size (s.extends_cellOf name).1.blocks
    exact blocks.symm.trans
      ((s.cellOf name).2.sameWiring_assign (s.cellOf name).1 .undefined).blocks_size.symm

omit parts in
theorem place_adds {b : Block} {method : Method} (informed : s.InformedSplit n)
    (has : HasBlock n method s b) :
    Adds (ReadsInPlace n) s (fun s i => ∀ name, s.Scans n (.block i name)) (do
      let extremum ← extremumCell method b.unknownName
      modifyGet fun s => s.addBlock { b with extremum }) := by
  have spares := spares_place informed.toSeparatesNames informed.toIsSplit fun t within =>
    (has.tokens t within).isAbove
  obtain ⟨reads, depth⟩ := has.reads_place
  obtain ⟨last, known⟩ := lt_size_place s b
  unfold Adds
  rw [outcome_place has.method]
  refine ⟨⟨reads, depth, spares⟩, fun i same name => ?_⟩
  cases same
  refine ⟨⟨nofun, fun d refers => ?_⟩, fun i refers => ?_, fun e enters => ?_, ⟨nofun, trivial⟩,
    nofun⟩
  · cases refers
    exact mem_dependents_iff.2 known
  · cases refers
    exact Nat.le_trans informed.size last
  · cases enters
    exact known

/-- A block that was read is one of the session. -/
theorem createBlock_adds (informed : s.InformedSplit n) (method : Method) (text : Shorter limit) :
    Adds (ReadsInPlace n) s (fun s i => ∀ name, s.Scans n (.block i name))
      (createBlock parse method text) := by
  unfold createBlock
  have count : ∀ (s : Session) (m : Nat), s.Later { s with blockDepth := m } := fun s m =>
    Step.later (.of_eq rfl rfl rfl rfl rfl)
  refine insideBlock_adds informed
    (fun s i m holds name => (count s m).scans (fun _ _ => id) (holds name)) fun s informed inside => ?_
  refine ReadsInPlace.growth.bind (P := fun _ _ => True)
    (ReadsInPlace.growth.result fun _ _ => trivial) fun s₁ script reads₁ _ => ?_
  have informed₁ := reads₁.informed informed
  have inside₁ := inBlock_of_reads reads₁ inside
  refine ReadsInPlace.growth.bind (readBlock_adds parts informed₁ inside₁ method script)
    fun s₂ b reads₂ has₂ => ?_
  have informed₂ := reads₂.informed informed₁
  refine ReadsInPlace.growth.bind (bindUnknown_adds informed₂.toIsSplit has₂)
    fun s₃ b' reads₃ has₃ => ?_
  exact place_adds (reads₃.informed informed₂) has₃

end Blocks

/-! ## Definitions -/

section Accepted

variable {ts us : List Token} {isDefinition : Bool} (heads : Token.HeadsForward ts.reverse)
  (scans : ∀ t ∈ ts, s.Scans n t) (checked : Token.check ts = .ok (us, isDefinition))

include heads scans checked

/-- A statement that is no definition calls no function that is not defined: it would have to begin
with such a call. -/
theorem hasAll_of_check (expression : isDefinition = false) : HasAll n s ts := by
  refine fun t within => (scans t within).owns ?_
  cases t with
  | call index name count =>
    cases index with
    | some i => rfl
    | none =>
      have begins := heads name count (List.mem_reverse.2 within)
      rw [List.reverse_reverse] at begins
      have missing := (scans _ within).named none name count rfl
      obtain _ | ⟨first, rest⟩ := ts
      · cases within
      cases first with
      | call index name' count' =>
        cases begins
        -- the first call is of the same name, so it has no function either
        have same := (scans _ List.mem_cons_self).named index name count' rfl
        cases missing.symm.trans same
        exact absurd rfl (Token.head?_of_check (expression ▸ checked))
      | _ => cases begins
  | _ => rfl

/-- The body of a definition calls no function that is not defined: that could only be the one that
is defined. -/
theorem hasAll_body {tokens : List Token} {header : Header}
    (restated : Forall₂ Token.Restates tokens ts) (made : Header.ofTokens tokens = .ok header) :
    HasAll n s header.body := by
  intro t within
  obtain ⟨-, before, first, -, -, same⟩ := Header.ofTokens_ok made
  have inside := List.mem_append_right before (List.mem_cons_of_mem first within)
  rw [← same] at inside
  obtain ⟨u, read, restates⟩ := Token.exists_of_forall₂ restated inside
  refine ((scans u read).restates restates).owns ?_
  cases t with
  | call index name count =>
    cases index with
    | some i => rfl
    | none =>
      have begins := heads name count (List.mem_reverse.2 (Token.Restates.eq_call restates ▸ read))
      rw [List.reverse_reverse] at begins
      exact absurd within (Header.not_call_body checked restated made begins none count)
  | _ => rfl

end Accepted

/-- Checking and binding tokens adds nothing to what they refer to. -/
theorem HasAll.bound {ts us : List Token} {isDefinition : Bool} (has : HasAll n s ts)
    (checked : Token.check ts = .ok (us, isDefinition)) (isAssigned : CellId → Bool)
    (find : Option (String → Option ValueUnit)) (place : Nat) :
    HasAll n s (Token.bind isAssigned find place us) := by
  have counted : HasAll n s us := by
    intro u within
    obtain ⟨t, read, restates⟩ := Token.exists_of_forall₂ (Token.check_restates checked) within
    exact (has t read).restates restates
  exact Token.forall_bind (fun restates owns => owns.restates restates)
    (fun _ _ => ⟨⟨nofun, nofun⟩, ⟨nofun, rfl⟩, nofun⟩) counted isAssigned find place

/-- The cells of parameters have no names. -/
theorem isPrivate_newParameters (informed : s.Informed) (names : List String) :
    ∀ id ∈ (s.newParameters names).1.map Prod.snd, (s.newParameters names).2.IsPrivate id := by
  intro id within
  obtain ⟨new, exists_⟩ := (s.cells_newParameters names).2 id within
  refine ⟨exists_, fun name named => ?_⟩
  rw [s.cellNames_newParameters names] at named
  exact absurd (informed.named name id named) (Nat.not_lt.2 new)

/-- A function whose body is bound to the cells of its parameters. -/
theorem suits_bound {program : List Token} {parameters : List (String × CellId)} {name : String}
    {unit : Option ValueUnit} (has : HasAll n s program)
    (still : ∀ t ∈ program, t.isAssignment = false)
    (hidden : ∀ id ∈ parameters.map Prod.snd, s.IsPrivate id) (takes : parameters ≠ []) :
    s.Suits { name, parameters, body := program.map (Token.bound parameters), unit } where
  takes := takes
  has t within := by
    obtain ⟨u, old, rfl⟩ := List.mem_map.1 within
    exact (owns_bound hidden (has u old)).toHas
  bound t within taken id same := by
    obtain ⟨u, old, rfl⟩ := List.mem_map.1 within
    cases u with
    | «variable» cell name =>
      cases found : parameters.lookup name with
      | none =>
        -- the name is no parameter, so the token is free
        refine absurd (List.mem_filter.2 ⟨within, ?_⟩) taken
        rw [Token.bound, found]
        simp [found]
      | some id' =>
        rw [Token.bound, found] at same
        cases same
        obtain ⟨before, behind, rfl, -⟩ := List.lookup_eq_some_iff.1 found
        exact hidden id (by simp)
    | _ => cases same
  open_ := rfl
  dependents := rfl
  code := rfl
  results := rfl
  resolves t within := by
    obtain ⟨u, old, rfl⟩ := List.mem_map.1 within
    exact (owns_bound hidden (has u old)).toResolves
  still t within := by
    obtain ⟨u, old, rfl⟩ := List.mem_map.1 within
    have same : (u.bound parameters).isAssignment = u.isAssignment := by cases u <;> rfl
    exact same.trans (still u old)
  hidden := hidden

/-- What is put in its place is accepted or refused. -/
theorem outcome_settle (s : Session) (f : UserFunction) :
    outcome (do
      let (index, changed) ← modifyGet fun s =>
        let (index, changed, s) := s.install f
        ((index, changed), s)
      if (← get).isCircular index then
        modify fun s =>
          (s.modifyFunction index fun f => { f with isCircular := true }).forgetFrom changed
        throw (.circularReference f.name)
      modify fun s => (s.dependOnAll (.function index) f.freeTokens).forgetFrom changed
      return index : SessionM Nat) s = s.settle f := by
  rw [outcome_bind_ok (outcome_modifyGet _ s), outcome_bind_ok (outcome_get _), settle]
  obtain ⟨index, changed, s'⟩ := s.install f
  dsimp only
  by_cases circular : s'.isCircular index = true
  · rw [if_pos circular, if_pos circular]
    rfl
  · rw [if_neg circular, if_neg circular]
    rfl

/-- A definition with a header and a body installs its function, when new cells are made for the
parameters and the body is bound to them. -/
theorem outcome_define (tokens : List Token) (unit : Option ValueUnit) (s : Session) :
    (∃ e, outcome (define tokens unit) s = (.error e, s)) ∨
      ∃ header program parameters s₁, Header.ofTokens tokens = .ok header ∧
        Postfix.ofTokens header.body = .ok program ∧
        s.newParameters header.parameters = (parameters, s₁) ∧
        outcome (define tokens unit) s = (s₁.bindProgram parameters program).2.settle
          { name := header.name, parameters, body := program.map (Token.bound parameters),
            unit } := by
  unfold define
  cases read : Header.ofTokens tokens with
  | error e => exact .inl ⟨e, outcome_bind_error (outcome_ofExcept _ s)⟩
  | ok header =>
    rw [outcome_bind_ok (outcome_ofExcept _ s)]
    cases ordered : Postfix.ofTokens header.body with
    | error e => exact .inl ⟨e, outcome_bind_error (outcome_ofExcept _ s)⟩
    | ok program =>
      rw [outcome_bind_ok (outcome_ofExcept _ s)]
      cases empty : program.isEmpty with
      | true => exact .inl ⟨_, rfl⟩
      | false =>
        refine .inr ⟨header, program, _, _, rfl, ordered, rfl, ?_⟩
        simp only [Bool.false_eq_true, if_false]
        rw [outcome_bind_ok (outcome_modifyGet _ s), bindProgram,
          outcome_bind_ok (outcome_modifyGet _ _)]
        exact outcome_settle _ _

/-- What a definition installs. The cells of its parameters are new. -/
theorem define_cases {tokens : List Token} (informed : s.Informed)
    (has : ∀ header, Header.ofTokens tokens = .ok header → HasAll n s header.body)
    (still : ∀ header, Header.ofTokens tokens = .ok header →
      ∀ t ∈ header.body, t.isAssignment = false) (unit : Option ValueUnit) :
    (∃ e, outcome (define tokens unit) s = (.error e, s)) ∨
      ∃ s₁ f, s.Reads s₁ ∧ s₁.Suits f ∧ (∀ id ∈ f.cells, s.cells.size ≤ id) ∧
        outcome (define tokens unit) s = s₁.settle f := by
  refine (outcome_define tokens unit s).imp_right ?_
  rintro ⟨header, program, parameters, s₁, read, ordered, made, ended⟩
  -- New cells for the parameters and binding the body are two steps of reading.
  have inside : HasAll n s program := Postfix.forall_ofTokensFrom
    (fun _ _ _ owns => owns.congr rfl rfl rfl) (has header read) (List.forall_mem_nil _) ordered
  have still' : ∀ t ∈ program, t.isAssignment = false := Postfix.forall_ofTokensFrom
    (fun _ _ _ other => other) (still header read) (List.forall_mem_nil _) ordered
  have cells := Step.cells (s.extends_newParameters header.parameters)
  have hidden := isPrivate_newParameters informed header.parameters
  have new := (s.cells_newParameters header.parameters).2
  rw [made] at cells hidden new
  have bind := Step.bind program hidden
  have takes : parameters ≠ [] := by
    rw [show parameters = (s.newParameters header.parameters).1 from (congrArg Prod.fst made).symm]
    cases named : header.parameters with
    | nil => exact absurd named (Header.parameters_ne_nil read)
    | cons => exact List.cons_ne_nil _ _
  exact ⟨_, _, (ReflTransGen.single cells).tail bind, suits_bound
    (inside.mono (cells.later.trans bind.later)) still'
    (fun id own => bind.later.isPrivate id (hidden id own)) takes,
    fun id own => (new id own).1, ended⟩

/-! ## Statements -/

/-- The variables of a program are those of the session, and new units have words for names. -/
def NamesAll (s : Session) (program : List Token) : Prop :=
  ∀ t ∈ program, s.Names t

theorem NamesAll.bound {ts us : List Token} {isDefinition : Bool} (named : NamesAll s ts)
    (checked : Token.check ts = .ok (us, isDefinition)) (isAssigned : CellId → Bool)
    (find : Option (String → Option ValueUnit)) (place : Nat) :
    NamesAll s (Token.bind isAssigned find place us) := by
  have counted : NamesAll s us := by
    intro u within
    obtain ⟨t, read, restates⟩ := Token.exists_of_forall₂ (Token.check_restates checked) within
    exact (named t read).restates restates
  exact Token.forall_bind (fun restates names => names.restates restates)
    (fun _ _ => ⟨nofun, trivial⟩)
    counted isAssigned find place

/-- What reading a statement ends with: a program of the session, or a definition, whose parameters
are new cells and which is refused only if the function leads to itself. There are no definitions
inside of blocks. -/
inductive Parsed (n : Nat) (s : Session) : Except CalcError Statement × Session → Prop where
  | read {r : Except CalcError Statement} {s' : Session} (reads : s.ReadsInPlace n s')
    (has : ∀ statement, r = .ok statement →
      HasAll n s' statement.program ∧ NamesAll s' statement.program) : Parsed n s (r, s')
  | define {r : Except CalcError Statement} {s' : Session} {f : UserFunction}
    (outside : s.inBlock = false) (reads : s.Reads s') (suits : s'.Suits f)
    (fresh : ∀ id ∈ f.cells, s.cells.size ≤ id)
    (refused : ∀ e, r = .error e → ∃ name, e = .circularReference name)
    (defines : ∀ statement, r = .ok statement →
      statement.isDefinition = true ∧ statement.program = []) : Parsed n s (r, (s'.settle f).2)

theorem Parsed.after {s' : Session} {e : Except CalcError Statement × Session}
    (reads : s.ReadsInPlace n s') (parsed : Parsed n s' e) : Parsed n s e := by
  cases parsed with
  | read reads' has => exact .read (reads.trans reads') has
  | define outside reads' suits fresh refused defines =>
    refine .define ?_ (ReflTransGen.trans reads.reads reads') suits
      (fun id own => Nat.le_trans reads.later.size (fresh id own)) refused defines
    rw [inBlock, ← reads.blockDepth]
    exact outside

/-- What is put in its place is refused only if it leads to itself. -/
theorem settle_error {f : UserFunction} {e : CalcError} (ended : (s.settle f).1 = .error e) :
    e = .circularReference f.name := by
  unfold settle at ended
  dsimp only at ended
  split at ended
  · cases ended
    rfl
  · cases ended

/-- A definition that passes the check is settled, unless it has no header or no body. -/
theorem parsed_define {tokens : List Token} (informed : s.InformedSplit n)
    (outside : s.inBlock = false)
    (has : ∀ header, Header.ofTokens tokens = .ok header → HasAll n s header.body)
    (still : ∀ header, Header.ofTokens tokens = .ok header →
      ∀ t ∈ header.body, t.isAssignment = false) (unit : Option ValueUnit) (source : String) :
    Parsed n s (outcome (do
      return ({ program := [], unit, function := some (← define tokens unit), source } :
        Statement)) s) := by
  rw [outcome_bind]
  rcases define_cases informed.toInformed has still unit with
    ⟨e, ended⟩ | ⟨s', f, reads, suits, fresh, ended⟩
  · rw [ended]
    exact .read (.refl n s) nofun
  · have defined := fun r => Parsed.define (n := n) (r := r) outside reads suits fresh
    have refused := fun e => settle_error (s := s') (f := f) (e := e)
    rw [ended]
    generalize s'.settle f = e at defined refused ⊢
    obtain ⟨r, s''⟩ := e
    cases r with
    | error e =>
      refine defined (.error e) (fun e' same => ?_) nofun
      cases same
      exact ⟨_, refused e rfl⟩
    | ok index =>
      refine defined (.ok _) nofun fun statement made => ?_
      cases made
      exact ⟨rfl, rfl⟩

/-- Tokens that were scanned are made a statement. -/
theorem parsed_ofScan {scan : Scan} (informed : s.InformedSplit n)
    (scanned : scan.Consists (s.Scans n)) (heads : Token.HeadsForward scan.reversed)
    (source : List Char) (unit : Option ValueUnit) :
    Parsed n s (outcome (ofScan source unit scan) s) := by
  have failed : ∀ e : CalcError, Parsed n s (.error e, s) := fun e => .read (.refl n s) nofun
  have scans : ∀ t ∈ scan.tokens, s.Scans n t := fun t within =>
    scanned t (List.mem_reverse.1 within)
  have headed : Token.HeadsForward scan.tokens.reverse := by
    rwa [Scan.tokens, List.reverse_reverse]
  unfold ofScan
  by_cases empty : scan.tokens.isEmpty = true
  · rw [if_pos empty]
    exact failed _
  rw [if_neg empty]
  cases checked : Token.check scan.tokens with
  | error e => exact failed e
  | ok r =>
    obtain ⟨us, isDefinition⟩ := r
    beta_reduce
    rw [outcome_bind_ok (outcome_ofExcept _ s)]
    simp only
    rw [outcome_bind_ok (outcome_get s)]
    split
    · exact failed _
    next outside =>
    have named : outcome (unitNames isDefinition) s =
      (.ok (if isDefinition || s.inBlock || s.isPlotting then none else some s.unit?), s) := rfl
    rw [outcome_bind_ok named, outcome_bind_ok (outcome_get s)]
    cases isDefinition with
    | true =>
      -- Names in definitions stand for no units, so the tokens are only restated.
      have restated : Forall₂ Token.Restates
          (Token.bind s.isAssigned none scan.assignment us) scan.tokens :=
        Token.forall₂_trans Token.Restates.trans (Token.bind_restates scan.assignment nofun)
          (Token.check_restates checked)
      rw [if_pos rfl]
      refine parsed_define informed (by simpa using outside) (fun header made => ?_)
        (fun header made => Header.not_assignment_body checked restated made) unit _
      exact hasAll_body headed scans checked restated made
    | false =>
      rw [if_neg Bool.false_ne_true]
      generalize (if (false || s.inBlock || s.isPlotting) = true then none
        else some s.unit?) = names
      have bound := (hasAll_of_check headed scans checked rfl).bound checked s.isAssigned names
        scan.assignment
      cases ordered : Postfix.ofTokens (Token.bind s.isAssigned names scan.assignment us) with
      | error e => exact failed e
      | ok program =>
        rw [outcome_bind_ok (outcome_ofExcept _ s)]
        have named := NamesAll.bound (fun t within => (scans t within).names) checked
          s.isAssigned names scan.assignment
        refine .read (.refl n s) fun statement made => ?_
        cases made
        constructor
        · exact Postfix.forall_ofTokensFrom (fun _ _ _ owns => owns.congr rfl rfl rfl) bound
            (List.forall_mem_nil _) ordered
        · exact Postfix.forall_ofTokensFrom (fun _ _ _ _ => ⟨nofun, trivial⟩) named
            (List.forall_mem_nil _) ordered

theorem outcome_parseUnit (text : Option (List Char)) (s : Session) :
    ∃ r, outcome (parseUnit text) s = (r, s) := by
  unfold parseUnit
  split
  · exact ⟨_, rfl⟩
  · exact ⟨_, outcome_read _ s⟩

/-- A part that is read inside of a block belongs to the session. -/
theorem adds_of_parsed {source : List Char} {allowed : Bool} (inside : s.inBlock = true)
    (parsed : Parsed n s (outcome (parseStatement source allowed) s)) :
    Adds (ReadsInPlace n) s (HasAll n) (do return (← parseStatement source allowed).program) := by
  have adds : Adds (ReadsInPlace n) s (fun s statement => HasAll n s statement.program)
      (parseStatement source allowed) := by
    unfold Adds
    generalize outcome (parseStatement source allowed) s = e at parsed ⊢
    cases parsed with
    | read reads has => exact ⟨reads, fun statement made => (has statement made).1⟩
    | define outside => rw [inside] at outside; cases outside
  exact ReadsInPlace.growth.bind adds fun _ _ _ has => ReadsInPlace.growth.pure has

/-- The tokens of a statement refer to what the session has, when those of parts do. -/
theorem scanned_of_parts {source : List Char}
    (parse : Shorter source.length → Bool → SessionM (List Token)) (informed : s.InformedSplit n)
    (parts : ∀ part allowed (s : Session), s.InformedSplit n → s.inBlock = true →
      Adds (ReadsInPlace n) s (HasAll n) (parse part allowed)) (allowed : Bool) :
    Adds (ReadsInPlace n) s
      (fun s scan => scan.Consists (s.Scans n) ∧ Token.HeadsForward scan.reversed)
      (Scan.run source.length (createBlock parse) allowed (Statement.split source).1
        (Statement.length_split source) {}) := by
  -- A block that was created is one of the session, and no call.
  have created : ∀ s : Session, s.InformedSplit n →
      ∀ method (script : Shorter source.length), Adds (ReadsInPlace n) s
      (fun s' i => ∀ name ts, (∀ t ∈ ts, s.Scans n t) ∧ Token.HeadsForward ts →
        (∀ t ∈ Token.block i name :: ts, s'.Scans n t) ∧ Token.HeadsForward (.block i name :: ts))
      (createBlock parse method script) := by
    intro s informed method script
    obtain ⟨reads, scans⟩ := createBlock_adds parts informed method script
    refine ⟨reads, fun i made name ts holds => ?_⟩
    obtain ⟨all, heads⟩ := (scanning_inPlace n).mono reads holds
    exact ⟨List.forall_mem_cons.2 ⟨scans i made name, all⟩, heads.cons rfl⟩
  have fresh : (∀ t ∈ ([] : List Token), s.Scans n t) ∧ Token.HeadsForward [] :=
    ⟨List.forall_mem_nil _, nofun⟩
  exact Scan.run_adds (scanning_inPlace n) fresh informed (fun _ => created)
    (fun _ _ _ _ => Step.inPlace (.of_eq rfl rfl rfl rfl rfl) rfl
      (spares_of_eq n rfl rfl rfl rfl rfl rfl)) _

/-- Statements are read in steps, and a definition comes last. -/
theorem parsed_parseStatement (informed : s.InformedSplit n) (source : List Char) (allowed : Bool) :
    Parsed n s (outcome (parseStatement source allowed) s) := by
  -- Strong induction on the length, since blocks contain shorter statements.
  induction length : source.length using Nat.strongRecOn generalizing source allowed s with
  | ind length ih =>
    subst length
    -- Inside of a block no function is defined, so its statements are only read.
    have scanned := scanned_of_parts
      (fun part allowed => return (← parseStatement part.1 allowed).program) informed
      (fun part allowed s informed inside =>
        adds_of_parsed inside (ih part.1.length part.2 informed part.1 allowed rfl)) allowed
    rw [parseStatement, outcome_bind]
    obtain ⟨unit, same⟩ := outcome_parseUnit (Statement.split source).2 s
    rw [same]
    cases unit with
    | error e => exact .read (.refl n s) fun _ ok => by cases ok
    | ok unit =>
      dsimp only
      rw [outcome_bind]
      unfold Adds at scanned
      generalize outcome (Scan.run _ _ _ _ _ _) s = e at scanned ⊢
      obtain ⟨r, s'⟩ := e
      cases r with
      | error e => exact .read scanned.1 fun _ ok => by cases ok
      | ok scan =>
        obtain ⟨scans, heads⟩ := scanned.2 scan rfl
        exact (parsed_ofScan (scanned.1.informed informed) scans heads _ _).after scanned.1

/-- The tokens of a statement refer to what the session has. -/
theorem scanned_adds (informed : s.InformedSplit n) (source : List Char) (allowed : Bool) :
    Adds (ReadsInPlace n) s
      (fun s scan => scan.Consists (s.Scans n) ∧ Token.HeadsForward scan.reversed)
      (Scan.run source.length
        (createBlock fun part allowed => return (← parseStatement part.1 allowed).program) allowed
        (Statement.split source).1 (Statement.length_split source) {}) :=
  scanned_of_parts _ informed (fun part allowed _ informed inside =>
    adds_of_parsed inside (parsed_parseStatement informed part.1 allowed)) allowed

end SessionM

end UnitCalc

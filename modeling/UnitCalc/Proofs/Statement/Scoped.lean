/-
# Reading in scope

A statement is read with blocks in it, which are statements of their own, and each of them is bound
to its variable when it is complete. All that was read before is behind it then. So names stand for
what they mean, inside of blocks too.

## Main definitions

* `SessionM.ParsedInScope`: what reading a statement ends with.

## Main results

* `SessionM.createBlock_scoped`: blocks are read in the scope of the session.
* `SessionM.inScope_parseStatement`: so are statements, and functions are in scope.
-/

import UnitCalc.Proofs.Statement.Building

namespace UnitCalc

open Session

namespace Session

variable {s : Session} {scope : Scope} {t : Token}

theorem scoped_of_isFree (free : t.isFree = true) : s.Scoped scope t ∧ t.blockIndex? = none := by
  cases t with
  | «variable» | call | block => cases free
  | _ => exact ⟨.other rfl, rfl⟩

/-- A session behind its first blocks. -/
structure InformedBehind (n : Nat) (s : Session) : Prop extends Informed s where
  size : n ≤ s.blocks.size

/-- Tokens that are read stand for variables of the session. -/
theorem scanning_builds (n : Nat) :
    Scanning Builds (InformedBehind n) fun s ts => n ≤ s.blocks.size ∧ s.Lies n ts.reverse where
  toGrowth := Builds.growth
  keeps builds behind :=
    { builds.reads.informed behind.toInformed with
      size := Nat.le_trans behind.size builds.isSplit.size }
  mono builds lies := ⟨Nat.le_trans lies.1 builds.isSplit.size, lies.2.mono builds.toRetains⟩
  admits s := by
    refine ⟨fun {t ts} free _ lies => ?_, fun {t ts} free lies => ?_⟩
    · obtain ⟨reads, noBlock⟩ := scoped_of_isFree free
      exact ⟨lies.1, lies.2.push lies.1 reads noBlock⟩
    · obtain ⟨reads, noBlock⟩ : s.Scoped .empty _ ∧ _ := scoped_of_isFree free
      have before : s.Lies n ts.reverse :=
        lies.2.sublist (by rw [List.reverse_cons]; exact List.sublist_append_left _ _)
      have opened := before.push lies.1 (t := .openBracket) (.other rfl) rfl
      exact ⟨lies.1, opened.push lies.1 reads noBlock⟩
  call {s name i ts} _ _ lies := ⟨lies.1, lies.2.push lies.1 (.other rfl) rfl⟩
  forward _ _ _ lies := ⟨lies.1, lies.2.push lies.1 (.other rfl) rfl⟩
  cell {s} name behind := by
    have reads := ((reading_inPlace s.blocks.size).cell name behind.toInformed.split).1
    refine ⟨.inPlace (.refl s) reads, fun ts lies => ⟨lies.1, lies.2.push lies.1 (.name ?_) rfl⟩⟩
    exact (s.extends_cellOf name).2
end Session

namespace SessionM

variable {n limit : Nat} {s s' : Session}

section Blocks

variable {parse : Shorter limit → Bool → SessionM (List Token)}
  (parts : ∀ text allowed (s : Session), s.Informed → s.inBlock = true →
    Adds Builds s (fun s' program => s'.Lies s.blocks.size program) (parse text allowed))

theorem inBlock_of_builds (builds : s.Builds s') (inside : s.inBlock = true) :
    s'.inBlock = true := by
  rw [inBlock, builds.blockDepth]
  exact inside

include parts

theorem part_builds (informed : s.Informed) (inside : s.inBlock = true) (text : Shorter limit)
    (allowed : Bool) :
    Adds Builds s (fun s' part => s'.Lies s.blocks.size part.program)
      (do return (⟨String.ofList text.1, ← parse text allowed⟩ : Part)) :=
  Builds.growth.bind (parts text allowed s informed inside) fun _ _ _ lies =>
    Builds.growth.pure lies

theorem optional_builds (informed : s.Informed) (inside : s.inBlock = true)
    (text : Option (Shorter limit)) :
    Adds Builds s (fun s' (part : Option Part) => s'.Lies s.blocks.size (part.elim [] Part.program))
      (text.mapM fun text => do return (⟨String.ofList text.1, ← parse text false⟩ : Part)) := by
  cases text with
  | none => exact Builds.growth.pure (lies_nil _ _)
  | some text =>
    rw [Option.mapM_some, map_eq_pure_bind]
    exact Builds.growth.bind (part_builds parts informed inside text false) fun _ _ _ lies =>
      Builds.growth.pure lies

/-- The parts of a block that was read have no part in common. -/
theorem readBlock_builds (informed : s.Informed) (inside : s.inBlock = true) (method : Method)
    (script : Script limit) :
    Adds Builds s (fun s' b => b.method = method ∧ s'.Lies s.blocks.size b.tokens)
      (readBlock parse method script) := by
  unfold readBlock
  dsimp only
  refine Builds.growth.bind (part_builds parts informed inside _ _)
    fun s₁ objective builds₁ lies₁ => ?_
  have informed₁ := builds₁.reads.informed informed
  have inside₁ := inBlock_of_builds builds₁ inside
  have size₁ := builds₁.isSplit.size
  refine Builds.growth.bind (part_builds parts informed₁ inside₁ _ _)
    fun s₂ unknown builds₂ lies₂ => ?_
  have informed₂ := builds₂.reads.informed informed₁
  have inside₂ := inBlock_of_builds builds₂ inside₁
  have size₂ := Nat.le_trans size₁ builds₂.isSplit.size
  have upto₂ := lies₁.append size₁ builds₂ lies₂
  refine Builds.growth.bind (part_builds parts informed₂ inside₂ _ _)
    fun s₃ lower builds₃ lies₃ => ?_
  have informed₃ := builds₃.reads.informed informed₂
  have inside₃ := inBlock_of_builds builds₃ inside₂
  have size₃ := Nat.le_trans size₂ builds₃.isSplit.size
  have upto₃ := upto₂.append size₂ builds₃ lies₃
  refine Builds.growth.bind (optional_builds parts informed₃ inside₃ _)
    fun s₄ upper builds₄ lies₄ => ?_
  have informed₄ := builds₄.reads.informed informed₃
  have inside₄ := inBlock_of_builds builds₄ inside₃
  have size₄ := Nat.le_trans size₃ builds₄.isSplit.size
  have upto₄ := upto₃.append size₃ builds₄ lies₄
  refine Builds.growth.bind (optional_builds parts informed₄ inside₄ _)
    fun s₅ equation builds₅ lies₅ => ?_
  have upto₅ := upto₄.append size₄ builds₅ lies₅
  split
  · next cell name same =>
    refine Builds.growth.bind (P := fun s' _ => s₅.Builds s') ?_ fun s₆ parameter _ builds₆ => ?_
    · have new := newParameter_adds (builds₅.reads.informed informed₄).split
      exact ⟨.inPlace (.refl s₅) new.1, fun _ _ => .inPlace (.refl s₅) new.1⟩
    · rw [same] at upto₅
      refine Builds.growth.pure ⟨rfl, ?_⟩
      simpa [Block.tokens] using upto₅.mono builds₆.toRetains
  · exact Builds.growth.throw _

omit parts in
/-- The block whose variable is bound. -/
theorem outcome_bindUnknown (b : Block) (s : Session) : ∃ b' : Block,
    outcome (bindUnknown b) s =
      (.ok b', (s.bindProgram [(b.unknownName, b.parameter)] b.boundTokens).2) ∧
    b'.boundTokens = (s.bindProgram [(b.unknownName, b.parameter)] b.boundTokens).1 ∧
    b'.besideTokens = b.besideTokens ∧ b'.method = b.method ∧
    Token.blockIndices b'.tokens = Token.blockIndices b.tokens ∧
    Scope.empty.within b' = Scope.empty.within b := by
  have bound (part : Part) (s : Session) : outcome (do
      return { part with
        program := ← bindProgram [(b.unknownName, b.parameter)] part.program }) s =
      (.ok { part with
        program := part.program.map (Token.bound [(b.unknownName, b.parameter)]) },
        (Token.blockIndices part.program).foldl
          (Session.bindBlock · [(b.unknownName, b.parameter)]) s) := rfl
  unfold bindUnknown
  dsimp only
  rw [outcome_bind_ok (bound b.objective s), Session.bindProgram]
  cases side : b.equation with
  | none =>
    refine ⟨{ b with objective := { b.objective with
      program := b.objective.program.map (Token.bound [(b.unknownName, b.parameter)]) } },
      ?_, ?_, rfl, rfl, ?_, rfl⟩
    · simp [Block.boundTokens, side]
    · simp [Block.boundTokens, side]
    · simp [Block.tokens, side, Token.blockIndices_append, Token.blockIndices_cons,
        Block.blockIndices_map_bound]
  | some part =>
    rw [Option.mapM_some, map_eq_pure_bind, bind_assoc, outcome_bind_ok (bound part _)]
    refine ⟨{ b with
      objective := { b.objective with
        program := b.objective.program.map (Token.bound [(b.unknownName, b.parameter)]) }
      equation := some { part with
        program := part.program.map (Token.bound [(b.unknownName, b.parameter)]) } },
      ?_, ?_, rfl, rfl, ?_, rfl⟩
    · simp [Block.boundTokens, side, Token.blockIndices_append]
    · simp [Block.boundTokens, side]
    · simp [Block.tokens, side, Token.blockIndices_append, Token.blockIndices_cons,
        Block.blockIndices_map_bound]

omit parts in
/-- Binding the variable of a block puts its parts where they belong. -/
theorem contains_bindUnknown {b b' : Block} {s' : Session} (lies : s.Lies n b.tokens)
    (ended : outcome (bindUnknown b) s = (.ok b', s')) :
    s'.Contains b' ∧ b'.method = b.method ∧ s'.blocks.size = s.blocks.size := by
  obtain ⟨c, bound, boundTokens, besideTokens, method, indices, within⟩ := outcome_bindUnknown b s
  obtain ⟨same, rfl⟩ := Prod.mk.inj (bound.symm.trans ended)
  cases same
  have rebound := s.rebound_foldl [(b.unknownName, b.parameter)]
    (Token.blockIndices b.boundTokens)
  obtain ⟨inside, beside⟩ := lies.bindUnknown
  refine ⟨⟨?_, ?_, ?_, ?_⟩, method, rebound.size⟩
  · rw [boundTokens, within]
    exact inside
  · rw [besideTokens]
    exact beside
  · rw [Apart, indices]
    exact lies.apart.rebound rebound
  · rw [indices]
    exact fun j inside => Nat.lt_of_lt_of_eq (lies.later j inside).2 rebound.size.symm

/-- A block is added when its variable is bound. -/
theorem place_scoped (informed : s.Informed) (inside : s.inBlock = true) (method : Method)
    (script : Script limit) {i : Nat} {s' : Session}
    (ended : outcome (do
      let b ← bindUnknown (← readBlock parse method script)
      let extremum ← extremumCell method b.unknownName
      modifyGet fun s => s.addBlock { b with extremum }) s = (.ok i, s')) :
    s.blocks.size ≤ i ∧ ∀ name, s'.Scoped .empty (.block i name) := by
  have read := readBlock_builds parts informed inside method script
  unfold Adds at read
  rw [outcome_bind] at ended
  generalize outcome (readBlock parse method script) s = e at read ended
  obtain ⟨r, s₁⟩ := e
  cases r with
  | error e => cases ended
  | ok b =>
    obtain ⟨builds, lies⟩ := read
    obtain ⟨same, lies⟩ := lies b rfl
    dsimp only at builds lies ended
    obtain ⟨b', bound, -⟩ := outcome_bindUnknown b s₁
    obtain ⟨contains, same', size⟩ := contains_bindUnknown lies bound
    rw [outcome_bind_ok bound, outcome_place (same'.trans same)] at ended
    obtain ⟨rfl, rfl⟩ : (Session.place _ b').1 = i ∧ (Session.place _ b').2 = s' := by
      simpa using ended
    refine ⟨?_, contains.place⟩
    exact Nat.le_trans (size ▸ builds.isSplit.size) (lt_size_place _ b').1

/-- A block that was read is in the scope of the session, behind all blocks that there were. -/
theorem createBlock_scoped (informed : s.Informed) (method : Method) (text : Shorter limit)
    {i : Nat} {s' : Session} (ended : outcome (createBlock parse method text) s = (.ok i, s')) :
    s.blocks.size ≤ i ∧ ∀ name, s'.Scoped .empty (.block i name) := by
  unfold createBlock at ended
  rw [outcome_insideBlock] at ended
  -- How many blocks are being read does not matter for what names mean.
  have count : ∀ (s : Session) (m : Nat) name, s.Scoped .empty (.block i name) →
      Session.Scoped { s with blockDepth := m } .empty (.block i name) := fun s m name reads =>
    reads.congr (R := fun _ => True) (fun _ _ => id) (fun _ _ _ _ _ _ _ => trivial)
      (fun _ _ _ _ _ => trivial) (fun _ _ => rfl) fun _ _ => trivial
  have entered : s.Step { s with blockDepth := s.blockDepth + 1 } :=
    .of_eq rfl rfl rfl rfl rfl
  cases read : Script.read method text with
  | error e =>
    rw [outcome_bind_error (by rw [read]; exact outcome_ofExcept _ _)] at ended
    cases ended
  | ok script =>
    rw [outcome_bind_ok (by rw [read]; exact outcome_ofExcept _ _)] at ended
    obtain ⟨made, rfl⟩ := Prod.mk.inj ended
    obtain ⟨later, reads⟩ := place_scoped parts (entered.read.informed informed)
      (by simp [inBlock]) method script (Prod.ext made rfl)
    exact ⟨later, fun name => count _ _ name (reads name)⟩

end Blocks

/-! ## Statements -/

variable {n : Nat} {s s' s₀ : Session} {tokens ts us : List Token}

/-- What reading a statement ends with: a program whose names stand for variables of the session, or
a definition of a function that is in scope. -/
inductive ParsedInScope (s : Session) : Except CalcError Statement × Session → Prop where
  | read {r : Except CalcError Statement} {s' : Session} (builds : s.Builds s')
    (lies : ∀ statement, r = .ok statement → s'.Lies s.blocks.size statement.program) :
    ParsedInScope s (r, s')
  | define {r : Except CalcError Statement} {s' : Session} {f : UserFunction}
    (outside : s.inBlock = false) (builds : s.Builds s') (inScope : s'.InScope f)
    (alone : f.dependents = [])
    (defines : ∀ statement, r = .ok statement →
      statement.isDefinition = true ∧ statement.program = []) :
    ParsedInScope s (r, (s'.settle f).2)

theorem inScope_define (builds : s₀.Builds s) (informed : s.Informed) (outside : s₀.inBlock = false)
    (lies : s.Lies s₀.blocks.size tokens) (unit : Option ValueUnit) (source : String) :
    ParsedInScope s₀ (outcome (do
      return ({ program := [], unit, function := some (← define tokens unit), source } :
        Statement)) s) := by
  rw [outcome_bind]
  obtain ⟨e, ended⟩ | ⟨header, program, parameters, s₁, read, ordered, made, ended⟩ :=
    outcome_define tokens unit s
  · rw [ended]
    exact .read builds nofun
  · have behind : s.InformedSplit s₀.blocks.size := { informed, builds.isSplit with }
    obtain ⟨-, before, first, -, -, same⟩ := Header.ofTokens_ok read
    have part : header.body.Sublist tokens := by
      rw [same]
      exact ((List.sublist_cons_self first _).trans (List.sublist_append_right before _))
    obtain ⟨reads, bound⟩ := ((lies.sublist part).ofTokens ordered).bindParameters behind made
    have distinct := (s.cells_newParameters header.parameters).1
    rw [made] at distinct
    have defined := fun r defines => ParsedInScope.define (r := r) outside (builds.inPlace reads)
      (f := { name := header.name, parameters, body := program.map (Token.bound parameters), unit })
      ⟨bound, distinct⟩ rfl defines
    rw [ended]
    generalize Session.settle _ _ = e at defined ⊢
    obtain ⟨r, s''⟩ := e
    cases r with
    | error e => exact defined _ nofun
    | ok index =>
      refine defined _ fun statement made => ?_
      cases made
      exact ⟨rfl, rfl⟩

theorem inScope_ofScan {scan : Scan} (builds : s₀.Builds s) (informed : s.Informed)
    (lies : s.Lies s₀.blocks.size scan.tokens) (source : List Char) (unit : Option ValueUnit) :
    ParsedInScope s₀ (outcome (ofScan source unit scan) s) := by
  have failed : ∀ e : CalcError, ParsedInScope s₀ (.error e, s) := fun e => .read builds nofun
  unfold ofScan
  by_cases empty : scan.tokens.isEmpty = true
  · rw [if_pos empty]
    exact failed _
  rw [if_neg empty]
  cases checked : Token.check scan.tokens with
  | error e => exact failed e
  | ok r =>
    obtain ⟨us, isDefinition⟩ := r
    beta_reduce
    rw [outcome_bind_ok (outcome_ofExcept _ s)]
    simp only
    rw [outcome_bind_ok (outcome_get s)]
    split
    · exact failed _
    next outside =>
    have named : outcome (unitNames isDefinition) s =
      (.ok (if isDefinition || s.inBlock || s.isPlotting then none else some s.unit?), s) := rfl
    rw [outcome_bind_ok named, outcome_bind_ok (outcome_get s)]
    generalize (if (isDefinition || s.inBlock || s.isPlotting) = true then none
      else some s.unit?) = names
    have bound := (lies.check checked).bound s.isAssigned names scan.assignment
    cases isDefinition with
    | true =>
      have outside' : s₀.inBlock = false := by
        have still : s.inBlock = false := by simpa using outside
        rwa [inBlock, builds.blockDepth] at still
      exact inScope_define builds informed outside' bound _ _
    | false =>
      rw [if_neg Bool.false_ne_true]
      cases ordered : Postfix.ofTokens (Token.bind s.isAssigned names scan.assignment us) with
      | error e => exact failed e
      | ok program =>
        rw [outcome_bind_ok (outcome_ofExcept _ s)]
        refine .read builds fun statement made => ?_
        cases made
        exact bound.ofTokens ordered

/-- The parts of blocks are read in place. -/
theorem program_adds (informed : s.InformedSplit n) (inside : s.inBlock = true)
    (source : List Char) (allowed : Bool) : Adds (ReadsInPlace n) s (HasAll n)
      (do return (← parseStatement source allowed).program) := by
  have parsed := parsed_parseStatement informed source allowed
  have adds : Adds (ReadsInPlace n) s (fun s statement => HasAll n s statement.program)
      (parseStatement source allowed) := by
    unfold Adds
    generalize outcome (parseStatement source allowed) s = e at parsed ⊢
    cases parsed with
    | read reads has => exact ⟨reads, fun statement made => (has statement made).1⟩
    | define outside => rw [inside] at outside; cases outside
  exact ReadsInPlace.growth.bind adds fun _ _ _ has => ReadsInPlace.growth.pure has

/-- Statements are read in scope. -/
theorem inScope_parseStatement (informed : s.Informed) (source : List Char) (allowed : Bool) :
    ParsedInScope s (outcome (parseStatement source allowed) s) := by
  -- Strong induction on the length, since blocks contain shorter statements.
  induction length : source.length using Nat.strongRecOn generalizing source allowed s with
  | ind length ih =>
    subst length
    -- Inside of a block no function is defined.
    have parts : ∀ (part : Shorter source.length) allowed (s : Session), s.Informed →
        s.inBlock = true → Adds Builds s (fun s' program => s'.Lies s.blocks.size program)
          (do return (← parseStatement part.1 allowed).program) := by
      intro part allowed s informed inside
      have parsed := ih part.1.length part.2 informed part.1 allowed rfl
      have adds : Adds Builds s (fun s' statement => s'.Lies s.blocks.size statement.program)
          (parseStatement part.1 allowed) := by
        unfold Adds
        generalize outcome (parseStatement part.1 allowed) s = e at parsed ⊢
        cases parsed with
        | read builds lies => exact ⟨builds, lies⟩
        | define outside => rw [inside] at outside; cases outside
      exact Builds.growth.bind adds fun _ _ _ lies => Builds.growth.pure lies
    -- A block that was created lies behind all that was read before.
    have created : ∀ s₁, InformedBehind s.blocks.size s₁ →
        ∀ method (script : Shorter source.length), Adds Builds s₁
        (fun s₂ i => ∀ name ts, s.blocks.size ≤ s₁.blocks.size ∧ s₁.Lies s.blocks.size ts.reverse →
          s.blocks.size ≤ s₂.blocks.size ∧
            s₂.Lies s.blocks.size (Token.block i name :: ts).reverse)
        (createBlock (fun part allowed => return (← parseStatement part.1 allowed).program) method
          script) := by
      intro s₁ behind method script
      have reads := (createBlock_adds (n := s₁.blocks.size)
        (fun part allowed s informed inside => program_adds informed inside part.1 allowed)
        behind.toInformed.split method script).1
      have builds := (Builds.refl s₁).inPlace reads
      refine ⟨builds, fun i made name ts lies => ⟨Nat.le_trans lies.1 builds.isSplit.size, ?_⟩⟩
      obtain ⟨later, inScope⟩ := createBlock_scoped parts behind.toInformed method script
        (Prod.ext made rfl)
      rw [List.reverse_cons]
      refine lies.2.append lies.1 builds (lies_token (inScope name) fun j same => ?_)
      cases same
      exact later
    have scanned : Adds Builds s
        (fun s' scan => s.blocks.size ≤ s'.blocks.size ∧ s'.Lies s.blocks.size scan.tokens)
        (Scan.run source.length _ allowed (Statement.split source).1 (Statement.length_split source)
          {}) :=
      Scan.run_adds (scanning_builds s.blocks.size) ⟨Nat.le_refl _, lies_nil _ s⟩
        { informed with size := Nat.le_refl _ } (fun _ => created)
        (fun _ s _ _ => (Builds.refl s).inPlace
          (Step.inPlace (.of_eq rfl rfl rfl rfl rfl) rfl
            (spares_of_eq _ rfl rfl rfl rfl rfl rfl))) _
    rw [parseStatement, outcome_bind]
    obtain ⟨unit, same⟩ := outcome_parseUnit (Statement.split source).2 s
    rw [same]
    cases unit with
    | error e => exact .read (.refl s) fun _ ok => by cases ok
    | ok unit =>
      dsimp only
      rw [outcome_bind]
      unfold Adds at scanned
      generalize outcome (Scan.run _ _ _ _ _ _) s = e at scanned ⊢
      obtain ⟨r, s'⟩ := e
      cases r with
      | error e => exact .read scanned.1 fun _ ok => by cases ok
      | ok scan =>
        have informed' := scanned.1.reads.informed informed
        exact inScope_ofScan scanned.1 informed' (scanned.2 scan rfl).2 _ _

end SessionM

end UnitCalc

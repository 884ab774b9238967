/-
# Lexical scope

Requests leave alone what was read before: names keep their cells, and blocks keep their parts. New
functions and formulas are in scope when they are made. So in all sessions behind requests, a name
in the body of a function stands for a parameter of the function, for the variable of a block around
it, or for a variable of the session, and this is told by the text. A call stores its arguments in
the cells of the parameters, so the names of parameters read them.

## Main definitions

* `Session.Lexical`: all functions of a session are in scope.
* `Session.Upholds`: what was there is retained, and functions stay in scope.
* `Session.Expresses`: formulas whose names stand for what they mean.
* `Session.Encloses`: a token stands inside of the block of another one.

## Main results

* `Session.Informed.upholds`: requests uphold what was there.
* `Session.Becomes.reads_inScope`: all that is read is in scope, and stays in it.
* `Session.Becomes.assigned?_parameter`: what names read while a function is called.
-/

import UnitCalc.Proofs.Session.Pure
import UnitCalc.Proofs.Statement.Scoped

namespace UnitCalc

open Relation (ReflTransGen)
open SessionM

namespace Session

variable {s s' s'' s₀ : Session} {f g : UserFunction} {t : Token} {i : Nat} {name : String}
  {cell : Option CellId}

/-- All functions of a session are in scope. -/
def Lexical (s : Session) : Prop :=
  ∀ (i : Nat) f, s.functions[i]? = some f → s.InScope f

/-- A later session retains what there was, and new functions are in scope. -/
structure Upholds (s s' : Session) : Prop extends Retains s s' where
  lexical : s.Lexical → s'.Lexical

theorem InScope.retained (inScope : s.InScope f) (retains : s.Retains s')
    (body : g.body = f.body) (parameters : g.parameters = f.parameters) : s'.InScope g := by
  refine ⟨?_, ?_⟩
  · rw [body, parameters]
    exact fun t within => retains.scoped_token (inScope.body t within)
  · rw [UserFunction.cells, parameters]
    exact inScope.distinct

theorem Upholds.trans (first : s.Upholds s') (second : s'.Upholds s'') : s.Upholds s'' :=
  ⟨first.toRetains.trans second.toRetains, fun lexical => second.lexical (first.lexical lexical)⟩

/-- When all functions have the definitions that they had. -/
theorem Retains.upholds (retains : s.Retains s')
    (definitionOf : ∀ i, s'.definitionOf i = s.definitionOf i) : s.Upholds s' := by
  refine ⟨retains, fun lexical i g found => ?_⟩
  have same := definitionOf i
  rw [Session.definitionOf, Session.definitionOf, found, Option.map_some] at same
  obtain ⟨f, old, same⟩ := Option.map_eq_some_iff.1 same.symm
  have read {α : Type} (p : UserFunction → α) : p g.definition = p f.definition :=
    congrArg p same.symm
  exact (lexical i f old).retained retains (read UserFunction.body) (read UserFunction.parameters)

theorem Builds.upholds (builds : s.Builds s') : s.Upholds s' :=
  builds.toRetains.upholds builds.reads.later.definitionOf

theorem SameWiring.retains (same : s.SameWiring s') : s.Retains s' :=
  ⟨fun _ _ named => same.cellNames ▸ named, fun i _ => same.block_definition i⟩

theorem Evolves.upholds (evolves : s.Evolves s') : s.Upholds s' :=
  evolves.runsTo.toSameWiring.retains.upholds evolves.runsTo.definitionOf_eq

theorem upholds_setValue (s : Session) (name : String) (value : Value) :
    s.Upholds (s.setValue name value) := by
  have named := (s.extends_cellOf name).1
  have cells : s.Upholds (s.cellOf name).2 :=
    (retains_of_extends named).upholds (Step.cells named).later.definitionOf
  exact cells.trans (evolves_assign _ _ _).upholds

/-- Whether it is accepted or refused, a function that is settled is defined. -/
theorem exists_defines (s : Session) (alone : f.dependents = []) :
    ∃ j isCircular s', s.Defines j { f with isCircular } s' ∧
      (s.settle f).2 = s'.forgetFrom (s.dependentsOf (.function j)) := by
  obtain ⟨changed, defines, -⟩ := s.install_spec alone
  refine ⟨(s.install f).1, ?_⟩
  unfold settle
  simp only
  split
  · exact ⟨true, _, defines.refused, by rw [changed]⟩
  · exact ⟨f.isCircular, _, defines.grows (dependOnAll_spec _ _ _).1, by rw [changed]⟩

/-- A function that is in scope is settled. -/
theorem upholds_settle (inScope : s.InScope f) (alone : f.dependents = []) :
    s.Upholds (s.settle f).2 := by
  obtain ⟨j, isCircular, s', defines, settled⟩ := s.exists_defines alone
  have retains : s.Retains s' := by
    refine ⟨fun _ _ named => defines.cellNames ▸ named, fun i _ => ?_⟩
    have same := congrArg (Option.map Block.forget) (defines.blocks i)
    rwa [Option.map_map, Option.map_map] at same
  rw [settled]
  refine Upholds.trans ⟨retains, fun lexical i g found => ?_⟩ (s'.evolves_forgetFrom _).upholds
  rcases defines.function_cases found with ⟨-, same⟩ | ⟨-, h, old, same⟩
  · obtain ⟨parameters, body, -⟩ := UserFunction.eq_of_undepended same
    exact inScope.retained retains body parameters
  · obtain ⟨parameters, body, -⟩ := UserFunction.eq_of_undepended same
    exact (lexical i h old).retained retains body parameters

/-! ## Requests -/

/-- Statements that are read, and definitions, uphold what there was. -/
theorem upholds_of_parsed {e : Except CalcError Statement × Session} (parsed : ParsedInScope s e) :
    s.Upholds e.2 ∧ ∀ statement, e.1 = .ok statement → e.2.Lies 0 statement.program := by
  cases parsed with
  | read builds lies =>
    refine ⟨builds.upholds, fun statement made => ?_⟩
    have behind := lies statement made
    exact { behind with later := fun i within => ⟨Nat.zero_le i, (behind.later i within).2⟩ }
  | define outside builds inScope alone defines =>
    refine ⟨builds.upholds.trans (upholds_settle inScope alone), fun statement made => ?_⟩
    rw [(defines statement made).2]
    exact lies_nil 0 _

theorem Informed.upholds_parse (informed : s.Informed) (text : String) :
    s.Upholds (outcome (parse text) s).2 ∧ ∀ statement,
      (outcome (parse text) s).1 = .ok statement →
        ∀ t ∈ statement.program, (outcome (parse text) s).2.Scoped .empty t := by
  have limited : s.Evolves s.limitResults := .single (.limit s)
  have informed' := informed.runsTo limited.runsTo
  obtain ⟨upholds, lies⟩ := upholds_of_parsed (inScope_parseStatement informed' text.toList true)
  exact ⟨limited.upholds.trans upholds, fun statement made => (lies statement made).tokens⟩

/-- A formula is the code of a program whose names stand for its parameters, or for variables of the
session. -/
def Expresses (s : Session) (names : List String) (e : Formula) : Prop :=
  ∃ (parameters : List (String × CellId)) (program : List Token),
    parameters.map Prod.fst = names ∧ parameters.map Prod.snd = e.parameters ∧
      Code.ofPostfix s.compilation program = .ok e.code ∧
      ∀ t ∈ program, s.Scoped (parameters.lookup ·) t

/-- What was read is bound to new parameters and compiled. -/
theorem formula_inScope {n : Nat} (informed : s.InformedSplit n) {statement : Statement}
    (lies : s.Lies n statement.program) (names : List String) :
    Adds (ReadsInPlace n) s (fun s e => s.Expresses names e) (do
      let parameters ← modifyGet fun s => s.newParameters names
      let program ← SessionM.bindProgram parameters statement.program
      let code ← SessionM.read fun s => Code.ofPostfix s.compilation program
      return (⟨parameters.map Prod.snd, code, statement.unit⟩ : Formula)) := by
  have firsts := s.map_fst_newParameters names
  unfold Adds
  rw [outcome_bind_ok (outcome_modifyGet _ s), SessionM.bindProgram,
    outcome_bind_ok (outcome_modifyGet _ _), outcome_bind, outcome_read]
  cases made : s.newParameters names with
  | mk parameters s₁ =>
    rw [made] at firsts
    obtain ⟨reads, inScope⟩ := lies.bindParameters informed made
    dsimp only
    cases compiled : Code.ofPostfix _ _ with
    | error e => exact ⟨reads, fun _ same => by cases same⟩
    | ok code =>
      refine ⟨reads, fun e same => ?_⟩
      cases same
      exact ⟨parameters, _, firsts, rfl, compiled, inScope⟩

/-- An expression that was read over parameters, and is no definition, lies behind the blocks that
there were. -/
theorem Informed.inScope_parsePlotted {text : String} {r : Except CalcError Statement}
    (informed : s.Informed) (plotted : outcome (parsePlotted text) s = (r, s')) :
    s.Upholds s' ∧ ∀ statement, r = .ok statement → statement.isDefinition = false →
      s'.InformedSplit s.blocks.size ∧ s'.Lies s.blocks.size statement.program ∧ s.Later s' := by
  have plotting : ∀ (s : Session) (isPlotting : Bool), s.Evolves { s with isPlotting } :=
    fun s _ => .single (.other rfl rfl rfl rfl rfl)
  have enter := plotting s true
  have entered := informed.runsTo enter.runsTo
  have parsed := inScope_parseStatement entered text.toList false
  rw [outcome_parsePlotted] at plotted
  generalize outcome (parseStatement text.toList false) { s with isPlotting := true } = e
    at parsed plotted
  obtain ⟨r, s'⟩ := e
  cases plotted
  have leave := plotting s' s.isPlotting
  refine ⟨enter.upholds.trans ((upholds_of_parsed parsed).1.trans leave.upholds), ?_⟩
  rintro statement rfl value
  cases parsed with
  | define _ _ _ _ defines => simp [(defines statement rfl).1] at value
  | read builds lies =>
    have informed' := (builds.reads.informed entered).runsTo leave.runsTo
    have split := leave.runsTo.toSameWiring.isSplit builds.isSplit
    exact ⟨{ informed', split with }, (lies statement rfl).mono leave.upholds.toRetains,
      ((Step.evolves enter).later.trans builds.reads.later).trans (Step.evolves leave).later⟩

theorem Informed.upholds_compile (informed : s.Informed) (text : String) (names : List String) :
    s.Upholds (outcome (SessionM.compile text names) s).2 ∧ ∀ e,
      (outcome (SessionM.compile text names) s).1 = .ok e →
        (outcome (SessionM.compile text names) s).2.Expresses names e := by
  unfold SessionM.compile
  rw [outcome_bind]
  cases plotted : outcome (parsePlotted text) s with
  | mk r s' =>
    obtain ⟨upholds, inScope⟩ := informed.inScope_parsePlotted plotted
    cases r with
    | error e => exact ⟨upholds, nofun⟩
    | ok statement =>
      dsimp only
      by_cases defines : statement.isDefinition = true
      · rw [if_pos defines]
        exact ⟨upholds, nofun⟩
      · rw [if_neg defines]
        obtain ⟨split, lies, later⟩ := inScope statement rfl (Bool.eq_false_iff.2 defines)
        obtain ⟨reads, expresses⟩ := formula_inScope split lies names
        exact ⟨(upholds.toRetains.inPlace reads).upholds (later.trans reads.later).definitionOf,
          expresses⟩

/-- Unless it is cleared, a session upholds what there was. -/
theorem Informed.upholds (informed : s.Informed) {r : Request} (kept : r ≠ .clear) :
    s.Upholds (s.after r) := by
  cases r with
  | read text => exact (informed.upholds_parse text).1
  | run statement => exact (s.evolves_runStatement statement).upholds
  | assign name value => exact s.upholds_setValue name value
  | compile text names => exact (informed.upholds_compile text names).1
  | call e args => exact (s.evolves_call e args).upholds
  | clear => exact absurd rfl kept

/-- A session that was cleared has no functions. -/
theorem lexical_clear (s : Session) : s.clear.Lexical := by
  obtain ⟨s', functions, -, reads⟩ := s.reads_clear
  intro i f found
  have same := reads.later.definitionOf i
  rw [definitionOf, definitionOf, found, functions] at same
  cases same

/-- What is set from outside belongs to no text. -/
theorem evolves_set (s : Session) (settings : Settings) (random : RandomSource)
    (input : List String) (isEnabled isCancelled isPlotting : Bool) :
    s.Evolves { s with settings, random, input, isEnabled, isCancelled, isPlotting } :=
  .single (.other rfl rfl rfl rfl rfl)

theorem Becomes.lexical (becomes : s₀.Becomes s) (informed : s₀.Informed) (lexical : s₀.Lexical) :
    s.Lexical := by
  induction becomes with
  | start => exact lexical
  | @request s r before ih =>
    by_cases clears : r = .clear
    · subst clears
      exact s.lexical_clear
    · exact ((before.informed informed).upholds clears).lexical ih
  | set settings random input isEnabled isCancelled isPlotting before ih =>
    exact (evolves_set _ settings random input isEnabled isCancelled isPlotting).upholds.lexical ih

/-! ## Sessions from the start -/

section Start

variable {settings : Settings} {g : StdGen} (becomes : (Session.start settings g).Becomes s)

include becomes

theorem Becomes.informed_start : s.Informed :=
  becomes.informed (Occurs.start settings g).informed

theorem Becomes.lexical_start : s.Lexical :=
  becomes.lexical (Occurs.start settings g).informed (lexical_clear _)

theorem Becomes.isPrivate_start (found : s.functions[i]? = some f) :
    ∀ id ∈ f.cells, s.IsPrivate id := by
  have pure :=
    becomes.hasPureFunctions (Occurs.start settings g).informed (hasPureFunctions_clear _)
  rw [← parametersOf_eq found]
  exact pure.hidden i

/-- Texts are read in scope, whatever was read before, and they stay in it. The names of a statement
stand for variables of the session. In a function or a formula they stand for its parameters first.
In the objective and the right side of an equation of a block inside of them they stand for the
variable of the block first, and in its bounds the variable of the block hides all other parameters
of its name. -/
theorem Becomes.reads_inScope :
    (∀ text statement, (outcome (parse text) s).1 = .ok statement →
      ∀ t ∈ statement.program, (outcome (parse text) s).2.Scoped .empty t) ∧
    (∀ text names e, (outcome (SessionM.compile text names) s).1 = .ok e →
      (outcome (SessionM.compile text names) s).2.Expresses names e) ∧
    (∀ (i : Nat) f, s.functions[i]? = some f →
      ∀ t ∈ f.body, s.Scoped (f.parameters.lookup ·) t) ∧
    ∀ r scope t, r ≠ .clear → s.Scoped scope t → (s.after r).Scoped scope t := by
  have informed := becomes.informed_start
  exact ⟨fun text => (informed.upholds_parse text).2,
    fun text names => (informed.upholds_compile text names).2,
    fun i f found => (becomes.lexical_start i f found).body,
    fun r scope t kept reads => (informed.upholds kept).scoped_token reads⟩

end Start

/-- A function with a block whose variable has the name of its parameter. -/
theorem reads_inScope_sum : ∃ (s : Session) (f : UserFunction) (t : Token),
    (Session.start {} ⟨1, 1⟩).Becomes s ∧ s.functions[0]? = some f ∧ t ∈ f.body ∧
      t.blockIndex? = some 0 ∧ s.Scoped (f.parameters.lookup ·) t := by
  let s := (Session.start {} ⟨1, 1⟩).after (.read "f(k) = $sum{k @ k = 1 : k}")
  have becomes : (Session.start {} ⟨1, 1⟩).Becomes s := .request _ .start
  have defined : (s.functions[0]?.any fun f => f.body.any fun t => t.blockIndex? == some 0) =
      true := by decide +kernel
  obtain ⟨f, found, block⟩ := (Option.any_eq_true _ _).1 defined
  obtain ⟨t, within, block⟩ := List.any_eq_true.1 block
  exact ⟨s, f, t, becomes, found, within, beq_iff_eq.1 block,
    becomes.reads_inScope.2.2.1 0 f found t within⟩

/-! ## Arguments -/

/-- A token stands inside of a token: it is the token itself, or it stands inside of a part of the
block of the token. The names of the variables of the blocks around it are hidden. -/
inductive Encloses (s : Session) : Token → List String → Token → Prop where
  | self (t : Token) : Encloses s t [] t
  | part {i : Nat} {b : Block} {name : String} {hidden : List String} {t u : Token}
    (found : s.blocks[i]? = some b) (inside : u ∈ b.boundTokens ∨ u ∈ b.besideTokens)
    (encloses : Encloses s u hidden t) : Encloses s (.block i name) (b.unknownName :: hidden) t

/-- Where a name is not hidden it stands for the same inside of blocks as around them. -/
theorem Scoped.of_encloses {scope : Scope} {hidden : List String} {u : Token}
    (reads : s.Scoped scope u) (encloses : s.Encloses u hidden (.variable cell name))
    (visible : name ∉ hidden) :
    ∃ id, cell = some id ∧ (scope name).or (s.cellNames.lookup name) = some id := by
  generalize same : Token.variable cell name = t at encloses
  induction encloses generalizing scope with
  | self t =>
    subst same
    cases reads with
    | name means => exact ⟨_, rfl, means⟩
    | other nameless => cases nameless
  | @part i b _ hidden t u found inside _ ih =>
    rw [List.mem_cons, not_or] at visible
    cases reads with
    | other nameless => cases nameless
    | block found' _ _ within beside =>
      cases found.symm.trans found'
      rcases inside with bound | bounds
      · obtain ⟨id, here, means⟩ := ih (within u bound) visible.2 same
        rw [Scope.within, if_neg visible.1] at means
        exact ⟨id, here, means⟩
      · obtain ⟨id, here, means⟩ := ih (beside u bounds) visible.2 same
        rw [Scope.beside, if_neg visible.1] at means
        exact ⟨id, here, means⟩

/-- When a function is called, its arguments are what the names of its parameters read in its body,
also inside of blocks whose variables do not hide them. All other names read the variables of the
session. -/
theorem Becomes.assigned?_parameter {settings : Settings} {g : StdGen}
    (becomes : (Session.start settings g).Becomes s) (found : s.functions[i]? = some f)
    {args : List Value} (enough : args.length = f.parameters.length) (within : t ∈ f.body) {hidden : List String}
    (encloses : s.Encloses t hidden (.variable cell name)) (visible : name ∉ hidden) :
    ∃ id, cell = some id ∧ (s.storeAll f.cells args).assigned? id =
      (((f.parameters.map Prod.fst).zip args).lookup name).or (s.value? name) := by
  have inScope := becomes.lexical_start i f found
  have hidden := becomes.isPrivate_start found
  obtain ⟨id, same, means⟩ := (inScope.body t within).of_encloses encloses visible
  have given := isSome_lookup_zip enough name
  refine ⟨id, same, ?_⟩
  cases parameter : f.parameters.lookup name with
  | some own =>
    rw [parameter, Option.some_or] at means
    cases means
    rw [parameter, Option.isSome_some] at given
    obtain ⟨value, argument⟩ := Option.isSome_iff_exists.1 given
    rw [argument, Option.some_or, ← argument]
    exact assigned?_storeAll inScope.distinct (fun id own => (hidden id own).exists_) enough
      parameter
  | none =>
    rw [parameter, Option.none_or] at means
    rw [parameter, Option.isSome_none, Option.isSome_eq_false_iff,
      Option.isNone_iff_eq_none] at given
    have free : id ∉ f.cells := fun own => (hidden id own).unnamed name means
    rw [given, Option.none_or, value?, means, Option.bind_some, assigned?, assigned?,
      (s.afterCalls_storeAll f.cells args).cells id free]

/-- A parameter that is read inside of a block. -/
theorem assigned?_parameter_sum : ∃ (s : Session) (f : UserFunction) (t : Token) (id : CellId),
    (Session.start {} ⟨1, 1⟩).Becomes s ∧ s.functions[0]? = some f ∧ t ∈ f.body ∧
      s.Encloses t ["j"] (.variable (some id) "x") ∧
      (s.storeAll f.cells [.real 5]).assigned? id = some (.real 5) := by
  let s := (Session.start {} ⟨1, 1⟩).after (.read "f(x) = $sum{x*j @ j = 1 : 3}")
  have becomes : (Session.start {} ⟨1, 1⟩).Becomes s := .request _ .start
  have defined : (s.functions[0]?.any fun f => f.parameters.map Prod.fst == ["x"] &&
      f.body.any fun t => t.blockIndex? == some 0) = true := by decide +kernel
  have nested : (s.blocks[0]?.any fun b => b.unknownName == "j" &&
      b.boundTokens.any fun t => t.cell?.isSome && t.content == "x") = true := by decide +kernel
  obtain ⟨f, found, defined⟩ := (Option.any_eq_true _ _).1 defined
  obtain ⟨names, block⟩ := Bool.and_eq_true_iff.1 defined
  obtain ⟨t, within, block⟩ := List.any_eq_true.1 block
  obtain ⟨b, stands, nested⟩ := (Option.any_eq_true _ _).1 nested
  obtain ⟨unknown, inside⟩ := Bool.and_eq_true_iff.1 nested
  obtain ⟨u, inside, reads⟩ := List.any_eq_true.1 inside
  obtain ⟨hasCell, content⟩ := Bool.and_eq_true_iff.1 reads
  rw [beq_iff_eq] at names block unknown content
  have one : f.parameters.length = 1 := by rw [← List.length_map Prod.fst, names]; rfl
  cases t with
  | block i name =>
    cases block
    cases u with
    | «variable» cell name' =>
      cases content
      have encloses : s.Encloses (.block 0 name) ["j"] (.variable cell "x") :=
        unknown ▸ .part stands (.inl inside) (.self _)
      have enough : [(.real 5 : Value)].length = f.parameters.length := one.symm
      obtain ⟨id, rfl, value⟩ := becomes.assigned?_parameter found enough within encloses
        (by decide)
      refine ⟨s, f, _, id, becomes, found, within, encloses, ?_⟩
      rw [value, names]
      rfl
    | _ => cases hasCell
  | _ => cases block

end Session

end UnitCalc

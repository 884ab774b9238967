/-
# Evaluation and the wiring

Evaluation changes values and what is kept, and nothing of the wiring. The calls and blocks that
a body enters are those that its text enters, so two ways to evaluate calls that match on
these match on the body too. Unless it is lenient, a match says as well that nothing is missing.

## Main definitions

* `Calls.Match P lenient callee`: two ways to evaluate calls match on the functions and blocks of
  `callee`.
* `Session.Stays`: the evaluation of functions stays in some sessions.

## Main results

* `SessionM.matches_evaluateCall`, `SessionM.matches_evaluateBlock`: a function or a block depends
  on what it enters only.
* `Postfix.matches_run`: programs keep the wiring, and depend on calls only through their values.
* `SessionM.matches_runStatement`, `SessionM.matches_call`: statements and formulas keep the wiring,
  and miss nothing as long as what they enter misses nothing.
-/

import UnitCalc.Proofs.Method.Matching
import UnitCalc.Proofs.Session.Evolution

namespace UnitCalc

open Relation (ReflTransGen)
open SessionM

/-- Two ways to evaluate calls and blocks match on some functions and blocks. -/
structure Calls.Match (P : Session → Prop) (lenient : Prop) (callee : Entry → Prop)
    (calls calls' : Calls) : Prop where
  function : ∀ index args, callee (.call index args.length) →
    Matches P lenient (calls.function index args) (calls'.function index args)
  block : ∀ index, callee (.block index) →
    Matches P lenient (calls.block index) (calls'.block index)

/-- Assignments stay in the sessions of `P`. -/
structure Session.Writes (P : Session → Prop) : Prop where
  assign : ∀ s id value, P s → P (s.assign id value)
  defineUnit : ∀ s s' name value, P s → s.defineUnit name value = .ok s' → P s'

/-- The evaluation of functions stays in the sessions of `P`: steps that change no cell and no unit
do, and so does storing arguments. Functions do not assign, unless this stays in `P` too. -/
structure Session.Stays (s₀ : Session) (P : Session → Prop) : Prop where
  evolves : ∀ s, P s → s₀.Evolves s
  quiet : ∀ s s', P s → s.EvalStep s' → s'.cells = s.cells → s'.units = s.units → P s'
  arguments : ∀ s s' (i : Nat) (f : UserFunction) args, P s → s.functions[i]? = some f → P s' →
    P (s'.storeAll f.cells args)
  codes : ∀ s i code, P s → code ∈ s.codesOf (.function i) ∨ s.Compiles (.function i) code →
    code.IsPure ∨ Session.Writes P

/-- Drawing a random number is quiet. -/
theorem Session.Stays.draws {s₀ s : Session} {P : Session → Prop} (stays : s₀.Stays P)
    (holds : P s) : P { s with random := s.random.advance } :=
  stays.quiet s _ holds (.other rfl rfl rfl rfl rfl) rfl rfl

variable {s₀ : Session} {P : Session → Prop} {lenient : Prop} {calls calls' : Calls}
  {callee : Entry → Prop} {index : Nat}

/-- All evaluation stays in the sessions of `P`, also that of blocks: whatever changes no unit does,
and so does the definition of units. -/
structure Session.Through (s₀ : Session) (P : Session → Prop) : Prop where
  evolves : ∀ s, P s → s₀.Evolves s
  follows : ∀ s s', P s → s.Evolves s' → s'.units = s.units → P s'
  defineUnit : ∀ s s' name value, P s → s.defineUnit name value = .ok s' → P s'

theorem Session.Through.writes (through : s₀.Through P) : Session.Writes P where
  assign s id value holds :=
    through.follows s _ holds (s.evolves_assign id value) (s.afterCalls_assign id value).units
  defineUnit := through.defineUnit

theorem Session.Through.stays (through : s₀.Through P) : s₀.Stays P where
  evolves := through.evolves
  quiet s s' holds step _ units := through.follows s s' holds (.single step) units
  arguments _ s' _ f args _ _ holds' :=
    through.follows s' _ holds' (s'.evolves_storeAll f.cells args)
      (Session.afterCalls_storeAll _ _).units
  codes _ _ _ _ _ := .inr through.writes

/-- Whatever is evaluated, a session evolves. -/
theorem Session.through_evolves (s₀ : Session) : s₀.Through s₀.Evolves where
  evolves _ := id
  follows _ _ evolves evolves' _ := evolves.trans evolves'
  defineUnit s s' name value evolves defined := by
    have finds : Finds True s.Evolves (s.defineUnit name value) := s.finds_defineUnit name value
    exact evolves.trans (finds.of_ok defined)

theorem Session.writes_evolves (s₀ : Session) : Session.Writes s₀.Evolves :=
  s₀.through_evolves.writes

theorem Session.stays_evolves (s₀ : Session) : s₀.Stays s₀.Evolves :=
  s₀.through_evolves.stays

namespace SessionM

theorem matches_checkCancelled :
    Matches P lenient checkCancelled checkCancelled :=
  .get_bind fun _ _ => .ite (.throw nofun) (.pure _)

/-- Drawing a random number is all that a function does to the session. -/
theorem matches_applyFunction
    (draws : ∀ s, P s → P { s with random := s.random.advance }) (f : Function) (a : Value) :
    Matches P lenient (applyFunction f a) (applyFunction f a) := by
  refine .bind (.read fun s => (s.calculator.operates_function f a).finds) fun result => ?_
  exact .ite (.bind (.modify draws) fun _ => .pure result) (.pure result)

theorem matches_applyOperator (o : Operator) (a b : Value) :
    Matches P lenient (applyOperator o a b) (applyOperator o a b) :=
  .read fun s => (s.calculator.operates_operator o a b).finds

theorem matches_applyBinaryFunction (f : BinaryFunction) (a b : Value) :
    Matches P lenient (applyBinaryFunction f a b) (applyBinaryFunction f a b) :=
  .read fun s => (s.calculator.operates_binaryFunction f a b).finds

theorem matches_applyMultiFunction (f : MultiFunction) (args : List Value) :
    Matches P lenient (applyMultiFunction f args) (applyMultiFunction f args) :=
  .read fun s => (s.calculator.operates_multiFunction f args).finds

theorem matches_unitValue (name : String) :
    Matches P lenient (unitValue name) (unitValue name) := by
  refine .get_bind fun s _ => ?_
  split
  · exact .pure _
  · exact .throw nofun

theorem matches_assign (writes : Session.Writes P) (id : CellId) (value : Value) :
    Matches P lenient (modify fun s => s.assign id value : SessionM Unit)
      (modify fun s => s.assign id value) :=
  .modify fun s => writes.assign s id value

theorem matches_defineUnit (writes : Session.Writes P) (name : String) (value : Value) :
    Matches P lenient (defineUnit name value) (defineUnit name value) := by
  intro s holds
  have finds : Finds lenient s.Evolves (s.defineUnit name value) := s.finds_defineUnit name value
  refine ⟨rfl, ?_⟩
  unfold defineUnit
  cases defined : s.defineUnit name value with
  | error e =>
    rw [defined] at finds
    rw [outcome_bind_error (by rw [outcome_read, defined])]
    exact ⟨holds, finds⟩
  | ok s' =>
    rw [outcome_bind_ok (by rw [outcome_read, defined])]
    exact ⟨writes.defineUnit s s' name value holds defined, trivial⟩

theorem matches_applyTarget (value : Value) (unit : Option ValueUnit) :
    Matches P lenient (ofExcept (value.applyTarget unit) : SessionM Value)
      (ofExcept (value.applyTarget unit)) :=
  .result (value.operates_applyTarget unit).finds

end SessionM

namespace Code

variable {code : Code}

theorem matches_runAll {args : List Code}
    (each : ∀ a ∈ args, Matches P lenient (a.run calls) (a.run calls')) :
    Matches P lenient (runAll calls args) (runAll calls' args) := by
  induction args with
  | nil =>
    rw [runAll, runAll]
    exact .pure []
  | cons a args ih =>
    rw [List.forall_mem_cons] at each
    rw [runAll, runAll]
    exact each.1.bind fun value => (ih each.2).bind fun values => .pure _

/-- There are as many values as codes. -/
theorem length_runAll {args : List Code} {values : List Value} {s : Session}
    (ended : (outcome (runAll calls args) s).1 = .ok values) : values.length = args.length := by
  induction args generalizing s values with
  | nil =>
    rw [runAll] at ended
    cases ended
    rfl
  | cons a args ih =>
    rw [runAll] at ended
    obtain ⟨value, s', -, rest⟩ := exists_of_bind_ok (Prod.ext ended rfl)
    obtain ⟨values', s'', all, last⟩ := exists_of_bind_ok rest
    cases last
    rw [List.length_cons, List.length_cons, ih (congrArg Prod.fst all)]

/-- Code depends on the calls that it makes. Unless it assigns nothing, assignments have to stay in
`P`. -/
theorem Enters.matches_run (stays : s₀.Stays P) (agree : calls.Match P lenient callee calls')
    (enters : code.Enters callee) (writes : code.IsPure ∨ Session.Writes P) :
    Matches P lenient (code.run calls) (code.run calls') := by
  -- The induction is on the code. Both runs go through the same steps, except in calls and blocks.
  -- Operands of pure code are pure.
  induction enters with
  | const value =>
    rw [run, run]
    exact .pure value
  | read cell name =>
    rw [run, run]
    refine .get_bind fun s _ => ?_
    split
    · exact .pure _
    · exact matches_unitValue name
  | assign cell _ ih =>
    have writes := writes.resolve_left fun pure => by cases pure
    rw [run, run]
    exact (ih (.inr writes)).bind fun value =>
      .bind (SessionM.matches_assign writes cell value) fun _ => .pure value
  | defineUnit name _ ih =>
    have writes := writes.resolve_left fun pure => by cases pure
    rw [run, run]
    exact (ih (.inr writes)).bind fun value =>
      .bind (matches_defineUnit writes name value) fun _ => .pure value
  | function f _ ih =>
    rw [run, run]
    refine (ih (writes.imp_left IsPure.of_function)).bind fun a => ?_
    exact matches_applyFunction (fun _ => stays.draws) f a
  | operator o _ _ ih ih' =>
    rw [run, run]
    refine (ih (writes.imp_left fun pure => pure.of_operator.1)).bind fun a => ?_
    refine (ih' (writes.imp_left fun pure => pure.of_operator.2)).bind fun b => ?_
    exact matches_applyOperator o a b
  | binaryFunction f _ _ ih ih' =>
    rw [run, run]
    refine (ih (writes.imp_left fun pure => pure.of_binaryFunction.1)).bind fun a => ?_
    refine (ih' (writes.imp_left fun pure => pure.of_binaryFunction.2)).bind fun b => ?_
    exact matches_applyBinaryFunction f a b
  | conditional _ _ _ ih ih' ih'' =>
    rw [run, run]
    refine (ih (writes.imp_left fun pure => pure.of_conditional.1)).bind fun condition => ?_
    exact .ite (ih'' (writes.imp_left fun pure => pure.of_conditional.2.2))
      (ih' (writes.imp_left fun pure => pure.of_conditional.2.1))
  | multiFunction f _ ih =>
    rw [run, run]
    have all := fun a within =>
      ih a within (writes.imp_left fun pure => pure.of_multiFunction a within)
    exact (matches_runAll all).bind fun args => matches_applyMultiFunction f args
  | call known _ ih =>
    rw [run, run]
    have all := fun a within => ih a within (writes.imp_left fun pure => pure.of_call a within)
    refine (matches_runAll all).bind_of (fun s _ values => length_runAll) fun values same => ?_
    rw [← same] at known
    exact agree.function _ values known
  | block known =>
    rw [run, run]
    exact agree.block _ known

end Code

namespace Block

variable (b : Block) {c : Compilation}

/-- What holds of the codes of all programs of a block holds of the codes of its parts. -/
theorem finds_compile {P : Code → Prop} (part : ∀ {program : List Token}, program ⊆ b.tokens →
      Finds lenient P (Code.ofPostfix c program)) :
    Finds lenient (fun code => ∀ part ∈ code.parts, P part) (b.compile c) := by
  -- Two of the four parts of a block may be missing.
  have optional : ∀ {p : Option Part}, (∀ q ∈ p, q.program ⊆ b.tokens) →
      Finds lenient (fun code => ∀ part ∈ code.toList, P part)
        (p.mapM fun q => Code.ofPostfix c q.program) := by
    intro p inside
    cases p with
    | none => exact List.forall_mem_nil _
    | some q =>
      rw [Option.mapM_some]
      exact (part (inside q rfl)).map fun code holds => List.forall_mem_singleton.2 holds
  refine (part ?_).bind fun objective first => (part ?_).bind fun lower second =>
    (optional ?_).bind fun upper third => (optional ?_).bind fun equation fourth => ?_
  · intro t within
    simp [tokens, within]
  · intro t within
    simp [tokens, within]
  · intro q bound t within
    simp [tokens, Option.mem_def.1 bound, within]
  · intro q bound t within
    simp [tokens, Option.mem_def.1 bound, within]
  · exact List.forall_mem_cons.2 ⟨first, List.forall_mem_cons.2
      ⟨second, List.forall_mem_append.2 ⟨third, fourth⟩⟩⟩

theorem finds_alignedBound (lower upper : Value) :
    Finds lenient (fun _ => True) (b.alignedBound lower upper) := by
  unfold alignedBound
  split
  · trivial
  · exact nofun

theorem finds_alignedTarget (unit : Option ValueUnit) (first second : Value) :
    Finds lenient (fun _ => True) (b.alignedTarget unit first second) := by
  unfold alignedTarget
  dsimp only
  split
  · exact nofun
  · split
    · trivial
    · exact nofun

end Block

/-- In the words of a block an error is about something missing only if it was before. -/
theorem CalcError.isMissing_inBlock {e : CalcError} {objective unknown : String}
    (missing : (e.inBlock objective unknown).isMissing = true) : e.isMissing = true := by
  unfold inBlock at missing
  dsimp only at missing
  split at missing
  · cases missing
  · exact missing

namespace SessionM

variable {f : UserFunction} {b : Block}

/-- What is compiled and then kept. -/
theorem matches_compiled {γ : Type} {Q : γ → Prop}
    {compile : Session → Except CalcError γ} (keep : γ → Session → Session)
    (compiled : ∀ s, Finds lenient Q (compile s)) (survives : ∀ s c, P s → Q c → P (keep c s)) :
    let action : SessionM γ := do
      let c ← read compile
      modify (keep c)
      return c
    Matches P lenient action action ∧ ∀ s c, (outcome action s).1 = .ok c → Q c := by
  intro action
  have read : ∀ s, outcome (SessionM.read compile) s = (compile s, s) := outcome_read _
  refine ⟨.bind_of (.read fun s => (compiled s).mono fun _ _ => trivial) (fun s _ c made => ?_)
    fun c holds => .bind (.modify fun s inside => survives s c inside holds) fun _ => .pure c, ?_⟩
  · rw [read] at made
    exact (compiled s).of_ok made
  · intro s c ended
    obtain ⟨c', s', made, kept⟩ := exists_of_bind_ok (Prod.ext ended rfl)
    rw [read] at made
    cases congrArg Prod.fst kept
    exact (compiled s).of_ok (congrArg Prod.fst made)

/-! ## Functions -/

/-- The code of a function that is not refused enters what the function may enter, and assigns
nothing unless this stays in `P`. -/
theorem matches_functionCode {s : Session} (stays : s₀.Stays P)
    (confined : s₀.Confined lenient callee (.function index)) (holds : P s)
    (found : s.functions[index]? = some f) (closed : f.isCircular = false) :
    Matches P lenient (functionCode index f) (functionCode index f) ∧
      ∀ s code, (outcome (functionCode index f) s).1 = .ok code →
        code.Enters callee ∧ (code.IsPure ∨ Session.Writes P) := by
  have evolves := stays.evolves s holds
  have here := confined.evolves evolves
  have open_ : s.isRefused (.function index) = false := by
    rw [Session.isRefused, found, Option.elim_some, closed]
  have body : f.body = s.tokensOf (.function index) := by
    rw [Session.tokensOf, found, Option.elim_some]
  unfold functionCode
  cases code : f.code with
  | some code' =>
    refine ⟨.pure code', fun s' code'' same => ?_⟩
    cases same
    have kept : code' ∈ s.codesOf (.function index) := by
      rw [Session.codesOf_function_eq found, code]
      exact List.mem_singleton_self code'
    exact ⟨here.codes open_ code' kept, stays.codes s index code' holds (.inl kept)⟩
  | none =>
    have compiled : ∀ s' : Session, Finds lenient (s.Compiles (.function index))
        (Code.ofPostfix s'.compilation f.body) := fun s' =>
      here.finds open_ (fun t within => body ▸ within) s'.compilation
    have made := matches_compiled (P := P)
      (fun code s => s.modifyFunction index fun f => { f with code := some code })
      compiled fun s' code holds' compiles => ?_
    · refine ⟨made.1, fun s' code ended => ?_⟩
      have compiles := made.2 s' code ended
      exact ⟨compiles.enters.mono (here.entries open_),
        stays.codes s index code holds (.inr compiles)⟩
    · -- the function is still the one whose body was compiled
      have same := evolves.runsTo.toSameWiring.symm.trans
        (stays.evolves s' holds').runsTo.toSameWiring
      refine stays.quiet s' _ holds' (.keepCode ?_ ?_) rfl rfl
      · rw [same.isRefused_eq, open_]
      · rwa [Session.Compiles, same.tokensOf_eq]

/-- A call depends on what its function enters. -/
theorem matches_evaluateCall (stays : s₀.Stays P)
    (confined : s₀.Confined lenient callee (.function index))
    (agree : calls.Match P lenient callee calls') (args : List Value) :
    Matches P lenient (evaluateCall calls index args) (evaluateCall calls' index args) := by
  refine .get_bind fun s holds => ?_
  have evolves := stays.evolves s holds
  split
  · next absent =>
    refine .throw fun _ => (confined.evolves evolves).known.resolve_left fun known => ?_
    have outside := Array.getElem?_eq_none_iff.1 absent
    exact absurd (Session.mem_dependents_iff.1 known) (Nat.not_lt.2 outside)
  · next f found =>
    dsimp only
    split
    · exact .pure _
    next closed =>
    rw [Bool.not_eq_true] at closed
    have counted : ∀ {g : UserFunction → UserFunction}, (∀ f, (g f).bare = f.bare) →
        (∀ f, (g f).code = f.code) → (∀ f, (g f).results = f.results) → ∀ s', P s' →
        P (s'.modifyFunction index g) := fun bare code results s' holds' =>
      stays.quiet s' _ holds' (.count bare code fun f _ _ => results f) rfl rfl
    refine .bind matches_checkCancelled fun _ => .guard nofun ?_
    split
    · exact .bind (.modify (counted (fun _ => rfl) (fun _ => rfl) fun _ => rfl)) fun _ => .pure _
    · refine .bind (.modify (counted (fun _ => rfl) (fun _ => rfl) fun _ => rfl)) fun _ => ?_
      refine .bind ?_ fun result => .bind (.modify fun s' holds' => ?_) fun _ => .pure _
      · -- the body is evaluated
        obtain ⟨same, leads⟩ := matches_functionCode stays confined holds found closed
        refine .bind (.modify fun s' => stays.arguments s s' index f args holds found) fun _ => ?_
        refine .bind_of same (fun s' _ code => leads s' code) fun code told => ?_
        exact .bind (told.1.matches_run stays agree told.2) fun value =>
          matches_applyTarget value f.unit
      · refine stays.quiet s' _ holds' (.count (fun f => f.bare_keep args result)
          (fun f => f.code_keep args result) fun g found' refused => ?_) rfl rfl
        -- the function is still not refused
        obtain ⟨g', found'', same⟩ := (evolves.runsTo.toSameWiring.symm.trans
          (stays.evolves s' holds').runsTo.toSameWiring).exists_function found
        cases found'.symm.trans found''
        rw [(UserFunction.eq_of_bare same).2.2.2, closed] at refused
        cases refused

/-! ## Blocks -/

/-- The code of a block enters what the block may enter. -/
theorem matches_blockCode {s : Session} (through : s₀.Through P)
    (confined : s₀.Confined lenient callee (.block index)) (holds : P s)
    (found : s.blocks[index]? = some b) :
    Matches P lenient (blockCode index b) (blockCode index b) ∧
      ∀ s code, (outcome (blockCode index b) s).1 = .ok code →
        ∀ part ∈ code.parts, part.Enters callee := by
  have evolves := through.evolves s holds
  have here := confined.evolves evolves
  have tokens : b.tokens = s.tokensOf (.block index) := by
    rw [Session.tokensOf, found, Option.elim_some]
  unfold blockCode
  cases code : b.code with
  | some code' =>
    refine ⟨.pure code', fun s' code'' same part member => ?_⟩
    cases same
    refine here.codes rfl part ?_
    rw [Session.codesOf_block_eq found, code]
    exact member
  | none =>
    have compiled : ∀ s' : Session, Finds lenient (fun code : BlockCode => ∀ part ∈ code.parts,
        s.Compiles (.block index) part) (b.compile s'.compilation) := fun s' =>
      b.finds_compile fun inside => here.finds rfl (tokens ▸ inside) s'.compilation
    have made := matches_compiled (P := P)
      (fun code s => s.modifyBlock index fun b => { b with code := some code })
      compiled fun s' code holds' compiles => ?_
    · exact ⟨made.1, fun s' code ended part member =>
        (made.2 s' code ended part member).enters.mono (here.entries rfl)⟩
    · -- the block is still the one whose parts were compiled
      have same := evolves.runsTo.toSameWiring.symm.trans
        (through.evolves s' holds').runsTo.toSameWiring
      refine through.follows s' _ holds' (.single (.keepBlockCode fun part member => ?_)) rfl
      rw [Session.Compiles, same.tokensOf_eq]
      exact compiles part member

theorem matches_setUnknown (through : s₀.Through P) (b : Block) (x : Float)
    (unit : Option ValueUnit) :
    Matches P lenient (setUnknown b x unit) (setUnknown b x unit) :=
  .modify fun s holds => through.follows s _ holds (.single (.store s _ _)) rfl

section Parts

variable {code : BlockCode} (through : s₀.Through P) (agree : calls.Match P lenient callee calls')
  (enters : ∀ part ∈ code.parts, part.Enters callee)

include through agree enters

theorem matches_part {part : Code} (member : part ∈ code.parts) :
    Matches P lenient (part.run calls) (part.run calls') :=
  (enters part member).matches_run through.stays agree (.inr through.writes)

theorem matches_blockBounds (b : Block) :
    Matches P lenient (blockBounds calls b code) (blockBounds calls' b code) := by
  have lower :=
    matches_part through agree enters (show code.lower ∈ code.parts by simp [BlockCode.parts])
  unfold blockBounds
  cases bound : code.upper with
  | none => exact lower.bind fun value => .pure _
  | some part =>
    have upper :=
      matches_part through agree enters (show part ∈ code.parts by simp [BlockCode.parts, bound])
    refine lower.bind fun value => upper.bind fun value' => .bind (.result ?_) fun _ => .pure _
    exact b.finds_alignedBound value value'

theorem matches_blockTarget (b : Block) (lower upper : Value) :
    Matches P lenient (blockTarget calls b code lower upper)
      (blockTarget calls' b code lower upper) := by
  have objective :=
    matches_part through agree enters (show code.objective ∈ code.parts by simp [BlockCode.parts])
  unfold blockTarget
  split
  · next part _ side =>
    have equation :=
      matches_part through agree enters (show part ∈ code.parts by simp [BlockCode.parts, side])
    refine objective.bind fun value => equation.bind fun first => ?_
    refine .bind (matches_setUnknown through b _ _) fun _ => equation.bind fun second => ?_
    refine .bind (matches_setUnknown through b _ _) fun _ => .result ?_
    exact b.finds_alignedTarget _ first second
  · exact .pure 0

/-- The objective of a block, as its method evaluates it. -/
theorem matches_objective (b : Block) (unit : Option ValueUnit) (x : Float) :
    Matches P lenient
      (do checkCancelled; setUnknown b x unit; code.objective.run calls)
      (do checkCancelled; setUnknown b x unit; code.objective.run calls') := by
  have objective :=
    matches_part through agree enters (show code.objective ∈ code.parts by simp [BlockCode.parts])
  refine .bind matches_checkCancelled fun _ => ?_
  exact .bind (matches_setUnknown through b x unit) fun _ => objective

end Parts

/-- A block depends on what it enters. -/
theorem matches_evaluateBlock (through : s₀.Through P)
    (confined : s₀.Confined lenient callee (.block index))
    (agree : calls.Match P lenient callee calls') :
    Matches P lenient (evaluateBlock calls index) (evaluateBlock calls' index) := by
  refine .get_bind fun s holds => ?_
  split
  · next absent =>
    have evolves := through.evolves s holds
    refine .throw fun _ => (confined.evolves evolves).known.resolve_left fun known => ?_
    have outside := Array.getElem?_eq_none_iff.1 absent
    exact absurd (Session.mem_dependents_iff.1 known) (Nat.not_lt.2 outside)
  · next b found =>
    obtain ⟨same, leads⟩ := matches_blockCode through confined holds found
    refine .bind matches_checkCancelled fun _ => .bind_of same (fun s' _ code => leads s' code) ?_
    intro code enters
    refine .bind (matches_blockBounds through agree enters b) fun bounds => ?_
    refine .bind (matches_setUnknown through b _ _) fun _ => ?_
    refine .bind (matches_blockTarget through agree enters b _ _) fun target => ?_
    simp only [blockProblem, bind_assoc, pure_bind]
    refine .get_bind fun s' _ => ?_
    -- The method only runs the objective, so it cannot tell both apart either.
    have computed := b.method.compute_matches
      ⟨fun x => do checkCancelled; setUnknown b x bounds.1.unit; code.objective.run calls,
        s'.settings.complex, bounds.1.unit, s'.precision⟩
      (matches_objective through agree enters b bounds.1.unit) bounds.1.re bounds.2.re target none
    have worded := fun (e : CalcError) (known : e.isMissing = true → lenient) =>
      Matches.throw (P := P) (α := Complex Float × Option ValueUnit)
        fun (missing : (e.inBlock b.objective.text b.unknownName).isMissing = true) =>
          known (CalcError.isMissing_inBlock missing)
    refine .bind (.tryCatch computed worded) fun answer => ?_
    have checked : Matches P lenient
        (get >>= fun s' : Session => if (answer.1.re.isNaN && !s'.isPlotting) = true then do
            throw (CalcError.noSolution b.text)
            return ({ num := answer.1, unit := answer.2 } : Value)
          else return { num := answer.1, unit := answer.2 })
        (get >>= fun s' : Session => if (answer.1.re.isNaN && !s'.isPlotting) = true then do
            throw (CalcError.noSolution b.text)
            return ({ num := answer.1, unit := answer.2 } : Value)
          else return { num := answer.1, unit := answer.2 }) :=
      .get_bind fun _ _ => .ite (.bind (.throw fun missing => by cases missing) fun _ => .pure _)
        (.pure _)
    split
    · next id _ =>
      exact .bind (.modify fun s' holds' => through.writes.assign s' _ _ holds') fun _ => checked
    · exact checked

end SessionM

namespace Postfix

variable {m : Machine} {program : List Token} {target : Option Token}
  {unit : Option ValueUnit}

/-! ## Programs -/

theorem matches_push (stack : List Value) (value : Value) :
    Matches P lenient (m.push stack value) (m.push stack value) :=
  .ite (.pure _) (.throw nofun)

theorem matches_readVariable (cell : Option CellId) (name : String) :
    Matches P lenient (readVariable cell name) (readVariable cell name) := by
  refine .get_bind fun s _ => ?_
  split
  · exact .pure _
  · exact .bind (matches_unitValue name) fun _ => .pure _

/-- A step depends on the call or the block of its token. -/
theorem matches_step (draws : ∀ s, P s → P { s with random := s.random.advance })
    (agree : calls.Match P lenient callee calls') (m : Machine) {t : Token}
    (known : ∀ e ∈ t.entry?, callee e) (defined : t.isForward = true → lenient) :
    Matches P lenient (step calls m t) (step calls' m t) := by
  cases t with
  | constant value text | unit value text =>
    cases value with
    | none => exact .throw nofun
    | some x => exact matches_push _ _
  | input value =>
    cases value with
    | none => exact .throw nofun
    | some x => exact matches_push _ _
  | «variable» cell name => exact .bind (matches_readVariable cell name) fun _ => matches_push _ _
  | negation | factorial | function =>
    simp only [step]
    split
    · exact .bind (matches_applyFunction draws _ _) fun _ => matches_push _ _
    · exact .throw nofun
  | operator =>
    simp only [step]
    split
    · exact .bind (matches_applyOperator _ _ _) fun _ => matches_push _ _
    · exact .throw nofun
  | binaryFunction =>
    simp only [step]
    split
    · exact .bind (matches_applyBinaryFunction _ _ _) fun _ => matches_push _ _
    · exact .throw nofun
  | conditional =>
    simp only [step]
    split
    · exact matches_push _ _
    · exact .throw nofun
  | multiFunction name count =>
    exact .ite (.bind (matches_applyMultiFunction _ _) fun _ => matches_push _ _) (.throw nofun)
  | call index name count =>
    cases index with
    | none => exact .throw fun _ => defined rfl
    | some index =>
      simp only [step]
      split
      · next enough =>
        -- as many values are taken as the token counts
        have length : (m.stack.take count).reverse.length = count := by
          rw [List.length_reverse, List.length_take_of_le enough]
        refine .bind (agree.function index _ ?_) fun _ => matches_push _ _
        rw [length]
        exact known _ rfl
      · exact .throw nofun
  | block index name => exact .bind (agree.block index (known _ rfl)) fun _ => matches_push _ _
  | blank | openBracket | closeBracket | separator => exact .throw nofun

theorem matches_assign (writes : Session.Writes P) (target : Token) (m : Machine) (value : Value) :
    Matches P lenient (assign target m value) (assign target m value) := by
  unfold assign
  split
  · exact .get_bind fun s _ => .bind (SessionM.matches_assign writes _ value) fun _ => .pure _
  · exact .bind (matches_defineUnit writes _ _) fun _ => .pure _
  · exact .throw nofun

theorem matches_finish (unit : Option ValueUnit) (m : Machine) :
    Matches P lenient (finish unit m) (finish unit m) := by
  unfold finish
  split
  · exact .bind (matches_applyTarget _ unit) fun _ => .pure _
  · exact .throw nofun
  · exact .throw nofun

theorem matches_runFrom (through : s₀.Through P) (agree : calls.Match P lenient callee calls')
    (known : ∀ t ∈ program, ∀ e ∈ t.entry?, callee e)
    (defined : ∀ t ∈ program, t.isForward = true → lenient) :
    Matches P lenient (runFrom calls target unit m program)
      (runFrom calls' target unit m program) := by
  induction program generalizing m with
  | nil => exact matches_finish unit m
  | cons t rest ih =>
    rw [List.forall_mem_cons] at known defined
    unfold runFrom
    have first := matches_step (fun _ => through.stays.draws) agree m known.1 defined.1
    refine .ite ?_ (.bind first fun _ => ih known.2 defined.2)
    split
    · exact .bind (matches_applyTarget _ unit) fun value =>
        matches_assign through.writes _ m value
    · exact .throw nofun
    · exact .throw nofun

/-- A program depends on the calls and blocks that its tokens enter. -/
theorem matches_run (through : s₀.Through P) (agree : calls.Match P lenient callee calls')
    (known : ∀ t ∈ program, ∀ e ∈ t.entry?, callee e)
    (defined : ∀ t ∈ program, t.isForward = true → lenient) :
    Matches P lenient (run calls program unit) (run calls' program unit) := by
  unfold run
  refine .bind matches_checkCancelled fun _ => ?_
  split
  · exact .throw nofun
  · exact matches_runFrom through agree known defined
  · rw [List.forall_mem_cons] at known defined
    exact matches_runFrom through agree known.2 defined.2

end Postfix

/-! ## Requests -/

/-- Everything is confined to everything. -/
theorem Session.confined_all (s : Session) (d : Dependent) : s.Confined True (fun _ => True) d :=
  ⟨.inr trivial, fun _ _ _ => trivial, fun _ _ _ _ => trivial, fun _ code _ => code.enters_all⟩

variable (through : s₀.Through P)
  (closed : ∀ e, callee e → s₀.Confined lenient callee e.dependent)

include through closed

/-- Calls match on functions and blocks that enter each other only, however deeply they are
nested. -/
theorem Calls.match_ofDepth (depth : Nat) :
    (ofDepth depth).Match P lenient callee (ofDepth depth) := by
  induction depth with
  | zero => exact ⟨fun _ _ _ => .throw nofun, fun _ _ => .throw nofun⟩
  | succ depth ih =>
    exact ⟨fun index args known => matches_evaluateCall through.stays (closed _ known) ih args,
      fun index known => matches_evaluateBlock through (closed _ known) ih⟩

namespace SessionM

theorem matches_runProgram {program : List Token} (known : ∀ t ∈ program, ∀ e ∈ t.entry?, callee e)
    (defined : ∀ t ∈ program, t.isForward = true → lenient) (unit : Option ValueUnit) :
    Matches P lenient (runProgram program unit) (runProgram program unit) := by
  refine .bind (.modify fun s holds => ?_) fun _ => ?_
  · exact through.follows s _ holds (.single (.other rfl rfl rfl rfl rfl)) rfl
  refine .get_bind fun s _ => .tryCatch ?_ fun e missing => ?_
  · exact Postfix.matches_run through (Calls.match_ofDepth through closed _) known defined
  · -- a cancelled run takes the cancellation back
    refine .ite (.bind (.modify fun s holds => ?_) fun _ => .throw missing) (.throw missing)
    exact through.follows s _ holds (.single (.other rfl rfl rfl rfl rfl)) rfl

theorem matches_runStatement {statement : Statement}
    (known : statement.isDefinition = false → ∀ t ∈ statement.program, ∀ e ∈ t.entry?, callee e)
    (defined : statement.isDefinition = false →
      ∀ t ∈ statement.program, t.isForward = true → lenient) :
    Matches P lenient (runStatement statement) (runStatement statement) := by
  refine .get_bind fun _ _ => .guard nofun ?_
  split
  · exact .pure _
  · next plain =>
    rw [Bool.not_eq_true] at plain
    exact matches_runProgram through closed (known plain) (defined plain) _

/-- A formula enters what its code enters. -/
theorem matches_call {e : Formula} (enters : e.code.Enters callee) (args : List Value) :
    Matches P lenient (e.call args) (e.call args) := by
  unfold Formula.call
  dsimp only
  refine .guard nofun (.bind (.modify fun s holds => ?_) fun _ => ?_)
  · exact through.follows s _ holds (s.evolves_storeAll _ args)
      (Session.afterCalls_storeAll _ _).units
  · refine .get_bind fun s _ => .bind ?_ fun value => matches_applyTarget value e.unit
    refine enters.matches_run through.stays ?_ (.inr through.writes)
    exact Calls.match_ofDepth through closed _

end SessionM

end UnitCalc

/-
# Invalidation

A session answers requests: it reads statements, runs them, assigns values, compiles formulas and
calls them, and it is cleared. All sessions that occur, also while a request is answered, are
informed. So whenever a variable is assigned, and whenever a function is defined anew, all that
depends on it keeps no result and no code.

## Main definitions

* `Request`, `Session.after`: what sessions are asked, and the session behind an answer.
* `Session.Occurs`: the sessions that occur.
* `Session.Advances`: what a session becomes that is not cleared.
* `Session.Replaced`: functions were defined anew, and nothing is kept that leads to them.

## Main results

* `Session.Informed.advances`: requests lead on by steps of reading and by definitions.
* `Session.Informed.after`: requests leave sessions informed.
* `Session.Occurs.keepsNothing_of_change`: after a change, what depends on it keeps nothing.
-/

import UnitCalc.Proofs.Session.Evaluating
import UnitCalc.Proofs.Statement.Parsed

namespace UnitCalc

open Relation (ReflTransGen)
open SessionM

/-- What a session can be asked. -/
inductive Request where
  | read (text : String)
  | run (statement : Statement)
  | assign (name : String) (value : Value)
  | compile (text : String) (names : List String)
  | call (e : Formula) (args : List Value)
  | clear

namespace Session

variable {s s' s'' : Session} {d : Dependent} {i : Nat}

/-- The session behind the answer to a request, which may be an error. -/
def after (s : Session) : Request → Session
  | .read text => (outcome (parse text) s).2
  | .run statement => (outcome (runStatement statement) s).2
  | .assign name value => s.setValue name value
  | .compile text names => (outcome (SessionM.compile text names) s).2
  | .call e args => (outcome (e.call args) s).2
  | .clear => s.clear

/-- The sessions that occur: behind requests, and while they are answered. Meanwhile values, flags
and what is kept change, cells are made, programs are bound, and blocks are added. -/
inductive Occurs : Session → Prop where
  | start (settings : Settings) (g : StdGen) : Occurs (.start settings g)
  | request {s : Session} (r : Request) (occurs : Occurs s) : Occurs (s.after r)
  | during {s s' : Session} (step : s.ReadStep s') (occurs : Occurs s) : Occurs s'

/-- The session is informed. What a function that was defined anew keeps, and what all that leads
to it keeps, is nothing. -/
structure Replaced (s s' : Session) : Prop where
  informed : s'.Informed
  keepsNothing : ∀ i, s'.definitionOf i ≠ s.definitionOf i →
    s'.KeepsNothing (.function i) ∧
    ∀ d, s'.Reaches (fun t => t.reference? = some (.function i)) d → s'.KeepsNothing d

theorem Replaced.of_reads (reads : s.Reads s') (informed : s.Informed) : s.Replaced s' :=
  ⟨reads.informed informed, fun i changed => absurd (reads.later.definitionOf i) changed⟩

/-- The flag of plotting tells nothing about functions. -/
theorem Replaced.plotting (replaced : s.Replaced s') (isPlotting : Bool) :
    s.Replaced { s' with isPlotting } := by
  have same : s'.RunsTo { s' with isPlotting } := .of_eq rfl rfl rfl rfl rfl
  refine ⟨replaced.informed.runsTo same, fun i changed => ?_⟩
  obtain ⟨own, reaching⟩ := replaced.keepsNothing i changed
  refine ⟨own, fun d reaches => ?_⟩
  have nothing := reaching d (same.symm.reaches reaches)
  cases d <;> exact nothing

theorem Replaced.after_reads (reads : s.Reads s') (replaced : s'.Replaced s'') :
    s.Replaced s'' := by
  refine ⟨replaced.informed, fun i changed => replaced.keepsNothing i ?_⟩
  rwa [reads.later.definitionOf i]

theorem Informed.replaced_settle {f : UserFunction} (informed : s.Informed) (fits : s.Fits f) :
    s.Replaced (s.settle f).2 := by
  obtain ⟨j, informed', others, own, reaching⟩ := informed.keepsNothing_settle fits
  refine ⟨informed', fun i changed => ?_⟩
  by_cases here : i = j
  · subst here
    exact ⟨own, reaching⟩
  · exact absurd (others i here) changed

/-! ## Requests -/

/-- What a session becomes when it is not cleared: steps of reading lead on, and a definition may
come last, whose parameters are new cells. -/
inductive Advances (s : Session) : Session → Prop where
  | read {s' : Session} (reads : s.Reads s') : Advances s s'
  | define {s' : Session} {f : UserFunction} (reads : s.Reads s') (suits : s'.Suits f)
    (fresh : ∀ id ∈ f.cells, s.cells.size ≤ id) (isPlotting : Bool) :
    Advances s { (s'.settle f).2 with isPlotting }

namespace Advances

theorem after_reads (reads : s.Reads s') (advances : s'.Advances s'') : s.Advances s'' := by
  cases advances with
  | read reads' => exact .read (ReflTransGen.trans reads reads')
  | define reads' suits fresh isPlotting =>
    exact .define (ReflTransGen.trans reads reads') suits
      (fun id own => Nat.le_trans reads.later.size (fresh id own)) isPlotting

theorem plotting (advances : s.Advances s') (isPlotting : Bool) :
    s.Advances { s' with isPlotting } := by
  cases advances with
  | read reads => exact .read (reads.tail (.of_eq rfl rfl rfl rfl rfl))
  | define reads suits fresh _ => exact .define reads suits fresh isPlotting

theorem replaced (advances : s.Advances s') (informed : s.Informed) : s.Replaced s' := by
  cases advances with
  | read reads => exact .of_reads reads informed
  | define reads suits _ isPlotting =>
    have settled := (reads.informed informed).replaced_settle suits.toFits
    exact .after_reads reads (settled.plotting isPlotting)

end Advances

/-- A statement that was read is one of the session. -/
theorem advances_of_parsed {e : Except CalcError Statement × Session} (parsed : Parsed 0 s e) :
    s.Advances e.2 ∧ ∀ statement, e.1 = .ok statement →
      HasAll 0 e.2 statement.program ∧ NamesAll e.2 statement.program := by
  cases parsed with
  | read reads has => exact ⟨.read reads.reads, has⟩
  | @define r s₁ f outside reads suits fresh _ defines =>
    refine ⟨.define reads suits fresh (s₁.settle f).2.isPlotting, fun statement made => ?_⟩
    rw [(defines statement made).2]
    exact ⟨List.forall_mem_nil _, List.forall_mem_nil _⟩

theorem Informed.advances_parse (informed : s.Informed) (text : String) :
    s.Advances (outcome (parse text) s).2 ∧ ∀ statement,
      (outcome (parse text) s).1 = .ok statement →
        HasAll 0 (outcome (parse text) s).2 statement.program ∧
          NamesAll (outcome (parse text) s).2 statement.program := by
  have limited : s.Reads s.limitResults := .single (.evolves (.single (.limit s)))
  obtain ⟨advances, has⟩ :=
    advances_of_parsed
      (parsed_parseStatement (limited.informed informed).unsplit text.toList true)
  exact ⟨advances.after_reads limited, has⟩

theorem reads_setValue (s : Session) (name : String) (value : Value) :
    s.Reads (s.setValue name value) :=
  (ReflTransGen.single (.cells (s.extends_cellOf name).1)).tail (.evolves (evolves_assign _ _ _))

/-- The code of a program of the session enters what the session offers. -/
theorem enters_ofPostfix {program : List Token} {c : Compilation} {code : Code}
    (has : HasAll 0 s program) (compiled : Code.ofPostfix c program = .ok code) :
    code.Enters s.Offers := by
  have finds : Finds False (Code.Enters s.Offers) (Code.ofPostfix c program) := by
    refine Code.finds_ofPostfix (fun t within => (has t within).offered) fun t within forward => ?_
    rw [(has t within).defined] at forward
    cases forward
  exact finds.of_ok compiled

/-- What was read is bound to the cells of parameters and compiled. -/
theorem formula_adds (informed : s.Informed) (names : List String) {statement : Statement}
    (has : HasAll 0 s statement.program) :
    Adds (ReadsInPlace 0) s (fun s e => e.code.Enters s.Offers) (do
      let parameters ← modifyGet fun s => s.newParameters names
      let program ← SessionM.bindProgram parameters statement.program
      let code ← SessionM.read fun s => Code.ofPostfix s.compilation program
      return (⟨parameters.map Prod.snd, code, statement.unit⟩ : Formula)) := by
  have cells : Adds (ReadsInPlace 0) s
      (fun s parameters => ∀ id ∈ parameters.map Prod.snd, s.IsPrivate id)
      (modifyGet fun s => s.newParameters names) := by
    refine ⟨Step.inPlace (.cells (s.extends_newParameters names))
      (s.blockDepth_newParameters names) (spares_newParameters 0 informed.toSeparatesNames names),
      fun parameters same => ?_⟩
    cases same
    exact isPrivate_newParameters informed names
  refine ReadsInPlace.growth.bind cells fun s₁ parameters reads₁ hidden => ?_
  have split := reads₁.spares.isSplit informed.unsplit.toIsSplit
  refine ReadsInPlace.growth.bind (bindProgram_adds split hidden (has.mono reads₁.later)) ?_
  refine fun s₂ program reads₂ has₂ => ?_
  refine ReadsInPlace.growth.bind (P := fun s code => Code.Enters s.Offers code)
    (ReadsInPlace.growth.read fun code compiled => enters_ofPostfix has₂ compiled) ?_
  exact fun _ _ _ enters => ReadsInPlace.growth.pure enters

theorem outcome_parsePlotted (text : String) (s : Session) :
    outcome (parsePlotted text) s =
      ((outcome (parseStatement text.toList false) { s with isPlotting := true }).1,
        { (outcome (parseStatement text.toList false) { s with isPlotting := true }).2 with
          isPlotting := s.isPlotting }) :=
  rfl

/-- An expression over named parameters enters what the session offers. -/
theorem Informed.advances_compile (informed : s.Informed) (text : String) (names : List String) :
    s.Advances (outcome (SessionM.compile text names) s).2 ∧ ∀ e,
      (outcome (SessionM.compile text names) s).1 = .ok e →
        e.code.Enters (outcome (SessionM.compile text names) s).2.Offers := by
  have enter : s.Reads { s with isPlotting := true } := .single (.of_eq rfl rfl rfl rfl rfl)
  have parsed := parsed_parseStatement (enter.informed informed).unsplit text.toList false
  have plotted := outcome_parsePlotted text s
  generalize outcome (parseStatement text.toList false) { s with isPlotting := true } = e
    at parsed plotted
  obtain ⟨r, s'⟩ := e
  unfold SessionM.compile
  rw [outcome_bind, plotted]
  -- A statement that was read is compiled; a definition is refused, but it is in the session then.
  cases parsed with
  | read reads has =>
    have leave : s'.Step { s' with isPlotting := s.isPlotting } := .of_eq rfl rfl rfl rfl rfl
    have read := (ReflTransGen.trans enter reads.reads).tail leave
    cases r with
    | error e => exact ⟨.read read, nofun⟩
    | ok statement =>
      dsimp only
      by_cases defines : statement.isDefinition = true
      · rw [if_pos defines]
        exact ⟨.read read, nofun⟩
      · rw [if_neg defines]
        have has' := (has statement rfl).1.mono leave.later
        obtain ⟨rest, enters⟩ := formula_adds (Reads.informed read informed) names has'
        exact ⟨.read (ReflTransGen.trans read rest.reads), enters⟩
  | define outside reads suits fresh _ defines =>
    have behind := Advances.define (ReflTransGen.trans enter reads) suits fresh s.isPlotting
    cases r with
    | error e => exact ⟨behind, nofun⟩
    | ok statement =>
      dsimp only
      rw [if_pos (defines statement rfl).1]
      exact ⟨behind, nofun⟩

/-- A run, whatever it enters, only evaluates. -/
theorem evolves_of_matches {α : Type} {x : SessionM α} {lenient : Prop}
    (runs : Matches s.Evolves lenient x x) : s.Evolves (outcome x s).2 :=
  (runs s .refl).2.1

theorem evolves_runStatement (s : Session) (statement : Statement) :
    s.Evolves (outcome (runStatement statement) s).2 := by
  have runs : Matches s.Evolves True (runStatement statement) (runStatement statement) :=
    matches_runStatement s.through_evolves (fun e _ => s.confined_all e.dependent)
      (fun _ _ _ _ _ => trivial) fun _ _ _ _ => trivial
  exact evolves_of_matches runs

theorem evolves_call (s : Session) (e : Formula) (args : List Value) :
    s.Evolves (outcome (e.call args) s).2 := by
  have runs : Matches s.Evolves True (e.call args) (e.call args) :=
    matches_call s.through_evolves (fun e _ => s.confined_all e.dependent) e.code.enters_all args
  exact evolves_of_matches runs

/-- Unless it is cleared, a session advances. -/
theorem Informed.advances (informed : s.Informed) {r : Request} (kept : r ≠ .clear) :
    s.Advances (s.after r) := by
  cases r with
  | read text => exact (informed.advances_parse text).1
  | run statement => exact .read (.single (.evolves (s.evolves_runStatement statement)))
  | assign name value => exact .read (s.reads_setValue name value)
  | compile text names => exact (informed.advances_compile text names).1
  | call e args => exact .read (.single (.evolves (s.evolves_call e args)))
  | clear => exact absurd rfl kept

/-! ## The beginning -/

/-- A session without functions, blocks and names. -/
theorem informed_of_nil (functions : s.functions = #[]) (blocks : s.blocks = #[])
    (cellNames : s.cellNames = []) (functionNames : s.functionNames = []) : s.Informed := by
  have none : ∀ d, s.tokensOf d = [] := by
    intro d
    cases d <;> simp [tokensOf, functions, blocks]
  refine ⟨⟨?_, ?_⟩, ?_, ?_, ?_, fun d circle => ?_, ⟨?_, ?_⟩⟩
  · simp [cellNames]
  · simp [cellNames]
  · simp [functionNames]
  · simp [none]
  · simp [none]
  · obtain ⟨e, uses, -⟩ := Relation.TransGen.head'_iff.1 circle
    have refers := uses.1
    rw [references, none] at refers
    cases refers
  · simp [functions]
  · simp [blocks]

theorem reads_constants (s : Session) (values : List (String × Value)) :
    s.Reads (values.foldl (fun s (name, value) => s.setValue name value) s) := by
  induction values generalizing s with
  | nil => exact .refl
  | cons value values ih => exact ReflTransGen.trans (s.reads_setValue _ _) (ih _)

/-- Nothing leads to a function that does not exist. -/
theorem Informed.not_reaches (informed : s.Informed) (none : s.functions[i]? = none) :
    ¬ s.Reaches (fun t => t.reference? = some (.function i)) d := by
  intro reaches
  induction reaches with
  | mention within mentions =>
    have known := mem_dependents_iff.1 ((informed.has _ _ within).reference _ mentions)
    exact absurd known (Nat.not_lt.2 (Array.getElem?_eq_none_iff.1 none))
  | through _ _ _ ih => exact ih

/-- A session that was cleared has no functions. -/
theorem replaced_clear (s : Session) : s.Replaced s.clear := by
  have empty : Informed { s with
    blocks := #[], functions := #[], functionNames := [], units := [], cellNames := [] } :=
    informed_of_nil rfl rfl rfl rfl
  have reads := reads_constants { s with
    blocks := #[], functions := #[], functionNames := [], units := [], cellNames := [] }
    (constants s.settings.complex)
  have informed := reads.informed empty
  refine ⟨informed, fun i _ => ?_⟩
  have none : s.clear.functions[i]? = none :=
    Option.map_eq_none_iff.1 (reads.later.definitionOf i)
  refine ⟨fun f found => ?_, fun d reaches => ?_⟩
  · cases none.symm.trans found
  · exact absurd reaches (informed.not_reaches none)

/-- Requests leave sessions informed. -/
theorem Informed.after (informed : s.Informed) (r : Request) : s.Replaced (s.after r) := by
  by_cases clears : r = .clear
  · subst clears
    exact s.replaced_clear
  · exact (informed.advances clears).replaced informed

/-- All sessions that occur are informed. -/
theorem Occurs.informed (occurs : s.Occurs) : s.Informed := by
  induction occurs with
  | start settings g => exact (replaced_clear _).informed
  | request r _ ih => exact (ih.after r).informed
  | during step _ ih => exact step.informed ih

/-- Invalidation is complete. After an assignment all that depends on the variable keeps nothing.
After a function was defined anew, accepted or refused, it keeps nothing, nor does all that leads
to it. No function and no block is told twice, whoever depends on whom. -/
theorem Occurs.keepsNothing_of_change (occurs : s.Occurs) :
    (∀ id value d, s.IsNamed id → s.Reaches (fun t => t.cell? = some id) d →
      (s.assign id value).KeepsNothing d) ∧
    (∀ r i, (s.after r).definitionOf i ≠ s.definitionOf i →
      (s.after r).KeepsNothing (.function i) ∧
      ∀ d, (s.after r).Reaches (fun t => t.reference? = some (.function i)) d →
        (s.after r).KeepsNothing d) ∧
    ∀ (next : Dependent → List Dependent) (changed : List Dependent),
      (Graph.reach next s.dependents changed).Nodup ∧
        Graph.reach next s.dependents changed ⊆ s.dependents := by
  have informed := occurs.informed
  refine ⟨?_, ?_, fun next changed => ⟨?_, Graph.reach_subset next _ changed⟩⟩
  · intro id value d named reaches
    exact informed.keepsNothing_assign named value reaches
  · intro r i changed
    exact (informed.after r).keepsNothing i changed
  · exact Graph.nodup_reach next s.nodup_dependents changed

/-- A result of `g` is dropped when a variable changes that only `f` mentions, which `g` calls. -/
theorem keepsNothing_through_call : ∃ (s : Session) (id : CellId), s.Occurs ∧ s.IsNamed id ∧
    ¬ s.KeepsNothing (.function 1) ∧ (s.assign id (.real 4)).KeepsNothing (.function 1) := by
  let program : List Token := [.constant (some (.real 5)) "5", .call (some 1) "g" 1]
  let s := ((((start {} ⟨1, 1⟩).after (.read "f(x) = x+z")).after (.read "g(x) = 2*f(x)")).after
    (.assign "z" (.real 3))).after (.run ⟨program, none, none, "g(5)"⟩)
  have occurs : s.Occurs := .request _ (.request _ (.request _ (.request _ (.start _ _))))
  have kept : (s.functions[1]?.any fun f => f.results.length == 1) = true := by decide +kernel
  have mentions : ((s.tokensOf (.function 0)).any fun t => t.cell? == some 5) = true := by
    decide +kernel
  obtain ⟨t, within, same⟩ := List.any_eq_true.1 mentions
  have named : s.IsNamed 5 := ⟨"z", by decide +kernel⟩
  have calls : Dependent.function 0 ∈ s.references (.function 1) := by decide +kernel
  refine ⟨s, 5, occurs, named, fun nothing => ?_, occurs.keepsNothing_of_change.1 5 _ _ named ?_⟩
  · obtain ⟨f, found, one⟩ := (Option.any_eq_true _ _).1 kept
    rw [(nothing f found).2] at one
    cases one
  · exact .through calls (by decide +kernel) (.mention within (beq_iff_eq.1 same))

end Session

end UnitCalc

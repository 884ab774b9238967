/-
# Steps of evaluation

While statements are evaluated, a session changes step by step: values are stored, what was kept is
forgotten, results are counted and kept, and code is compiled from a text and kept with it. None of
this changes the wiring. So what a function or a block enters stays what its text enters, whether
its code was kept before or is compiled now.

## Main definitions

* `Session.EvalStep`, `Session.Evolves`: one step of evaluation, and many of them.
* `Session.entries`, `Session.codesOf`: what a text enters, and the code that is kept with it.
* `Session.Compiles`: a code was compiled from tokens of a text.
* `Session.Confined`: a function or a block enters nothing but given functions and blocks.

## Main results

* `Session.Evolves.runsTo`: evaluation leaves the wiring alone.
* `Session.Confined.evolves`: evaluation does not lead further than before.
-/

import UnitCalc.Proofs.Session.Informed
import UnitCalc.Session.Evaluation

namespace UnitCalc

open Relation (ReflTransGen)

namespace Session

variable {s s' s'' : Session} {d : Dependent} {i : Nat} {e : Entry} {callee : Entry → Prop}
  {lenient : Prop}

/-- What the tokens of a function or a block enter. -/
def entries (s : Session) (d : Dependent) : List Entry :=
  (s.tokensOf d).filterMap Token.entry?

/-- The code that is kept with a function or a block. -/
def codesOf (s : Session) : Dependent → List Code
  | .function i => s.functions[i]?.elim [] fun f => f.code.toList
  | .block i => s.blocks[i]?.elim [] fun b => b.code.elim [] BlockCode.parts

theorem mem_references_of_mem_entries (within : e ∈ s.entries d) :
    e.dependent ∈ s.references d := by
  obtain ⟨t, inside, enters⟩ := List.mem_filterMap.1 within
  refine List.mem_filterMap.2 ⟨t, inside, ?_⟩
  rw [t.reference?_eq, enters]
  rfl

/-- Code that enters what a text enters refers to what the text refers to. -/
theorem within_of_entries {code : Code} (enters : code.Enters (· ∈ s.entries d)) :
    code.Within (· ∈ s.references d) :=
  (enters.mono fun _ => mem_references_of_mem_entries).within

/-- The code was compiled from tokens of a function or a block. -/
def Compiles (s : Session) (d : Dependent) (code : Code) : Prop :=
  ∃ c program, program ⊆ s.tokensOf d ∧ Code.ofPostfix c program = .ok code

/-- What is compiled from a text enters what the text enters. -/
theorem Compiles.enters {code : Code} (compiles : s.Compiles d code) :
    code.Enters (· ∈ s.entries d) := by
  obtain ⟨c, program, inside, made⟩ := compiles
  have finds : Finds True (Code.Enters (· ∈ s.entries d)) (Code.ofPostfix c program) :=
    Code.finds_ofPostfix (fun t within _ enters => List.mem_filterMap.2 ⟨t, inside within, enters⟩)
      fun _ _ _ => trivial
  exact finds.of_ok made

/-- One step of evaluation. What is kept in the last two cases was compiled from the text of the
function or the block. -/
inductive EvalStep : Session → Session → Prop where
  | other {s s' : Session} (cellNames : s'.cellNames = s.cellNames) (cells : s'.cells = s.cells)
    (functionNames : s'.functionNames = s.functionNames) (functions : s'.functions = s.functions)
    (blocks : s'.blocks = s.blocks) : EvalStep s s'
  | store (s : Session) (id : CellId) (value : Value) : EvalStep s (s.store id value)
  | forget (s : Session) (d : Dependent) : EvalStep s (s.forget d)
  | limit (s : Session) : EvalStep s s.limitResults
  | count {s : Session} {i : Nat} {g : UserFunction → UserFunction}
    (bare : ∀ f, (g f).bare = f.bare) (code : ∀ f, (g f).code = f.code)
    (results : ∀ f, s.functions[i]? = some f → f.isCircular = true → (g f).results = f.results) :
    EvalStep s (s.modifyFunction i g)
  | keepCode {s : Session} {i : Nat} {code : Code} (open_ : s.isRefused (.function i) = false)
    (compiles : s.Compiles (.function i) code) :
    EvalStep s (s.modifyFunction i fun f => { f with code := some code })
  | keepBlockCode {s : Session} {i : Nat} {code : BlockCode}
    (compiles : ∀ part ∈ code.parts, s.Compiles (.block i) part) :
    EvalStep s (s.modifyBlock i fun b => { b with code := some code })

/-- A session that evaluation leads to. -/
def Evolves : Session → Session → Prop :=
  ReflTransGen EvalStep

/-! ## The wiring -/

theorem runsTo_limitResults (s : Session) : s.RunsTo s.limitResults := by
  refine { SameWiring.refl s with functions := ?_, keepsWell := fun well => ⟨?_, well.blocks⟩ }
  · rw [limitResults, Array.map_map]
    exact congrArg (s.functions.map ·) (funext UserFunction.bare_limited)
  · intro i g found
    rw [limitResults, Array.getElem?_map] at found
    obtain ⟨f, old, rfl⟩ := Option.map_eq_some_iff.1 found
    have keeps := well.functions i f old
    refine keeps.change f.bare_limited f.code_limited fun refused => ?_
    rw [(keeps.refused refused).2]
    refine List.eq_nil_iff_forall_not_mem.2 fun e within => ?_
    have kept := UserFunction.results_limited within
    rw [(keeps.refused refused).2] at kept
    cases kept

/-- A step of evaluation leaves the wiring alone. -/
theorem EvalStep.runsTo (step : s.EvalStep s') : s.RunsTo s' := by
  cases step with
  | other cellNames cells functionNames functions blocks =>
    exact .of_eq cellNames cells functionNames functions blocks
  | store id value => exact s.runsTo_store id value
  | forget d => exact s.runsTo_forget d
  | limit => exact s.runsTo_limitResults
  | count bare code results =>
    exact runsTo_modifyFunction bare fun f found keeps =>
      keeps.change (bare f) (code f) (results f found)
  | @keepCode i code open_ compiles =>
    refine runsTo_modifyFunction (fun _ => rfl) fun f found _ =>
      ⟨fun refused => ?_, fun c kept => ?_⟩
    · -- the function is not refused
      rw [isRefused, found, Option.elim_some] at open_
      have refused : f.isCircular = true := refused
      rw [open_] at refused
      cases refused
    · cases kept
      have within := within_of_entries compiles.enters
      rw [references, tokensOf, found, Option.elim_some] at within
      exact within
  | @keepBlockCode i code compiles =>
    refine runsTo_modifyBlock (fun _ => rfl) fun b found _ c kept => ?_
    cases kept
    intro part member
    have within := within_of_entries (compiles part member).enters
    rw [references, tokensOf, found, Option.elim_some] at within
    exact within

theorem Evolves.runsTo (evolves : s.Evolves s') : s.RunsTo s' := by
  induction evolves with
  | refl => exact .refl s
  | tail _ step ih => exact ih.trans step.runsTo

/-! ## What is kept -/

theorem codesOf_function_eq {f : UserFunction} (found : s.functions[i]? = some f) :
    s.codesOf (.function i) = f.code.toList := by
  rw [codesOf, found, Option.elim_some]

theorem codesOf_block_eq {b : Block} (found : s.blocks[i]? = some b) :
    s.codesOf (.block i) = b.code.elim [] BlockCode.parts := by
  rw [codesOf, found, Option.elim_some]

/-- Other functions, and all blocks, keep the same code when a function changes. -/
theorem codesOf_modifyFunction {g : UserFunction → UserFunction} (kept : List Code)
    (changed : ∀ f, s.functions[i]? = some f → (g f).code.toList ⊆ kept) :
    ∀ code ∈ (s.modifyFunction i g).codesOf d,
      code ∈ s.codesOf d ∨ d = .function i ∧ code ∈ kept := by
  intro code within
  cases d with
  | block j => exact .inl within
  | function j =>
    rw [codesOf, getElem?_modifyFunction] at within
    split at within
    · next here =>
      subst here
      cases found : s.functions[i]? with
      | none =>
        rw [found] at within
        cases within
      | some f =>
        rw [found] at within
        exact .inr ⟨rfl, changed f found within⟩
    · exact .inl within

theorem codesOf_modifyBlock {g : Block → Block} (kept : List Code)
    (changed : ∀ b, s.blocks[i]? = some b → (g b).code.elim [] BlockCode.parts ⊆ kept) :
    ∀ code ∈ (s.modifyBlock i g).codesOf d, code ∈ s.codesOf d ∨ d = .block i ∧ code ∈ kept := by
  intro code within
  cases d with
  | function j => exact .inl within
  | block j =>
    rw [codesOf, modifyBlock, Array.getElem?_modify] at within
    split at within
    · next here =>
      subst here
      cases found : s.blocks[i]? with
      | none =>
        rw [found] at within
        cases within
      | some b =>
        rw [found] at within
        exact .inr ⟨rfl, changed b found within⟩
    · exact .inl within

/-- Kept code was kept before the step, or it was compiled from its text. -/
theorem EvalStep.codesOf (step : s.EvalStep s') :
    ∀ code ∈ s'.codesOf d, code ∈ s.codesOf d ∨ s.Compiles d code := by
  intro code within
  -- Only the last two steps keep new code. The others leave what there was, or drop it.
  cases step with
  | other cellNames cells functionNames functions blocks =>
    left
    cases d <;> simpa only [Session.codesOf, functions, blocks] using within
  | store id value => cases d <;> exact .inl within
  | forget k =>
    cases k with
    | function i =>
      rcases codesOf_modifyFunction [] (fun _ _ => List.Subset.refl _) code within with
        old | ⟨-, none⟩
      · exact .inl old
      · cases none
    | block i =>
      rcases codesOf_modifyBlock [] (fun _ _ => List.Subset.refl _) code within with
        old | ⟨-, none⟩
      · exact .inl old
      · cases none
  | limit =>
    left
    cases d with
    | block i => exact within
    | function i =>
      rw [Session.codesOf, limitResults, Array.getElem?_map] at within
      cases found : s.functions[i]? with
      | none =>
        rw [found] at within
        cases within
      | some f =>
        rw [found, Option.map_some, Option.elim_some, f.code_limited] at within
        rwa [codesOf_function_eq found]
  | @count i g bare code' results =>
    left
    have same : ∀ f, s.functions[i]? = some f → (g f).code.toList ⊆ s.codesOf (.function i) := by
      intro f found
      rw [codesOf_function_eq found, code']
      exact List.Subset.refl _
    rcases codesOf_modifyFunction _ same code within with old | ⟨rfl, old⟩
    · exact old
    · exact old
  | @keepCode i code' open_ compiles =>
    rcases codesOf_modifyFunction [code'] (fun _ _ => List.Subset.refl _) code within with
      old | ⟨rfl, new⟩
    · exact .inl old
    · rw [List.mem_singleton.1 new]
      exact .inr compiles
  | @keepBlockCode i code' compiles =>
    rcases codesOf_modifyBlock code'.parts (fun _ _ => List.Subset.refl _) code within with
      old | ⟨rfl, new⟩
    · exact .inl old
    · exact .inr (compiles code new)

/-- Kept code was kept from the beginning, or it was compiled from its text. -/
theorem Evolves.codesOf (evolves : s.Evolves s') :
    ∀ code ∈ s'.codesOf d, code ∈ s.codesOf d ∨ s.Compiles d code := by
  induction evolves with
  | refl => exact fun code => .inl
  | @tail s₁ s₂ before step ih =>
    intro code within
    rcases step.codesOf code within with old | compiles
    · exact ih code old
    · right
      rwa [Compiles, (Evolves.runsTo before).tokensOf_eq] at compiles

/-! ## Where evaluation leads -/

/-- A function or a block that is evaluated enters only what is in `callee`, by its text and by the
code that is kept with it. Unless `lenient`, it exists and calls nothing that is not defined. -/
structure Confined (s : Session) (lenient : Prop) (callee : Entry → Prop) (d : Dependent) :
    Prop where
  known : d ∈ s.dependents ∨ lenient
  entries : s.isRefused d = false → ∀ e ∈ s.entries d, callee e
  defined : s.isRefused d = false → ∀ t ∈ s.tokensOf d, t.isForward = true → lenient
  codes : s.isRefused d = false → ∀ code ∈ s.codesOf d, code.Enters callee

/-- Evaluation leads no further than before. -/
theorem Confined.evolves (confined : s.Confined lenient callee d) (evolves : s.Evolves s') :
    s'.Confined lenient callee d := by
  have runs := evolves.runsTo
  have entries_eq : s'.entries d = s.entries d := by
    rw [Session.entries, runs.tokensOf_eq, Session.entries]
  refine ⟨?_, ?_, ?_, ?_⟩
  · rw [runs.dependents_eq]
    exact confined.known
  · rw [runs.isRefused_eq, entries_eq]
    exact confined.entries
  · rw [runs.isRefused_eq, runs.tokensOf_eq]
    exact confined.defined
  · rw [runs.isRefused_eq]
    intro open_ code within
    rcases evolves.codesOf code within with old | compiles
    · exact confined.codes open_ code old
    · exact compiles.enters.mono (confined.entries open_)

/-- Compiling the text of a function or a block misses nothing. -/
theorem Confined.finds (confined : s.Confined lenient callee d) (open_ : s.isRefused d = false)
    {program : List Token} (inside : program ⊆ s.tokensOf d) (c : Compilation) :
    Finds lenient (s.Compiles d) (Code.ofPostfix c program) := by
  have finds : Finds lenient (Code.Enters fun _ => True) (Code.ofPostfix c program) :=
    Code.finds_ofPostfix (fun _ _ _ _ => trivial)
      fun t within => confined.defined open_ t (inside within)
  exact finds.imp fun code made _ => ⟨c, program, inside, made⟩

/-! ## Parts of evaluation -/

theorem evolves_forgetFrom (s : Session) (changed : List Dependent) :
    s.Evolves (s.forgetFrom changed) := by
  rw [forgetFrom_eq]
  generalize s.affected changed = ds
  induction ds generalizing s with
  | nil => exact .refl
  | cons d ds ih => exact ReflTransGen.head (.forget s d) (ih (s.forget d))

theorem evolves_storeAll (s : Session) (cells : List CellId) (args : List Value) :
    s.Evolves (s.storeAll cells args) := by
  induction cells generalizing s args with
  | nil => exact .refl
  | cons id cells ih =>
    cases args with
    | nil => exact .refl
    | cons value args => exact ReflTransGen.head (.store s id value) (ih _ args)

theorem evolves_assign (s : Session) (id : CellId) (value : Value) :
    s.Evolves (s.assign id value) :=
  ReflTransGen.head (.store s id value) (evolves_forgetFrom _ _)

/-- A unit cannot be defined by a value that is not real; nothing else is in the way. -/
theorem finds_defineUnit (s : Session) (name : String) (value : Value) :
    Finds lenient s.Evolves (s.defineUnit name value) := by
  have unit : Finds lenient (fun _ => True) (unitOfValue name value) := by
    unfold unitOfValue
    split
    · exact nofun
    · split <;> trivial
  refine unit.bind fun u _ => ?_
  have first : s.EvalStep { s with units := (name, u) :: s.units } := .other rfl rfl rfl rfl rfl
  dsimp only
  split
  · exact ReflTransGen.head first (evolves_forgetFrom _ _)
  · exact ReflTransGen.single first

end Session

end UnitCalc

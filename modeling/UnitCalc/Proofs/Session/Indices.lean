/-
# Indices of functions and blocks

A session that is not cleared goes on by requests, and by what is set from outside. Definitions,
refused ones too, and blocks of statements that failed stay in it. So the indices that were read
stay meaningful: all that functions, blocks, statements and formulas enter is still there, and
takes as many arguments as it did. Calls may look that up each time and do something else for what
is missing: it makes no difference, since nothing is missing.

## Main definitions

* `Session.Continues`: what a session becomes that is not cleared.
* `Session.HasRead`, `Session.HasCompiled`: what was read and what was compiled meanwhile.
* `Calls.strict`: calls that do something else for what a session does not offer.
* `Session.RunsResolved`, `Session.CallsResolved`: a statement and a formula miss nothing.

## Main results

* `Session.Resolved.match_strict`: strict calls end like those of the session.
* `Session.Continues.preserves`: what is offered stays, and resolved sessions stay resolved.
* `Session.Continues.resolved_since`: what was read since a session was cleared misses nothing.
-/

import UnitCalc.Proofs.Session.Occurrence

namespace UnitCalc

open Relation (ReflTransGen)
open SessionM

/-- Calls nested at most so deep that do something else for functions and blocks that the session
does not offer, and for functions with another number of parameters. -/
def Calls.strict (missing : Calls) : Nat → Calls
  | 0 => .ofDepth 0
  | depth + 1 =>
    ⟨fun index args => do
      if (← get).Offers (.call index args.length) then
        evaluateCall (strict missing depth) index args
      else missing.function index args,
    fun index => do
      if (← get).Offers (.block index) then evaluateBlock (strict missing depth) index
      else missing.block index⟩

namespace Session

variable {s s' s₀ : Session} {e : Entry} {statement : Statement}

/-- What a session becomes that is not cleared: it answers requests, and what belongs to no text is
set from outside. -/
inductive Continues (s₀ : Session) : Session → Prop where
  | start : Continues s₀ s₀
  | request {s : Session} (r : Request) (kept : r ≠ .clear) (continues : Continues s₀ s) :
    Continues s₀ (s.after r)
  | set {s : Session} (settings : Settings) (random : RandomSource) (input : List String)
    (isEnabled isCancelled isPlotting : Bool) (continues : Continues s₀ s) :
    Continues s₀ { s with settings, random, input, isEnabled, isCancelled, isPlotting }

/-- A statement was read on the way to a session. -/
def HasRead (s₀ s : Session) (statement : Statement) : Prop :=
  ∃ s₁ text, s₀.Continues s₁ ∧ (outcome (parse text) s₁).1 = .ok statement ∧
    (s₁.after (.read text)).Continues s

/-- A formula was compiled on the way to a session. -/
def HasCompiled (s₀ s : Session) (e : Formula) : Prop :=
  ∃ s₁ text names, s₀.Continues s₁ ∧ (outcome (SessionM.compile text names) s₁).1 = .ok e ∧
    (s₁.after (.compile text names)).Continues s

/-- A statement enters what the session offers. It does not matter what its run would do for
anything else, and it never ends since something is missing. -/
structure RunsResolved (s : Session) (statement : Statement) : Prop where
  resolves : ∀ t ∈ statement.program, s.Resolves t
  strict : ∀ missing,
    outcome (Postfix.run (.strict missing (s.dependents.length + 1)) statement.program
      statement.unit) s = outcome (Postfix.run s.calls statement.program statement.unit) s
  known : ∀ e, (outcome (runStatement statement) s).1 = .error e → e.isMissing = false

/-- So does a formula, for all values of its parameters. -/
structure CallsResolved (s : Session) (e : Formula) : Prop where
  enters : e.code.Enters s.Offers
  strict : ∀ missing args,
    outcome (e.code.run (.strict missing (s.dependents.length + 1)))
        (s.storeAll e.parameters args) =
      outcome (e.code.run s.calls) (s.storeAll e.parameters args)
  known : ∀ args error, (outcome (e.call args) s).1 = .error error → error.isMissing = false

/-! ## Runs that look up what they enter -/

/-- In a resolved session calls of what is offered end as they do without looking it up. -/
theorem Resolved.match_strict (resolved : s.Resolved) (missing : Calls) (depth : Nat) :
    (Calls.strict missing depth).Match s.Evolves False s.Offers (.ofDepth depth) := by
  induction depth with
  | zero => exact ⟨fun _ _ _ => .throw nofun, fun _ _ => .throw nofun⟩
  | succ depth ih =>
    -- What is offered stays offered while evaluation goes on, so it is found.
    refine ⟨fun index args known s' evolves => ?_, fun index known s' evolves => ?_⟩
    · have matches_ :=
        matches_evaluateCall s.stays_evolves (resolved.confined known) ih args s' evolves
      rw [Calls.strict]
      dsimp only
      rwa [outcome_bind_ok (outcome_get s'), if_pos (evolves.offers known)]
    · have matches_ :=
        matches_evaluateBlock s.through_evolves (resolved.confined known) ih s' evolves
      rw [Calls.strict]
      dsimp only
      rwa [outcome_bind_ok (outcome_get s'), if_pos (evolves.offers known)]

theorem calls_eq (s : Session) : s.calls = .ofDepth (s.dependents.length + 1) := by
  rw [calls, s.length_dependents]

theorem Resolved.runsResolved (resolved : s.Resolved)
    (resolves : ∀ t ∈ statement.program, s.Resolves t) : s.RunsResolved statement := by
  have known : ∀ t ∈ statement.program, ∀ e ∈ t.entry?, s.Offers e :=
    fun t within => (resolves t within).offered
  have defined : ∀ t ∈ statement.program, t.isForward = true → False := by
    intro t within forward
    rw [(resolves t within).defined] at forward
    cases forward
  refine ⟨resolves, fun missing => ?_, fun e ended => ?_⟩
  · rw [calls_eq]
    exact (Postfix.matches_run s.through_evolves (resolved.match_strict missing _) known defined s
      .refl).1
  · obtain ⟨-, -, finds⟩ := matches_runStatement s.through_evolves (fun e => resolved.confined)
      (fun _ => known) (fun _ => defined) s .refl
    rw [ended] at finds
    exact Bool.eq_false_iff.2 finds

theorem Resolved.callsResolved (resolved : s.Resolved) {e : Formula}
    (enters : e.code.Enters s.Offers) : s.CallsResolved e := by
  refine ⟨enters, fun missing args => ?_, fun args error ended => ?_⟩
  · rw [calls_eq]
    exact (enters.matches_run s.stays_evolves (resolved.match_strict missing _)
      (.inr s.writes_evolves) _ (s.evolves_storeAll _ args)).1
  · obtain ⟨-, -, finds⟩ :=
      matches_call s.through_evolves (fun e => resolved.confined) enters args s .refl
    rw [ended] at finds
    exact Bool.eq_false_iff.2 finds

/-! ## Sessions that are not cleared -/

theorem Advances.offers (advances : s.Advances s') (informed : s.Informed) (offers : s.Offers e) :
    s'.Offers e := by
  cases advances with
  | read reads => exact reads.later.offers offers
  | @define s₁ f reads suits _ isPlotting =>
    have settled := (reads.informed informed).offers_settle suits (reads.later.offers offers)
    exact (Step.plotting _ isPlotting).later.offers settled

theorem Advances.resolved (advances : s.Advances s') (informed : s.Informed)
    (resolved : s.Resolved) : s'.Resolved := by
  cases advances with
  | read reads => exact reads.resolved resolved
  | @define s₁ f reads suits _ isPlotting =>
    have settled := (reads.resolved resolved).settle (reads.informed informed) suits
    exact (Step.plotting _ isPlotting).resolved settled

/-- What a session keeps as long as it is not cleared. -/
structure Preserves (s s' : Session) : Prop where
  informed : s.Informed → s'.Informed
  resolved : s.Informed → s.Resolved → s'.Resolved
  offers : s.Informed → ∀ e, s.Offers e → s'.Offers e

theorem Preserves.trans {s'' : Session} (first : s.Preserves s') (second : s'.Preserves s'') :
    s.Preserves s'' where
  informed informed := second.informed (first.informed informed)
  resolved informed resolved :=
    second.resolved (first.informed informed) (first.resolved informed resolved)
  offers informed e offers :=
    second.offers (first.informed informed) e (first.offers informed e offers)

theorem Step.preserves (step : s.Step s') : s.Preserves s' where
  informed := step.read.informed
  resolved _ := step.resolved
  offers _ _ := step.later.offers

theorem preserves_after {r : Request} (kept : r ≠ .clear) : s.Preserves (s.after r) where
  informed informed := (informed.after r).informed
  resolved informed := (informed.advances kept).resolved informed
  offers informed _ := (informed.advances kept).offers informed

/-- What is offered stays offered, whatever is read, defined or evaluated. -/
theorem Continues.preserves (continues : s₀.Continues s) : s₀.Preserves s := by
  induction continues with
  | start => exact ⟨id, fun _ => id, fun _ _ => id⟩
  | request r kept _ ih => exact ih.trans (preserves_after kept)
  | set _ _ _ _ _ _ _ ih => exact ih.trans (Step.preserves (.of_eq rfl rfl rfl rfl rfl))

/-- A session without functions and blocks. -/
theorem resolved_of_nil (functions : s.functions = #[]) (blocks : s.blocks = #[]) : s.Resolved := by
  have tokens : ∀ d, s.tokensOf d = [] := by
    intro d
    cases d <;> simp [tokensOf, functions, blocks]
  have codes : ∀ d, s.codesOf d = [] := by
    intro d
    cases d <;> simp [codesOf, functions, blocks]
  refine ⟨fun d => ?_, fun d => ?_⟩
  · rw [tokens]
    exact List.forall_mem_nil _
  · rw [codes]
    exact List.forall_mem_nil _

theorem resolved_clear (s : Session) : s.clear.Resolved := by
  have empty : Resolved { s with
    blocks := #[], functions := #[], functionNames := [], units := [], cellNames := [] } :=
    resolved_of_nil rfl rfl
  have reads := reads_constants { s with
    blocks := #[], functions := #[], functionNames := [], units := [], cellNames := [] }
    (constants s.settings.complex)
  exact reads.resolved empty

/-- Whatever happened since a session was cleared, texts and code enter what is there, with as many
arguments as it has parameters, and blocks only enter blocks that were added before them. So do the
statements that were read and the formulas that were compiled meanwhile. -/
theorem Continues.resolved_since (continues : s₀.clear.Continues s) :
    s.Resolved ∧ (∀ statement, s₀.clear.HasRead s statement → s.RunsResolved statement) ∧
      ∀ e, s₀.clear.HasCompiled s e → s.CallsResolved e := by
  have informed := s₀.replaced_clear.informed
  have resolved := continues.preserves.resolved informed s₀.resolved_clear
  refine ⟨resolved, ?_, ?_⟩
  · intro statement ⟨s₁, text, before, made, behind⟩
    have informed₁ := before.preserves.informed informed
    have has := ((informed₁.advances_parse text).2 statement made).1
    refine resolved.runsResolved fun t within => (has t within).toResolves.mono ?_
    exact behind.preserves.offers (informed₁.after (.read text)).informed
  · intro e ⟨s₁, text, names, before, made, behind⟩
    have informed₁ := before.preserves.informed informed
    have enters := (informed₁.advances_compile text names).2 e made
    refine resolved.callsResolved (enters.mono ?_)
    exact behind.preserves.offers (informed₁.after (.compile text names)).informed

/-- A circle through a call and a block is refused, and the name of the called function is defined
anew with fewer parameters. What was read and compiled in between still calls the old one. -/
theorem resolved_since_redefined : ∃ (s₀ s : Session) (statement : Statement) (e : Formula),
    s₀.clear.Continues s ∧ s₀.clear.HasRead s statement ∧ s₀.clear.HasCompiled s e ∧
      s.isRefused (.function 0) = true ∧ s.functionNames.lookup "g" = some 2 ∧
      Entry.call 1 2 ∈ statement.program.filterMap Token.entry? ∧
      s.RunsResolved statement ∧ s.CallsResolved e := by
  let s₀ : Session := { settings := {}, random := .ofGenerator ⟨1, 1⟩ }
  let s₁ := ((s₀.clear.after (.read "f(x) = x+1")).after
    (.read "g(x; y) = f(x)*$sum\x7bf(k) @ k = 1 : 3\x7d")).after (.read "f(x) = g(x; 2)")
  let s₂ := s₁.after (.read "g(2; 3)")
  let s₃ := s₂.after (.compile "g(t; 2)" ["t"])
  let s := s₃.after (.read "g(x) = x")
  have first : s₀.clear.Continues s₁ :=
    .request _ nofun (.request _ nofun (.request _ nofun .start))
  have second : s₀.clear.Continues s₂ := .request _ nofun first
  have continues : s₀.clear.Continues s := .request _ nofun (.request _ nofun second)
  have read : (outcome (parse "g(2; 3)") s₁).1.toOption.any (fun statement =>
      decide (Entry.call 1 2 ∈ statement.program.filterMap Token.entry?)) = true := by
    decide +kernel
  have compiled : (outcome (SessionM.compile "g(t; 2)" ["t"]) s₂).1.toOption.isSome = true := by
    decide +kernel
  obtain ⟨statement, made, calls⟩ := (Option.any_eq_true _ _).1 read
  obtain ⟨e, made'⟩ := Option.isSome_iff_exists.1 compiled
  have hasRead : s₀.clear.HasRead s statement :=
    ⟨s₁, _, first, ok_of_toOption made, .request _ nofun (.request _ nofun .start)⟩
  have hasCompiled : s₀.clear.HasCompiled s e :=
    ⟨s₂, _, _, second, ok_of_toOption made', .request _ nofun .start⟩
  obtain ⟨-, statements, formulas⟩ := continues.resolved_since
  exact ⟨s₀, s, statement, e, continues, hasRead, hasCompiled, by decide +kernel, by decide +kernel,
    of_decide_eq_true calls, statements statement hasRead, formulas e hasCompiled⟩

end Session

end UnitCalc

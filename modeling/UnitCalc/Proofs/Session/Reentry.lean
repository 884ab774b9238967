/-
# No re-entry

In every session that occurs, functions and blocks that lead back to themselves do so through a
function that was refused, and a refused function is never evaluated. So nothing is entered again
while it is being evaluated. Calls may keep the list of what they are inside of, and do something
else on re-entry: it makes no difference, since it never happens.

## Main definitions

* `Calls.guarded`: calls that do something else on re-entry.

## Main results

* `Session.Informed.match_guarded`: guarded calls end like those of the session.
* `Session.Occurs.noReentry`: cycles pass through refused functions, and nothing is re-entered.
-/

import UnitCalc.Proofs.Session.Occurrence

namespace UnitCalc

open Relation (TransGen ReflTransGen)
open SessionM

/-- Calls nested at most so deep that do something else when what they enter is one of `active`,
which are being evaluated, or when they are nested deeper. -/
def Calls.guarded (reentry : Calls) : Nat → List Dependent → Calls
  | 0, _ => reentry
  | depth + 1, active =>
    ⟨fun index args =>
      if .function index ∈ active then reentry.function index args
      else evaluateCall (guarded reentry depth (.function index :: active)) index args,
    fun index =>
      if .block index ∈ active then reentry.block index
      else evaluateBlock (guarded reentry depth (.block index :: active)) index⟩

namespace Session

variable {s : Session} {d e : Dependent} {i : Nat}

theorem mem_dependents_of_uses (uses : s.Uses d e) : d ∈ s.dependents := by
  obtain ⟨t, within, -⟩ := exists_mem_of_references uses.1
  exact mem_dependents_of_mem_tokensOf within

/-- Kept code refers to what its text refers to. -/
theorem KeepsWell.within_of_codesOf (well : s.KeepsWell) {code : Code} (kept : code ∈ s.codesOf d) :
    code.Within (· ∈ s.references d) := by
  cases d with
  | function i =>
    cases found : s.functions[i]? with
    | none =>
      rw [codesOf, found] at kept
      cases kept
    | some f =>
      rw [codesOf_function_eq found, Option.mem_toList] at kept
      rw [references, tokensOf, found]
      exact (well.functions i f found).within code kept
  | block i =>
    cases found : s.blocks[i]? with
    | none =>
      rw [codesOf, found] at kept
      cases kept
    | some b =>
      rw [codesOf_block_eq found] at kept
      rw [references, tokensOf, found]
      cases code' : b.code with
      | none =>
        rw [code'] at kept
        cases kept
      | some codes =>
        rw [code'] at kept
        exact well.blocks i b found codes code' code kept

/-- What is evaluated enters what it uses. -/
theorem Informed.confined_uses (informed : s.Informed) (d : Dependent) :
    s.Confined True (fun e => s.Uses d e.dependent) d where
  known := .inr trivial
  entries open_ _ within := ⟨mem_references_of_mem_entries within, open_⟩
  defined _ _ _ _ := trivial
  codes open_ _ kept :=
    (informed.keepsWell.within_of_codesOf kept).enters.mono fun _ refers => ⟨refers, open_⟩

/-- Calls of what all active ones lead to end as they do without a guard. -/
theorem Informed.match_guarded (informed : s.Informed) (reentry : Calls) {depth : Nat}
    {active : List Dependent} (distinct : active.Nodup) (known : active ⊆ s.dependents)
    (size : active.length + depth = s.dependents.length + 1) :
    (Calls.guarded reentry depth active).Match s.Evolves True
      (fun e => ∀ a ∈ active, TransGen s.Uses a e.dependent) (.ofDepth depth) := by
  induction depth generalizing active with
  | zero =>
    -- there are not so many to be active
    have fewer := (distinct.subperm known).length_le
    omega
  | succ depth ih =>
    have fresh : ∀ d, (∀ a ∈ active, TransGen s.Uses a d) → d ∉ active :=
      fun d leads within => informed.acyclic d (leads d within)
    have inner : ∀ d, (∀ a ∈ active, TransGen s.Uses a d) →
        (Calls.guarded reentry depth (d :: active)).Match s.Evolves True
          (fun e => s.Uses d e.dependent) (.ofDepth depth) := by
      intro d leads
      have further : ∀ e, s.Uses d e → ∀ a ∈ d :: active, TransGen s.Uses a e :=
        fun e uses => List.forall_mem_cons.2
          ⟨.single uses, fun a within => (leads a within).tail uses⟩
      have matches_ : ∀ e, s.Uses d e →
          (Calls.guarded reentry depth (d :: active)).Match s.Evolves True
            (fun e => ∀ a ∈ d :: active, TransGen s.Uses a e.dependent) (.ofDepth depth) := by
        intro e uses
        refine ih (List.nodup_cons.2 ⟨fresh d leads, distinct⟩)
          (List.cons_subset.2 ⟨mem_dependents_of_uses uses, known⟩) ?_
        rw [List.length_cons]
        omega
      exact ⟨fun index args uses => (matches_ _ uses).function index args (further _ uses),
        fun index uses => (matches_ _ uses).block index (further _ uses)⟩
    refine ⟨fun index args leads => ?_, fun index leads => ?_⟩
    · rw [Calls.guarded, Calls.ofDepth]
      simp only [if_neg (fresh (.function index) leads)]
      exact matches_evaluateCall s.stays_evolves (informed.confined_uses _)
        (inner (.function index) leads) args
    · rw [Calls.guarded, Calls.ofDepth]
      simp only [if_neg (fresh (.block index) leads)]
      exact matches_evaluateBlock s.through_evolves (informed.confined_uses _)
        (inner (.block index) leads)

/-- The calls of a session never enter what is being evaluated. -/
theorem Informed.run_guarded (informed : s.Informed) (reentry : Calls) (program : List Token)
    (unit : Option ValueUnit) :
    outcome (Postfix.run (.guarded reentry (s.dependents.length + 1) []) program unit) s =
      outcome (Postfix.run s.calls program unit) s := by
  have size : ([] : List Dependent).length + (s.dependents.length + 1) = s.dependents.length + 1 :=
    Nat.zero_add _
  have agree := informed.match_guarded reentry List.nodup_nil (List.nil_subset _) size
  have depth : s.calls = .ofDepth (s.dependents.length + 1) := by
    rw [calls, s.length_dependents]
  rw [depth]
  -- nothing is active yet, so everything may be entered
  exact (Postfix.matches_run s.through_evolves agree (fun _ _ _ _ => List.forall_mem_nil _)
    (fun _ _ _ => trivial) s .refl).1

/-- A function is found to be circular when it leads back to itself. -/
theorem Informed.isCircular_iff (informed : s.Informed) (i : Nat) :
    s.isCircular i = true ↔
      TransGen (fun a b => b ∈ s.references a) (.function i) (.function i) := by
  refine ⟨Graph.transGen_of_onCycle, fun circle => Graph.onCycle_of_transGen ?_⟩
  refine circle.lift id fun a b refers => ⟨refers, ?_⟩
  obtain ⟨t, within, same⟩ := exists_mem_of_references refers
  exact (informed.has a t within).reference b same

/-- A chain of references between functions and blocks that are evaluated. -/
theorem transGen_of_isChain {rest : List Dependent} (open_ : ∀ a ∈ d :: rest, s.isRefused a = false)
    (chain : List.IsChain (fun a b => b ∈ s.references a) (d :: (rest ++ [e]))) :
    TransGen s.Uses d e := by
  induction rest generalizing d with
  | nil => exact .single ⟨chain.rel, open_ d List.mem_cons_self⟩
  | cons c rest ih =>
    rw [List.forall_mem_cons] at open_
    exact .head ⟨chain.rel, open_.1⟩ (ih open_.2 chain.tail)

/-- Every circle of references passes through a refused function. So no evaluation enters what is
being evaluated, and circles are found by a search that visits nothing twice. -/
theorem Occurs.noReentry (occurs : s.Occurs) :
    (∀ d rest, List.IsChain (fun a b => b ∈ s.references a) (d :: (rest ++ [d])) →
      ∃ e ∈ d :: rest, s.isRefused e = true) ∧
    (∀ reentry program unit,
      outcome (Postfix.run (.guarded reentry (s.dependents.length + 1) []) program unit) s =
        outcome (Postfix.run s.calls program unit) s) ∧
    ∀ i, (s.isCircular i = true ↔
        TransGen (fun a b => b ∈ s.references a) (.function i) (.function i)) ∧
      (Graph.reach s.references s.dependents (s.references (.function i))).Nodup := by
  have informed := occurs.informed
  refine ⟨fun d rest circle => ?_, ?_, fun i => ⟨informed.isCircular_iff i, ?_⟩⟩
  · by_contra none
    push Not at none
    refine informed.acyclic d (transGen_of_isChain (fun e within => ?_) circle)
    exact Bool.eq_false_iff.2 (none e within)
  · exact informed.run_guarded
  · exact Graph.nodup_reach _ s.nodup_dependents _

/-- Two functions call each other, and the one that was defined last is refused. A call of the other
one still ends with a value, and nothing is re-entered. -/
theorem noReentry_mutual : ∃ (s : Session) (program : List Token), s.Occurs ∧
    List.IsChain (fun a b => b ∈ s.references a) [.function 0, .function 1, .function 0] ∧
    (∃ e ∈ [Dependent.function 0, .function 1], s.isRefused e = true) ∧
    (outcome (Postfix.run (.guarded (.ofDepth 0) (s.dependents.length + 1) []) program none) s).1.isOk =
      true := by
  let s := (((start {} ⟨1, 1⟩).after (.read "f(x) = x+1")).after (.read "g(x) = 2*f(x)")).after
    (.read "f(x) = g(x)")
  let program : List Token := [.constant (some (.real 3)) "3", .call (some 1) "g" 1]
  have occurs : s.Occurs := .request _ (.request _ (.request _ (.start _ _)))
  have circle : List.IsChain (fun a b => b ∈ s.references a)
      [.function 0, .function 1, .function 0] := by
    decide +kernel
  obtain ⟨refused, same, -⟩ := occurs.noReentry
  refine ⟨s, program, occurs, circle, refused (.function 0) [.function 1] circle, ?_⟩
  rw [same (.ofDepth 0) program none]
  decide +kernel

end Session

end UnitCalc

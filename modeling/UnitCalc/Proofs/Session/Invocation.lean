/-
# Calls in runs of sessions

A run of a session assigns real numbers to variables, reads numeric statements, some of which
define functions, and evaluates them. Whatever was kept before, every call that it makes has the
value that substitution gives: calls of statements, and calls inside of the bodies of others.

## Main definitions

* `Session.Run`: the sessions that runs lead to.
* `Invocation.Occurs`: the calls that a run makes.

## Main results

* `Session.Run.sound`: sessions are sound all along a run.
* `Invocation.Occurs.outcome_eq_substituted`: calls have the values that substitution gives.
-/

import UnitCalc.Proofs.Session.Running

namespace UnitCalc

open SessionM

/-- A call of a function: the session in which it begins, the function and its arguments. -/
structure Invocation where
  session : Session
  index : Nat
  args : List Value

namespace Code

/-- The codes that are run in any case, the first one first. -/
def operands : Code → List Code
  | .const _ | .read _ _ | .block _ => []
  | .assign _ a | .defineUnit _ a | .function _ a | .conditional a _ _ => [a]
  | .operator _ a b | .binaryFunction _ a b => [a, b]
  | .multiFunction _ args | .call _ args => args

/-- Running code from a session makes a call. -/
inductive Makes (calls : Calls) : Code → Session → Invocation → Prop where
  | call {index : Nat} {args : List Code} {values : List Value} {s s' : Session}
    (ran : outcome (runAll calls args) s = (.ok values, s')) :
    Makes calls (.call index args) s ⟨s', index, values⟩
  | operand {code a : Code} {before behind : List Code} {values : List Value} {s s' : Session}
    {c : Invocation} (split : code.operands = before ++ a :: behind)
    (ran : outcome (runAll calls before) s = (.ok values, s')) (makes : Makes calls a s' c) :
    Makes calls code s c
  | branch {condition whenTrue whenFalse : Code} {x : Value} {s s' : Session} {c : Invocation}
    (ran : outcome (condition.run calls) s = (.ok x, s'))
    (makes : Makes calls (if x.isFalse then whenFalse else whenTrue) s' c) :
    Makes calls (.conditional condition whenTrue whenFalse) s c

variable {calls : Calls} {callee : Nat → Prop} {J : Session → Prop} {code : Code} {s : Session}
  {c : Invocation}

theorem IsNumeric.operands (numeric : code.IsNumeric callee) :
    ∀ a ∈ code.operands, a.IsNumeric callee := by
  cases numeric with
  | const | read => exact List.forall_mem_nil _
  | function _ _ first => exact List.forall_mem_singleton.2 first
  | conditional condition => exact List.forall_mem_singleton.2 condition
  | operator _ first second =>
    exact List.forall_mem_cons.2 ⟨first, List.forall_mem_singleton.2 second⟩
  | binaryFunction _ first second =>
    exact List.forall_mem_cons.2 ⟨first, List.forall_mem_singleton.2 second⟩
  | multiFunction _ all => exact all
  | call _ all => exact all

/-- The calls of numeric code begin in sessions that it stays in, with plain numbers. -/
theorem IsNumeric.of_makes (kept : calls.KeepPlain callee J) (makes : code.Makes calls s c)
    (numeric : code.IsNumeric callee) (holds : J s) :
    J c.session ∧ callee c.index ∧ ∀ a ∈ c.args, a.IsPlain := by
  induction makes with
  | call ran =>
    cases numeric with
    | call known all =>
      have ended := keeps_runAll (fun a within => (all a within).keeps kept) _ holds
      rw [ran] at ended
      exact ⟨ended.1, known, ended.2 _ rfl⟩
  | operand split ran makes ih =>
    have all := numeric.operands
    rw [split, List.forall_mem_append, List.forall_mem_cons] at all
    have ended := keeps_runAll (fun a within => (all.1 a within).keeps kept) _ holds
    rw [ran] at ended
    exact ih all.2.1 ended.1
  | branch ran makes ih =>
    cases numeric with
    | conditional condition whenTrue whenFalse =>
      have ended := condition.keeps kept _ holds
      rw [ran] at ended
      refine ih ?_ ended.1
      split
      · exact whenFalse
      · exact whenTrue

end Code

namespace Postfix

/-- Running a program from a session makes a call. -/
inductive Makes (calls : Calls) : Machine → List Token → Session → Invocation → Prop where
  | call {m : Machine} {index count : Nat} {name : String} {rest : List Token} {s : Session}
    (enough : count ≤ m.stack.length) :
    Makes calls m (.call (some index) name count :: rest) s ⟨s, index, (m.stack.take count).reverse⟩
  | behind {m m' : Machine} {t : Token} {rest : List Token} {s s' : Session} {c : Invocation}
    (ordinary : t.isAssignment = false) (stepped : outcome (step calls m t) s = (.ok m', s'))
    (makes : Makes calls m' rest s' c) : Makes calls m (t :: rest) s c

/-- The tokens of a program that are run: all but the one that is assigned to. -/
def operations (program : List Token) : List Token :=
  match assignee? program with
  | none => program
  | some _ => program.tail

variable {calls : Calls} {callee : Nat → Prop} {J : Session → Prop} {m : Machine} {s : Session}
  {c : Invocation} {program : List Token}

/-- The calls of a numeric program begin in sessions that it stays in, with plain numbers. -/
theorem of_makes (kept : calls.KeepPlain (fun _ => True) J) (makes : Makes calls m program s c)
    (arithmetic : ∀ t ∈ program, t.isArithmetic = true) (plain : m.IsPlain) (holds : J s) :
    J c.session ∧ ∀ a ∈ c.args, a.IsPlain := by
  induction makes with
  | call enough =>
    exact ⟨holds, fun a within => plain a (List.mem_of_mem_take (List.mem_reverse.1 within))⟩
  | behind ordinary stepped makes ih =>
    rw [List.forall_mem_cons] at arithmetic
    have numeric := arithmetic.1
    rw [Token.isArithmetic, ordinary, Bool.or_false] at numeric
    have ended := keeps_step kept numeric (fun _ _ _ _ => trivial) plain _ holds
    rw [stepped] at ended
    exact ih arithmetic.2 (ended.2 _ rfl) ended.1

theorem forall_operations (arithmetic : ∀ t ∈ program, t.isArithmetic = true) :
    ∀ t ∈ operations program, t.isArithmetic = true := by
  unfold operations
  split
  · exact arithmetic
  · exact fun t within => arithmetic t (List.mem_of_mem_tail within)

end Postfix

/-- The sessions that a run leads to. It assigns real numbers, reads numeric statements, and
evaluates statements in any order and any number of times. -/
inductive Session.Run (settings : Settings) : Session → Prop where
  | start (g : StdGen) : Run settings (.start settings g)
  | assign {s : Session} (name : String) (x : Float) (run : Run settings s) :
    Run settings (s.setValue name (.real x))
  | read {s : Session} {text : String} (run : Run settings s)
    (reads : s.limitResults.ReadsNumbers text.toList) : Run settings (outcome (parse text) s).2
  | evaluate {s : Session} {statement : Statement} (run : Run settings s)
    (arithmetic : IsArithmetic statement) : Run settings (outcome (runStatement statement) s).2

/-- Sessions are sound all along a run. -/
theorem Session.Run.sound {settings : Settings} {s : Session} (run : s.Run settings) :
    s.Sound settings := by
  induction run with
  | start g => exact sound_start settings g
  | assign name x run ih => exact ih.setValue name (.ofNumber _)
  | read run reads ih => exact (ih.parse reads).1
  | evaluate run arithmetic ih => exact ih.runStatement arithmetic

/-- Reading a text and evaluating it at once is part of a run. -/
theorem Session.Run.evaluate_text {settings : Settings} {s : Session} (run : s.Run settings)
    {text : String} (reads : s.limitResults.ReadsNumbers text.toList) :
    (outcome (SessionM.evaluate text) s).2.Run settings := by
  have read := run.read reads
  have arithmetic := (run.sound.parse reads).2
  unfold SessionM.evaluate
  rw [outcome_bind]
  cases parsed : outcome (parse text) s with
  | mk r s' =>
    rw [parsed] at read arithmetic
    cases r with
    | error e => exact read
    | ok statement => exact read.evaluate (arithmetic statement rfl)

namespace Invocation

/-- A call that a run makes, and the depth that calls in it may be nested to: a statement makes
it, or the body of a function that is called and evaluated. -/
inductive Occurs (settings : Settings) : Nat → Invocation → Prop where
  | statement {s : Session} {statement : Statement} {c : Invocation} (run : s.Run settings)
    (arithmetic : Session.IsArithmetic statement)
    (makes : Postfix.Makes s.settled.calls {} (Postfix.operations statement.program) s.settled c) :
    Occurs settings (s.functions.size + s.blocks.size + 1) c
  | body {depth : Nat} {c c' : Invocation} {f : UserFunction} {code : Code} {s : Session}
    (outer : Occurs settings (depth + 1) c)
    (enters : c.session.Enters c.index c.args f code s)
    (makes : code.Makes (.ofDepth depth) s c') : Occurs settings depth c'

variable {settings : Settings} {depth : Nat} {c : Invocation} {v : Value}

/-- What a call ends with. -/
def outcome (c : Invocation) (depth : Nat) : Except CalcError Value × Session :=
  SessionM.outcome ((Calls.ofDepth depth).function c.index c.args) c.session

/-- The value of a call by substitution in the session in which it begins. -/
def substituted (c : Invocation) (nesting : Nat) : Option Value :=
  c.session.substituted nesting c.index c.args

/-- A call that occurs begins in a sound session, with plain numbers, and may be nested deeply
enough. -/
theorem Occurs.sound (occurs : c.Occurs settings depth) :
    c.session.Sound settings ∧ c.session.rank c.index < depth ∧ ∀ a ∈ c.args, a.IsPlain := by
  induction occurs with
  | @statement s statement c run arithmetic makes =>
    have kept := Session.Runs.keepPlain (Calls.answer_ofDepth settings
      (s.settled.functions.size + s.settled.blocks.size + 1))
    obtain ⟨⟨sound, fewer⟩, plain⟩ := Postfix.of_makes kept makes
      (Postfix.forall_operations arithmetic.2) (List.forall_mem_nil _) run.sound.settled.runs
    exact ⟨sound, Nat.lt_of_le_of_lt (c.session.rank_le c.index) fewer, plain⟩
  | @body depth c c' f code s outer enters makes ih =>
    obtain ⟨sound, fewer, plain⟩ := ih
    obtain ⟨sound', after, compiled, -⟩ := enters.start sound plain
    have rank : s.rank c.index ≤ depth := by
      rw [after.rank_eq]
      exact Nat.le_of_lt_succ fewer
    have numeric : code.IsNumeric (s.Leads c.index) := by
      rw [after.leads_eq]
      exact sound.isNumeric_code enters.function enters.closed compiled
    -- the call begins inside of the body, and leads further down
    obtain ⟨inside, leads, plain'⟩ := numeric.of_makes
      (Session.keepPlain (Calls.answer_ofDepth settings depth) sound' rank) makes
      ⟨sound', .refl _ s⟩
    refine ⟨inside.1, ?_, plain'⟩
    rw [inside.2.rank_eq]
    exact Nat.lt_of_lt_of_le (sound'.rank_lt leads) rank

/-- Every call in a run has the value that substitution gives: results that are kept, compiled
bodies and what is forgotten after changes cannot be observed. -/
theorem Occurs.outcome_eq_substituted (occurs : c.Occurs settings depth) {nesting : Nat}
    (value : c.substituted nesting = some v) : (c.outcome depth).1 = .ok v := by
  obtain ⟨sound, fewer, plain⟩ := occurs.sound
  exact (Calls.answer_ofDepth settings depth c.session c.index c.args sound fewer plain).value
    nesting v value

/-- A result that was kept is not used any more after a variable changed. -/
theorem occurs_after_assignment : ∃ (c : Invocation) (depth : Nat), c.Occurs {} depth ∧
    (c.substituted 1).map Quantity.re = some 6 ∧
    (c.outcome depth).1.toOption.map Quantity.re = some 6 := by
  have start := @Session.Run.start {} ⟨1, 1⟩
  have defined := @Session.Run.read {} _ "f(x) = x+z" start (by decide +kernel)
  have called := @Session.Run.evaluate_text {} _ (defined.assign "z" 3) "f(2)" (by decide +kernel)
  have run := called.assign "z" 4
  let statement : Statement :=
    ⟨[.constant (some (.real 2)) "2", .call (some 0) "f" 1], none, none, "f(2)"⟩
  obtain ⟨c, depth, occurs, valued⟩ : ∃ (c : Invocation) (depth : Nat), c.Occurs {} depth ∧
      (c.substituted 1).map Quantity.re = some 6 :=
    ⟨_, _, @Occurs.statement {} _ statement _ run ⟨rfl, by decide⟩
      (.behind rfl rfl (.call (Nat.le_refl 1))), by decide +kernel⟩
  obtain ⟨v, value, same⟩ := Option.map_eq_some_iff.1 valued
  refine ⟨c, depth, occurs, valued, ?_⟩
  rw [occurs.outcome_eq_substituted value]
  exact congrArg some same

end Invocation

end UnitCalc

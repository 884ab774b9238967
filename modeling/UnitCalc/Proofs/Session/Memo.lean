/-
# Kept results and substitution

Every call in a sound session has the value that substitution gives, whether its result was
kept, or its code was, or it is evaluated for the first time; and the session stays sound, since
the new result agrees with substitution too. The proof is by induction on the depth that calls
may be nested to, which is more than the number of functions.

## Main results

* `Calls.answer_ofDepth`: calls are answered up to the depth of their nesting.
-/

import UnitCalc.Proofs.Session.Body
import UnitCalc.Session.Interpreter

namespace UnitCalc

open SessionM

theorem UserFunction.bare_limited (f : UserFunction) : f.limited.bare = f.bare := by
  unfold limited
  split <;> rfl

theorem UserFunction.bare_keep (f : UserFunction) (args : List Value) (result : Value) :
    (f.keep args result).bare = f.bare := by
  rw [← f.bare_limited]
  unfold keep
  simp only
  split <;> rfl

theorem UserFunction.results_limited {f : UserFunction} {e : List ArgumentKey × Value}
    (within : e ∈ f.limited.results) : e ∈ f.results := by
  unfold limited at within
  split at within
  · cases within
  · exact within

theorem UserFunction.code_limited (f : UserFunction) : f.limited.code = f.code := by
  unfold limited
  split <;> rfl

/-- A function keeps the results that it had, and at most the new one. -/
theorem UserFunction.results_keep {f : UserFunction} {args : List Value} {result : Value}
    {e : List ArgumentKey × Value} (within : e ∈ (f.keep args result).results) :
    e = (args.map ArgumentKey.ofValue, result) ∨ e ∈ f.results := by
  unfold keep at within
  simp only at within
  split at within
  · rcases List.mem_cons.1 within with rfl | within
    · exact .inl rfl
    · exact .inr (results_limited within)
  · exact .inr (results_limited within)

theorem UserFunction.code_keep (f : UserFunction) (args : List Value) (result : Value) :
    (f.keep args result).code = f.code := by
  rw [← f.code_limited]
  unfold keep
  simp only
  split <;> rfl

namespace Session

variable {s s' : Session} {settings : Settings} {index : Nat} {args : List Value}
  {f : UserFunction} {code : Code} {calls : Calls} {depth d : Nat} {v x : Value}

/-- The body of a call that has a value compiles. -/
theorem IsNumeric.exists_code (numeric : s.IsNumeric settings)
    (found : s.functions[index]? = some f) (closed : f.isCircular = false)
    (enough : args.length = f.arity) (value : s.substituted depth index args = some v) :
    ∃ code, Code.ofPostfix s.compilation f.body = .ok code := by
  obtain _ | depth := depth
  · cases value
  rw [substituted, found, Option.bind_some, closed, if_neg (by simp), if_pos enough] at value
  -- no session is needed to make code
  have fits : ∀ t ∈ f.body, s.compilation.Fits (s.bodyMeaning f args (s.substituted depth))
      (.ofDepth 0) (fun _ => False) t := by
    intro t within
    have plain := numeric.numeric index f found t within
    refine ⟨Token.agrees_of_alike (.refl _) plain, fun _ => False.elim, fun x name token => ?_,
      fun cell name x token _ => ?_, fun _ _ _ _ _ _ _ _ => False.elim,
      fun _ _ _ _ _ _ => False.elim⟩
    · rw [token] at plain
      cases plain
    · subst token
      obtain ⟨id, rfl, -⟩ := numeric.binds index f found _ within
      refine ⟨.read id name, ?_, fun _ => False.elim, fun _ same => by cases same⟩
      simp only [Code.ofVariable, numeric.compilation name plain, ite_self]
  obtain ⟨code, compiled, -⟩ := Code.exists_means fits value
  exact ⟨code, compiled⟩

/-- What the run of the code of a body ends with is kept. -/
theorem Enters.sound_keep (enters : s.Enters index args f code s') (sound : s.Sound settings)
    (plain : ∀ a ∈ args, a.IsPlain) (answer : calls.Answer settings d) (rank : s.rank index ≤ d)
    {t : Session} (ran : outcome (code.run calls) s' = (.ok x, t)) (plain' : x.IsPlain)
    (inside : s'.Inside settings index t) :
    (t.modifyFunction index fun f => f.keep args x).Sound settings := by
  obtain ⟨sound', after, -, -⟩ := enters.start sound plain
  have same : t.substituted = s.substituted := by
    rw [inside.2.substituted_eq sound'.toIsNumeric fun id below =>
        sound'.isPrivate_of_touched id (touched_of_below below),
      after.substituted_eq sound.toIsNumeric (sound.isPrivate index f enters.function)]
  refine inside.1.modifyFunction (fun g => g.bare_keep args x) fun g found => ?_
  have coherent := inside.1.coherent index g found
  refine ⟨fun e within => ?_, fun e within args' plainArgs key depth v value => ?_,
    fun code kept => ?_⟩
  · rcases UserFunction.results_keep within with rfl | within
    · exact plain'
    · exact coherent.plain e within
  · rcases UserFunction.results_keep within with rfl | within
    · -- the arguments are those of the new result
      obtain rfl := Quantity.IsPlain.eq_of_keys plainArgs plain key
      rw [same] at value
      obtain _ | depth := depth
      · cases value
      obtain ⟨t', ran', -⟩ := enters.yields sound plain answer rank value s' ⟨sound', .refl _ s'⟩
      cases ran.symm.trans ran'
      rfl
    · exact coherent.result e within args' plainArgs key depth v value
  · rw [g.code_keep] at kept
    have body : (g.keep args x).body = g.body := (UserFunction.eq_of_bare (g.bare_keep args x)).2.1
    rw [body]
    exact coherent.code code kept

/-- Cells that change after a body was entered are cells of the call. -/
theorem Enters.after (enters : s.Enters index args f code s') (sound : s.Sound settings)
    (plain : ∀ a ∈ args, a.IsPlain) {t : Session} (inside : s'.Inside settings index t) :
    s.AfterCalls (s.Touched index) t := by
  obtain ⟨-, after, -, -⟩ := enters.start sound plain
  refine (after.mono fun id own => ?_).trans (inside.2.mono fun id below => ?_)
  · exact ⟨index, f, .refl, enters.function, own⟩
  · rw [after.below_eq] at below
    exact touched_of_below below

/-- A call whose body is evaluated. -/
theorem Enters.answered (enters : s.Enters index args f code s') (sound : s.Sound settings)
    (plain : ∀ a ∈ args, a.IsPlain) (answer : calls.Answer settings d) (rank : s.rank index ≤ d) :
    s.Answered settings index args (outcome (do
      let value ← code.run calls
      let result ← ofExcept (value.applyTarget f.unit)
      modify fun s => s.modifyFunction index fun f => f.keep args result
      return result) s') := by
  obtain ⟨sound', after, compiled, -⟩ := enters.start sound plain
  have start : s'.Inside settings index s' := ⟨sound', .refl _ s'⟩
  obtain ⟨g, here, same⟩ := after.exists_function' enters.function
  have numeric : code.IsNumeric (s'.Leads index) := by
    rw [after.leads_eq]
    exact sound.isNumeric_code enters.function enters.closed compiled
  have kept := numeric.keeps (keepPlain answer sound' (after.rank_eq ▸ rank)) s' start
  -- The code has the value of the body by substitution, if there is one.
  cases ran : outcome (code.run calls) s' with
  | mk r t =>
    rw [ran] at kept
    have value : ∀ depth v, s.substituted depth index args = some v → r = .ok v := by
      intro depth v value
      obtain _ | depth := depth
      · cases value
      obtain ⟨t', ran', -⟩ := enters.yields sound plain answer rank value s' start
      cases ran.symm.trans ran'
      rfl
    cases r with
    | error e =>
      rw [outcome_bind_error ran]
      refine ⟨kept.1.1, enters.after sound plain kept.1, (fun _ same => by cases same),
        fun depth v known => ?_⟩
      cases value depth v known
    | ok x =>
      have plain' := kept.2 x rfl
      have final := enters.sound_keep sound plain answer rank ran plain' kept.1
      rw [outcome_bind_ok ran, sound.unit index f enters.function, plain'.applyTarget_none]
      refine ⟨final, ?_, fun y same => ?_, value⟩
      · exact (enters.after sound plain kept.1).trans
          (afterCalls_modifyFunction _ fun g => g.bare_keep args x)
      · cases same
        exact plain'

theorem outcome_checkCancelled (going : s.isCancelled = false) :
    outcome checkCancelled s = (.ok ⟨⟩, s) := by
  unfold checkCancelled
  rw [outcome_bind_ok (outcome_get s), going]
  rfl

/-- A call that is not answered from a kept result. -/
theorem outcome_evaluateCall_of_missed (found : s.functions[index]? = some f)
    (closed : f.isCircular = false) (going : s.isCancelled = false) (enough : args.length = f.arity)
    (missed : f.result? args = none) : outcome (evaluateCall calls index args) s = outcome (do
      let code ← functionCode index f
      let value ← code.run calls
      let result ← ofExcept (value.applyTarget f.unit)
      modify fun s => s.modifyFunction index fun f => f.keep args result
      return result) (s.prepared index f args) := by
  unfold evaluateCall
  rw [outcome_bind_ok (outcome_get s)]
  simp only [found, closed, Bool.false_eq_true, if_false, missed, enough, ne_eq, not_true_eq_false]
  rw [outcome_bind_ok (outcome_checkCancelled going), outcome_bind_ok (outcome_modify _ s)]
  unfold runFunction
  simp only [bind_assoc]
  rw [outcome_bind_ok (outcome_modify _ _)]
  rfl

/-- A call that is answered from a kept result counts it, and does nothing else. -/
theorem outcome_evaluateCall_of_kept (found : s.functions[index]? = some f)
    (closed : f.isCircular = false) (going : s.isCancelled = false) (enough : args.length = f.arity)
    (kept : f.result? args = some x) : outcome (evaluateCall calls index args) s =
      (.ok x, s.modifyFunction index fun f => { f with hits := f.hits + 1 }) := by
  unfold evaluateCall
  rw [outcome_bind_ok (outcome_get s)]
  simp only [found, closed, Bool.false_eq_true, if_false, kept, enough, ne_eq, not_true_eq_false]
  rw [outcome_bind_ok (outcome_checkCancelled going)]
  rfl

/-- The session and the result are as before a call that ends at once. -/
theorem Sound.answered_here {r : Except CalcError Value} (sound : s.Sound settings)
    (plain : ∀ x, r = .ok x → x.IsPlain)
    (value : ∀ depth v, s.substituted depth index args = some v → r = .ok v) :
    s.Answered settings index args (r, s) :=
  ⟨sound, .refl _ s, plain, value⟩

/-- A call that is evaluated for the first time. -/
theorem Sound.answered_missed (sound : s.Sound settings) (plain : ∀ a ∈ args, a.IsPlain)
    (answer : calls.Answer settings d) (rank : s.rank index ≤ d)
    (found : s.functions[index]? = some f) (closed : f.isCircular = false)
    (enough : args.length = f.arity) (missed : f.result? args = none) :
    s.Answered settings index args (outcome (evaluateCall calls index args) s) := by
  have after := s.afterCalls_prepared index f args
  have before := sound.prepared found plain
  rw [outcome_evaluateCall_of_missed found closed sound.going enough missed]
  cases made : outcome (functionCode index f) (s.prepared index f args) with
  | mk r t =>
    cases r with
    | ok code =>
      rw [outcome_bind_ok made]
      exact Enters.answered ⟨found, closed, sound.going, enough, missed, made⟩ sound plain answer rank
    | error e =>
      rw [outcome_bind_error made]
      -- the body does not compile, so the call has no value
      rcases outcome_functionCode index f (s.prepared index f args) with
        ⟨code, -, ended⟩ | ⟨e', refused, ended⟩ | ⟨code, -, ended⟩
      · cases made.symm.trans ended
      · cases made.symm.trans ended
        refine ⟨before, after.mono fun id own => ⟨index, f, .refl, found, own⟩,
          (fun _ same => by cases same), fun depth v value => ?_⟩
        obtain ⟨code, compiled⟩ := sound.exists_code found closed enough value
        rw [Code.ofPostfix_congr (calculator_alike after.settings) before.compilation
          sound.compilation (sound.numeric index f found), compiled] at refused
        cases refused
      · cases made.symm.trans ended

/-- A call whose result was kept. -/
theorem Sound.answered_kept (sound : s.Sound settings) (plain : ∀ a ∈ args, a.IsPlain)
    (found : s.functions[index]? = some f) (closed : f.isCircular = false)
    (enough : args.length = f.arity) (kept : f.result? args = some x) :
    s.Answered settings index args (outcome (evaluateCall calls index args) s) := by
  have within : (args.map ArgumentKey.ofValue, x) ∈ f.results := by
    unfold UserFunction.result? at kept
    split at kept
    · obtain ⟨before, behind, results, -⟩ := List.lookup_eq_some_iff.1 kept
      simp [results]
    · cases kept
  have coherent := sound.coherent index f found
  rw [outcome_evaluateCall_of_kept found closed sound.going enough kept]
  refine ⟨?_, afterCalls_modifyFunction _ fun _ => rfl, fun y same => ?_, fun depth v value => ?_⟩
  · exact sound.modifyFunction (fun _ => rfl) fun g here =>
      (sound.coherent index g here).of_fewer rfl (fun _ within => within) fun _ kept => kept
  · cases same
    exact coherent.plain _ within
  · exact congrArg Except.ok (coherent.result _ within args plain rfl depth v value)

/-- Calls are answered when the calls inside of them are. -/
theorem answered_evaluateCall (sound : s.Sound settings) (plain : ∀ a ∈ args, a.IsPlain)
    (answer : calls.Answer settings d) (rank : s.rank index ≤ d) :
    s.Answered settings index args (outcome (evaluateCall calls index args) s) := by
  cases found : s.functions[index]? with
  | none =>
    have ended : outcome (evaluateCall calls index args) s =
        (.error (.functionNotDefined ("#" ++ toString index)), s) := by
      unfold evaluateCall
      rw [outcome_bind_ok (outcome_get s)]
      simp only [found, outcome_throw]
    rw [ended]
    refine sound.answered_here (fun _ same => by cases same) fun depth v value => ?_
    cases depth <;> simp [substituted, found] at value
  | some f =>
    -- A circular function is undefined without being run, also by substitution.
    by_cases closed : f.isCircular = true
    · have ended : outcome (evaluateCall calls index args) s = (.ok .undefined, s) := by
        unfold evaluateCall
        rw [outcome_bind_ok (outcome_get s)]
        simp only [found, closed, if_true, outcome_pure]
      rw [ended]
      refine sound.answered_here (fun x same => ?_) fun depth v value => ?_
      · cases same
        exact .undefined
      · cases depth <;> simp [substituted, found, closed] at value
        rw [value]
    rw [Bool.not_eq_true] at closed
    by_cases enough : args.length = f.arity
    · cases missed : f.result? args with
      | none => exact sound.answered_missed plain answer rank found closed enough missed
      | some result => exact sound.answered_kept plain found closed enough missed
    · have ended : outcome (evaluateCall calls index args) s = (.error .argumentCount, s) := by
        unfold evaluateCall
        rw [outcome_bind_ok (outcome_get s)]
        simp only [found, closed, Bool.false_eq_true, if_false, ne_eq, enough, not_false_eq_true,
          if_true]
        rw [outcome_bind_ok (outcome_checkCancelled sound.going)]
        rfl
      rw [ended]
      refine sound.answered_here (fun _ same => by cases same) fun depth v value => ?_
      cases depth <;> simp [substituted, found, closed, enough] at value

end Session

/-- Calls are answered up to the depth that they may be nested to. -/
theorem Calls.answer_ofDepth (settings : Settings) (d : Nat) :
    (Calls.ofDepth d).Answer settings d := by
  induction d with
  | zero => exact fun s index args _ rank => absurd rank (Nat.not_lt_zero _)
  | succ d ih =>
    intro s index args sound rank plain
    exact Session.answered_evaluateCall sound plain ih (Nat.le_of_lt_succ rank)

end UnitCalc

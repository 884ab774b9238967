/-
# Evaluating bodies

When a call is not answered from a kept result, its arguments are stored, the body is compiled,
and its code runs. During the run the session stays sound and only parameters of functions
further down change, so the code has the value that substitution gives, provided that the
calls inside of it do.

## Main definitions

* `Session.Enters`: the code of a body is about to run.
* `Calls.Answer`: calls agree with substitution and leave the session sound.

## Main results

* `Session.Enters.keeps`, `Session.Enters.yields`: what the code of the body does.
-/

import UnitCalc.Proofs.Session.Nesting

namespace UnitCalc

open SessionM

namespace Session

/-- A call of a function is evaluated in a session by running code in another one. -/
structure Enters (s : Session) (index : Nat) (args : List Value) (f : UserFunction) (code : Code)
    (s' : Session) : Prop where
  function : s.functions[index]? = some f
  closed : f.isCircular = false
  going : s.isCancelled = false
  enough : args.length = f.arity
  missed : f.result? args = none
  made : outcome (functionCode index f)
    ((s.modifyFunction index fun f => { f with misses := f.misses + 1 }).storeAll
      (f.parameters.map Prod.snd) args) = (.ok code, s')

/-- A call that began in a session agrees with substitution and leaves the session sound. -/
structure Answered (settings : Settings) (s : Session) (index : Nat) (args : List Value)
    (r : Except CalcError Value × Session) : Prop where
  sound : r.2.Sound settings
  after : s.AfterCalls (s.Touched index) r.2
  plain : ∀ x, r.1 = .ok x → x.IsPlain
  value : ∀ depth v, s.substituted depth index args = some v → r.1 = .ok v

end Session

/-- Calls of functions that lead to fewer than `d` others are answered. -/
def Calls.Answer (settings : Settings) (calls : Calls) (d : Nat) : Prop :=
  ∀ (s : Session) index args, s.Sound settings → s.rank index < d → (∀ a ∈ args, a.IsPlain) →
    s.Answered settings index args (outcome (calls.function index args) s)

namespace Session

variable {s s' : Session} {settings : Settings} {index : Nat} {args : List Value}
  {f g : UserFunction} {code : Code} {calls : Calls} {depth d : Nat} {v : Value}

theorem isPlain_of_assigned? (numeric : s.IsNumeric settings) {id : CellId}
    (assigned : s.assigned? id = some v) : v.IsPlain := by
  simp only [assigned?] at assigned
  split at assigned
  · cases assigned
    exact numeric.plain id
  · cases assigned

theorem isPlain_of_lookup {names : List String} {name : String} (plain : ∀ a ∈ args, a.IsPlain)
    (found : (names.zip args).lookup name = some v) : v.IsPlain := by
  induction names generalizing args with
  | nil => cases found
  | cons first names ih =>
    cases args with
    | nil => cases found
    | cons a args =>
      rw [List.forall_mem_cons] at plain
      rw [List.zip_cons_cons, List.lookup_cons] at found
      split at found
      · cases found
        exact plain.1
      · exact ih plain.2 found

theorem IsNumeric.isPlain_bodyMeaning (numeric : s.IsNumeric settings)
    {call : Nat → List Value → Option Value} (plain : ∀ a ∈ args, a.IsPlain)
    (called : ∀ i args' x, (∀ a ∈ args', a.IsPlain) → call i args' = some x → x.IsPlain) :
    (s.bodyMeaning f args call).IsPlain where
  name cell name x found := by
    simp only [bodyMeaning] at found
    split at found
    · exact isPlain_of_lookup plain found
    · obtain ⟨id, -, assigned⟩ := Option.bind_eq_some_iff.1 found
      exact isPlain_of_assigned? numeric assigned
  call := called

/-- Calls by substitution have plain values. -/
theorem IsNumeric.isPlain_of_substituted (numeric : s.IsNumeric settings)
    (plain : ∀ a ∈ args, a.IsPlain) (value : s.substituted depth index args = some v) :
    v.IsPlain := by
  induction depth generalizing index args v with
  | zero => cases value
  | succ depth ih =>
    obtain ⟨f, found, value⟩ := Option.bind_eq_some_iff.1 value
    split at value
    · cases value
      exact .undefined
    · split at value
      · exact Postfix.isPlain_of_value?
          (numeric.isPlain_bodyMeaning plain fun i args' x plain' => ih plain')
          (numeric.numeric index f found) value
      · cases value

theorem functions_storeAll (s : Session) (cells : List CellId) (args : List Value) :
    (s.storeAll cells args).functions = s.functions := by
  induction cells generalizing s args with
  | nil => rfl
  | cons id cells ih =>
    cases args with
    | nil => rfl
    | cons value args => exact ih (s.store id value) args

theorem isPlain_storeAll {cells : List CellId} (plain : ∀ a ∈ args, a.IsPlain)
    (others : ∀ id, (s.cell id).value.IsPlain) (id : CellId) :
    ((s.storeAll cells args).cell id).value.IsPlain := by
  induction cells generalizing s args with
  | nil => exact others id
  | cons first cells ih =>
    cases args with
    | nil => exact others id
    | cons value args =>
      rw [List.forall_mem_cons] at plain
      rw [storeAll_cons]
      exact ih plain.2 (isPlain_store plain.1 others)

/-- A change of what a function keeps that agrees with substitution. -/
theorem Sound.modifyFunction {change : UserFunction → UserFunction} (sound : s.Sound settings)
    (keeps : ∀ g, (change g).bare = g.bare)
    (coherent : ∀ g, s.functions[index]? = some g → s.Coherent index (change g)) :
    (s.modifyFunction index change).Sound settings := by
  have after : s.AfterCalls (fun _ => False) (s.modifyFunction index change) :=
    afterCalls_modifyFunction _ keeps
  refine after.sound sound.toIsNumeric (fun _ => False.elim) (fun _ => False.elim) fun i g found => ?_
  rw [getElem?_modifyFunction] at found
  split at found
  · next same =>
    obtain ⟨f, found', rfl⟩ := Option.map_eq_some_iff.1 found
    exact same ▸ coherent f (same ▸ found')
  · exact sound.coherent i g found

/-- Arguments are stored where only the body looks for them. -/
theorem Sound.storeAll (sound : s.Sound settings) (found : s.functions[index]? = some f)
    (plain : ∀ a ∈ args, a.IsPlain) : (s.storeAll f.cells args).Sound settings := by
  refine (afterCalls_storeAll f.cells args).sound sound.toIsNumeric
    (sound.isPrivate index f found) (fun id _ => isPlain_storeAll plain sound.plain id) ?_
  rw [functions_storeAll]
  exact sound.coherent

/-- The session in which the body of a function is compiled: a call more was not answered, and
the arguments are stored. -/
def prepared (s : Session) (index : Nat) (f : UserFunction) (args : List Value) : Session :=
  (s.modifyFunction index fun f => { f with misses := f.misses + 1 }).storeAll f.cells args

theorem afterCalls_prepared (s : Session) (index : Nat) (f : UserFunction) (args : List Value) :
    s.AfterCalls (· ∈ f.cells) (s.prepared index f args) := by
  refine AfterCalls.trans ?_ (afterCalls_storeAll f.cells args)
  exact afterCalls_modifyFunction (· ∈ f.cells) fun _ => rfl

theorem Sound.prepared (sound : s.Sound settings) (found : s.functions[index]? = some f)
    (plain : ∀ a ∈ args, a.IsPlain) : (s.prepared index f args).Sound settings := by
  have counted : (s.modifyFunction index fun f => { f with misses := f.misses + 1 }).Sound settings :=
    sound.modifyFunction (fun _ => rfl) fun g here =>
      (sound.coherent index g here).of_fewer rfl (fun _ within => within) fun _ kept => kept
  have found' : (s.modifyFunction index fun f => { f with misses := f.misses + 1 }).functions[index]? =
      some { f with misses := f.misses + 1 } := by
    rw [getElem?_modifyFunction, if_pos rfl, found]
    rfl
  have stored := counted.storeAll found' plain
  exact stored

/-- The code of a function is the one that it keeps, or the one of its body. -/
theorem outcome_functionCode (index : Nat) (f : UserFunction) (s : Session) :
    (∃ code, f.code = some code ∧ outcome (functionCode index f) s = (.ok code, s)) ∨
      (∃ e, Code.ofPostfix s.compilation f.body = .error e ∧
        outcome (functionCode index f) s = (.error e, s)) ∨
      ∃ code, Code.ofPostfix s.compilation f.body = .ok code ∧
        outcome (functionCode index f) s =
          (.ok code, s.modifyFunction index fun f => { f with code := some code }) := by
  unfold functionCode
  cases kept : f.code with
  | some code => exact .inl ⟨code, rfl, rfl⟩
  | none =>
    simp only
    cases made : Code.ofPostfix s.compilation f.body with
    | error e => exact .inr (.inl ⟨e, rfl, outcome_bind_error (by rw [outcome_read, made])⟩)
    | ok code =>
      refine .inr (.inr ⟨code, rfl, ?_⟩)
      rw [outcome_bind_ok (by rw [outcome_read, made])]
      rfl

/-- When a body is entered the session is sound, parameters hold the arguments, and the code is
that of the body. -/
theorem Enters.start (enters : s.Enters index args f code s') (sound : s.Sound settings)
    (plain : ∀ a ∈ args, a.IsPlain) : s'.Sound settings ∧ s.AfterCalls (· ∈ f.cells) s' ∧
      Code.ofPostfix s.compilation f.body = .ok code ∧
      (∀ id, s'.assigned? id = (s.prepared index f args).assigned? id) := by
  have before := sound.prepared enters.function plain
  have after := s.afterCalls_prepared index f args
  have made := enters.made
  change outcome (functionCode index f) (s.prepared index f args) = _ at made
  have same : Code.ofPostfix (s.prepared index f args).compilation f.body =
      Code.ofPostfix s.compilation f.body :=
    Code.ofPostfix_congr (calculator_alike after.settings) before.compilation sound.compilation
      (sound.numeric index f enters.function)
  rcases outcome_functionCode index f (s.prepared index f args) with
    ⟨code', kept, ended⟩ | ⟨e, -, ended⟩ | ⟨code', compiled, ended⟩
  · -- the code was kept from an earlier call
    cases made.symm.trans ended
    exact ⟨before, after, (sound.coherent index f enters.function).code code kept, fun _ => rfl⟩
  · cases made.symm.trans ended
  · cases made.symm.trans ended
    refine ⟨before.modifyFunction (fun _ => rfl) fun g found => ?_,
      after.trans (afterCalls_modifyFunction _ fun _ => rfl), same ▸ compiled, fun _ => rfl⟩
    obtain ⟨f', found', bare⟩ := after.exists_function found
    cases enters.function.symm.trans found'
    have coherent := before.coherent index g found
    exact ⟨coherent.plain, coherent.result, fun code kept => by
      cases kept
      rw [← (UserFunction.eq_of_bare bare).2.1]
      exact compiled⟩

/-- The sessions inside of a body: sound, with other cells only below the function. -/
def Inside (settings : Settings) (s : Session) (index : Nat) (s' : Session) : Prop :=
  s'.Sound settings ∧ s.AfterCalls (s.Below index) s'

/-- Inside of a body calls are answered, and stay inside of it. -/
theorem keepPlain (answer : calls.Answer settings d) (sound : s.Sound settings)
    (rank : s.rank index ≤ d) : calls.KeepPlain (s.Leads index) (s.Inside settings index) where
  names t inside := inside.1.compilation
  cells t inside id x assigned := isPlain_of_assigned? inside.1.toIsNumeric assigned
  called j args leads plain t inside := by
    have fewer : t.rank j < d := by
      rw [inside.2.rank_eq]
      exact Nat.lt_of_lt_of_le (sound.rank_lt leads) rank
    have answered := answer t j args inside.1 fewer plain
    have below := answered.after.mono fun _ => inside.2.below_of_touched leads
    exact ⟨⟨answered.sound, inside.2.trans below⟩, answered.plain⟩

/-- The code of a body is numeric over what the function calls. -/
theorem IsNumeric.isNumeric_code (numeric : s.IsNumeric settings) (found : s.functions[index]? = some f)
    (closed : f.isCircular = false) (compiled : Code.ofPostfix s.compilation f.body = .ok code) :
    code.IsNumeric (s.Leads index) :=
  Code.isNumeric_ofPostfix numeric.compilation (numeric.numeric index f found)
    (fun _ name count within => ⟨f, found, closed, name, count, within⟩) compiled

/-- Inside of a body a parameter holds its argument, and other names have the values that they
had before the call. -/
theorem Enters.assigned?_eq (enters : s.Enters index args f code s') (sound : s.Sound settings)
    (plain : ∀ a ∈ args, a.IsPlain) {cell : Option CellId} {name : String} {t : Session}
    (within : .variable cell name ∈ f.body) (inside : s'.Inside settings index t)
    {call : Nat → List Value → Option Value} (found : (s.bodyMeaning f args call).name cell name = some v) :
    ∃ id, cell = some id ∧ t.assigned? id = some v := by
  obtain ⟨sound', after, -, stored⟩ := enters.start sound plain
  obtain ⟨g, here, same⟩ := after.exists_function' enters.function
  obtain ⟨id, rfl, bound⟩ := sound.binds index f enters.function _ within
  refine ⟨id, rfl, ?_⟩
  simp only [bodyMeaning] at found
  cases parameter : f.parameters.lookup name with
  | some cell =>
    rw [parameter, Option.some_or] at bound
    cases bound
    rw [parameter, Option.isSome_some, if_pos rfl] at found
    -- no function further down has this parameter
    have own : id ∈ g.cells := by
      rw [after.cells_eq enters.function here]
      obtain ⟨before, behind, parameters, -⟩ := List.lookup_eq_some_iff.1 parameter
      simp [UserFunction.cells, parameters]
    have kept := inside.2.cells id (sound'.not_below here own)
    have holds : t.assigned? id = s'.assigned? id := by simp only [assigned?, kept]
    rw [holds, stored, ← found]
    refine assigned?_storeAll (sound.distinct index f enters.function) (fun id' own' => ?_)
      enters.enough parameter
    exact (sound.isPrivate index f enters.function id' own').exists_
  | none =>
    rw [parameter, Option.isSome_none, if_neg (by simp), Option.bind_some] at found
    rw [parameter, Option.none_or] at bound
    have isPrivate : ∀ id, s'.Below index id → s'.IsPrivate id :=
      fun id below => sound'.isPrivate_of_touched id (touched_of_below below)
    have parameter' : g.parameters.lookup name = none := by
      rw [(UserFunction.eq_of_bare same).1]
      exact parameter
    have within' : .variable (some id) name ∈ g.body := by
      rw [(UserFunction.eq_of_bare same).2.1]
      exact within
    rw [inside.2.assigned?_eq sound'.toIsNumeric isPrivate here within' parameter',
      after.assigned?_eq sound.toIsNumeric (sound.isPrivate index f enters.function)
        enters.function within parameter]
    exact found

/-- Names and calls of a body mean the same when it is compiled and when it runs. -/
theorem Enters.fits (enters : s.Enters index args f code s') (sound : s.Sound settings)
    (plain : ∀ a ∈ args, a.IsPlain) (answer : calls.Answer settings d) (rank : s.rank index ≤ d)
    {t : Token} (within : t ∈ f.body) :
    s.compilation.Fits (s.bodyMeaning f args (s.substituted depth)).onPlain calls
      (s'.Inside settings index) t := by
  obtain ⟨sound', after, -, -⟩ := enters.start sound plain
  have numeric := sound.numeric index f enters.function t within
  refine ⟨?_, fun u inside => ?_, fun value name token => ?_, fun cell name value token named => ?_,
    fun i name count args' value token called => ?_, fun i name value token => ?_⟩
  · exact Token.agrees_of_alike (.refl _) numeric
  · have same := inside.1.settings.trans sound.settings.symm
    exact Token.agrees_of_alike (calculator_alike same) numeric
  · rw [token] at numeric
    cases numeric
  · -- the code reads the cell of the name
    subst token
    obtain ⟨id, rfl, bound⟩ := sound.binds index f enters.function _ within
    refine ⟨.read id name, ?_, fun u inside => ?_, nofun⟩
    · simp only [Code.ofVariable, sound.compilation name numeric, ite_self]
    · obtain ⟨id', same, assigned⟩ := enters.assigned?_eq sound plain within inside named
      cases same
      rw [Code.run, outcome_bind_ok (outcome_get u), assigned]
      exact ⟨u, rfl, inside⟩
  · -- the call leads further down, where calls are answered
    subst token
    simp only [Meaning.onPlain, bodyMeaning] at called
    split at called
    · next all =>
      intro u inside
      have plain' : ∀ a ∈ args', a.IsPlain :=
        fun a inside => Quantity.isPlain_iff.1 (List.all_eq_true.1 all a inside)
      have leads : s.Leads index i :=
        ⟨f, enters.function, enters.closed, name, count, within⟩
      have isPrivate : ∀ id, s'.Below index id → s'.IsPrivate id :=
        fun id below => sound'.isPrivate_of_touched id (touched_of_below below)
      have fewer : u.rank i < d := by
        rw [inside.2.rank_eq, after.rank_eq]
        exact Nat.lt_of_lt_of_le (sound.rank_lt leads) rank
      have answered := answer u i args' inside.1 fewer plain'
      have value' : u.substituted depth i args' = some value := by
        rw [inside.2.substituted_eq sound'.toIsNumeric isPrivate,
          after.substituted_eq sound.toIsNumeric (sound.isPrivate index f enters.function)]
        exact called
      have below := answered.after.mono fun _ =>
        inside.2.below_of_touched (after.leads_iff.2 leads)
      exact ⟨_, Prod.ext (answered.value depth value value') rfl, answered.sound,
        inside.2.trans below⟩
    · cases called
  · rw [token] at numeric
    cases numeric

/-- The code of a body has the value that substitution gives. -/
theorem Enters.yields (enters : s.Enters index args f code s') (sound : s.Sound settings)
    (plain : ∀ a ∈ args, a.IsPlain) (answer : calls.Answer settings d) (rank : s.rank index ≤ d)
    (value : s.substituted (depth + 1) index args = some v) :
    Yields (s'.Inside settings index) (code.run calls) v := by
  obtain ⟨-, -, compiled, -⟩ := enters.start sound plain
  have valued : Postfix.value? (s.bodyMeaning f args (s.substituted depth)) f.body = some v := by
    rw [substituted, enters.function, Option.bind_some, enters.closed, if_neg (by simp),
      if_pos enters.enough] at value
    exact value
  have plainMeaning : (s.bodyMeaning f args (s.substituted depth)).IsPlain :=
    sound.isPlain_bodyMeaning plain fun i args' x plain' => sound.isPlain_of_substituted plain'
  rw [← Postfix.value?_onPlain plainMeaning (sound.numeric index f enters.function)] at valued
  obtain ⟨code', compiled', means⟩ := Code.exists_means
    (fun t within => enters.fits sound plain answer rank within) valued
  cases compiled.symm.trans compiled'
  exact means.yields

end Session

end UnitCalc

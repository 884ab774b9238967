/-
# Coherent sessions

In a numeric session all variables are plain numbers, the bodies of functions are numeric, and
what a body reads knows about it. The cells of parameters belong to one function and have no
name, and functions that are not circular never lead back to themselves. Such a session is
coherent when everything that its functions keep agrees with calls by substitution.

## Main definitions

* `Session.IsNumeric`: a numeric session.
* `Session.Coherent`: what a function keeps agrees with substitution.
* `Session.Sound`: a numeric session in which all functions are coherent.
* `Session.AfterCalls`: calls only change what functions keep, and cells of parameters.

## Main results

* `Session.AfterCalls.sound`: a session stays sound when new results agree with substitution.
-/

import UnitCalc.Proofs.Graph
import UnitCalc.Proofs.Session.Substitution
import UnitCalc.Statement.Definition

namespace UnitCalc

open Relation (TransGen ReflTransGen)

/-- The cells of the parameters of a function. -/
def UserFunction.cells (f : UserFunction) : List CellId :=
  f.parameters.map Prod.snd

/-- Functions that differ in what they keep. -/
theorem UserFunction.eq_of_bare {f g : UserFunction} (same : f.bare = g.bare) :
    f.parameters = g.parameters ∧ f.body = g.body ∧ f.unit = g.unit ∧
      f.isCircular = g.isCircular :=
  eq_of_definition (congrArg (fun f => { f with dependents := [] }) same)

namespace Session

variable {s s' s'' : Session} {settings : Settings}

/-- A cell of the session that no name denotes. -/
structure IsPrivate (s : Session) (id : CellId) : Prop where
  exists_ : id < s.cells.size
  unnamed : ∀ name, s.cellNames.lookup name ≠ some id

/-- The names of a body are parameters or variables of the session, and its calls are functions
of the session. -/
def Binds (s : Session) (f : UserFunction) : Token → Prop
  | .variable cell name => ∃ id, cell = some id ∧
      (f.parameters.lookup name).or (s.cellNames.lookup name) = some id
  | .call index _ _ => ∀ i ∈ index, i < s.functions.size
  | _ => True

/-- What a token refers to knows what depends on it. -/
def Tells (s : Session) (d : Dependent) : Token → Prop
  | .variable (some id) _ => d ∈ (s.cell id).dependents
  | .call (some index) _ _ => d ∈ s.dependentsOf (.function index)
  | _ => True

/-- A session of plain numbers and numeric functions. -/
structure IsNumeric (settings : Settings) (s : Session) : Prop where
  settings : s.settings = settings
  units : s.units = []
  going : s.isCancelled = false
  plain : ∀ id, (s.cell id).value.IsPlain
  named : ∀ name id, s.cellNames.lookup name = some id → id < s.cells.size
  functionNamed : ∀ name (i : Nat), s.functionNames.lookup name = some i → i < s.functions.size
  unit : ∀ (i : Nat) f, s.functions[i]? = some f → f.unit = none
  numeric : s.HasNumericBodies
  binds : ∀ (i : Nat) f, s.functions[i]? = some f → ∀ t ∈ f.body, s.Binds f t
  distinct : ∀ (i : Nat) f, s.functions[i]? = some f → f.cells.Nodup
  isPrivate : ∀ (i : Nat) f, s.functions[i]? = some f → ∀ id ∈ f.cells, s.IsPrivate id
  separate : ∀ (i j : Nat) f g id, s.functions[i]? = some f → s.functions[j]? = some g →
    id ∈ f.cells → id ∈ g.cells → i = j
  tells : ∀ (i : Nat) f, s.functions[i]? = some f → f.isCircular = false →
    ∀ t ∈ f.freeTokens, s.Tells (.function i) t
  acyclic : ∀ i, ¬ TransGen s.Leads i i

/-- The results that a function keeps are those of its calls by substitution, and its code is
that of its body. -/
structure Coherent (s : Session) (i : Nat) (f : UserFunction) : Prop where
  plain : ∀ e ∈ f.results, e.2.IsPlain
  result : ∀ e ∈ f.results, ∀ args, (∀ a ∈ args, a.IsPlain) →
    args.map ArgumentKey.ofValue = e.1 → ∀ depth v, s.substituted depth i args = some v → e.2 = v
  code : ∀ code, f.code = some code → Code.ofPostfix s.compilation f.body = .ok code

/-- A numeric session in which all functions are coherent. -/
structure Sound (settings : Settings) (s : Session) : Prop extends IsNumeric settings s where
  coherent : ∀ (i : Nat) f, s.functions[i]? = some f → s.Coherent i f

/-- Two sessions differ only in what functions keep, and in the cells of `free`. -/
structure AfterCalls (free : CellId → Prop) (s s' : Session) : Prop where
  settings : s'.settings = s.settings
  units : s'.units = s.units
  isCancelled : s'.isCancelled = s.isCancelled
  cellNames : s'.cellNames = s.cellNames
  functionNames : s'.functionNames = s.functionNames
  blocks : ∀ i, s'.dependentsOf (.block i) = s.dependentsOf (.block i)
  functions : ∀ i : Nat, s'.functions[i]?.map UserFunction.bare = s.functions[i]?.map UserFunction.bare
  size : s'.cells.size = s.cells.size
  dependents : ∀ id, (s'.cell id).dependents = (s.cell id).dependents
  cells : ∀ id, ¬ free id → s'.cell id = s.cell id

namespace AfterCalls

variable {free free' : CellId → Prop}

theorem refl (free : CellId → Prop) (s : Session) : s.AfterCalls free s :=
  ⟨rfl, rfl, rfl, rfl, rfl, fun _ => rfl, fun _ => rfl, rfl, fun _ => rfl, fun _ _ => rfl⟩

theorem trans (first : AfterCalls free s s') (second : AfterCalls free s' s'') :
    AfterCalls free s s'' where
  settings := second.settings.trans first.settings
  units := second.units.trans first.units
  isCancelled := second.isCancelled.trans first.isCancelled
  cellNames := second.cellNames.trans first.cellNames
  functionNames := second.functionNames.trans first.functionNames
  blocks i := (second.blocks i).trans (first.blocks i)
  functions i := (second.functions i).trans (first.functions i)
  size := second.size.trans first.size
  dependents id := (second.dependents id).trans (first.dependents id)
  cells id other := (second.cells id other).trans (first.cells id other)

theorem mono (after : AfterCalls free s s') (wider : ∀ id, free id → free' id) :
    AfterCalls free' s s' :=
  { after with cells := fun id other => after.cells id fun inside => other (wider id inside) }

theorem exists_function (after : AfterCalls free s s') {i : Nat} {g : UserFunction}
    (found : s'.functions[i]? = some g) : ∃ f, s.functions[i]? = some f ∧ f.bare = g.bare := by
  have same := after.functions i
  rw [found, Option.map_some] at same
  exact Option.map_eq_some_iff.1 same.symm

theorem exists_function' (after : AfterCalls free s s') {i : Nat} {f : UserFunction}
    (found : s.functions[i]? = some f) : ∃ g, s'.functions[i]? = some g ∧ g.bare = f.bare := by
  have same := after.functions i
  rw [found, Option.map_some] at same
  exact Option.map_eq_some_iff.1 same

theorem functions_size (after : AfterCalls free s s') :
    s'.functions.size = s.functions.size := by
  apply Nat.le_antisymm
  · by_contra more
    obtain ⟨f, found, -⟩ := after.exists_function (Array.getElem?_eq_getElem (Nat.not_le.1 more))
    simp at found
  · by_contra more
    obtain ⟨f, found, -⟩ := after.exists_function' (Array.getElem?_eq_getElem (Nat.not_le.1 more))
    simp at found

theorem leads_iff (after : AfterCalls free s s') {i j : Nat} : s'.Leads i j ↔ s.Leads i j := by
  constructor
  · rintro ⟨g, found, closed, calls⟩
    obtain ⟨f, found', same⟩ := after.exists_function found
    obtain ⟨-, body, -, circular⟩ := UserFunction.eq_of_bare same
    exact ⟨f, found', circular ▸ closed, body ▸ calls⟩
  · rintro ⟨f, found, closed, calls⟩
    obtain ⟨g, found', same⟩ := after.exists_function' found
    obtain ⟨-, body, -, circular⟩ := UserFunction.eq_of_bare same
    exact ⟨g, found', circular ▸ closed, body ▸ calls⟩

theorem leads_eq (after : AfterCalls free s s') : s'.Leads = s.Leads := by
  funext i j
  exact propext after.leads_iff

theorem dependentsOf_eq (after : AfterCalls free s s') (d : Dependent) :
    s'.dependentsOf d = s.dependentsOf d := by
  cases d with
  | block i => exact after.blocks i
  | function i =>
    simp only [dependentsOf]
    cases found : s.functions[i]? with
    | none =>
      have same := after.functions i
      rw [found, Option.map_none, Option.map_eq_none_iff] at same
      rw [same]
    | some f =>
      obtain ⟨g, found', same⟩ := after.exists_function' found
      have : g.bare.dependents = f.bare.dependents := by rw [same]
      rw [found']
      exact this

/-- A variable of a body that is no parameter is not private. -/
theorem assigned?_eq (after : AfterCalls free s s') (numeric : s.IsNumeric settings)
    (isPrivate : ∀ id, free id → s.IsPrivate id) {i : Nat} {f : UserFunction} {id : CellId}
    {name : String} (found : s.functions[i]? = some f) (within : .variable (some id) name ∈ f.body)
    (other : f.parameters.lookup name = none) : s'.assigned? id = s.assigned? id := by
  obtain ⟨id', same, bound⟩ := numeric.binds i f found _ within
  cases same
  rw [other, Option.none_or] at bound
  have same := after.cells id fun inside => (isPrivate id inside).unnamed name bound
  simp only [Session.assigned?, same]

/-- Calls do not change what calls mean. -/
theorem agreeOn (after : AfterCalls free s s') (numeric : s.IsNumeric settings)
    (isPrivate : ∀ id, free id → s.IsPrivate id) : s.AgreeOn s' fun _ => True where
  settings := after.settings.symm
  definition i _ := by
    have erased : ∀ r : Option UserFunction,
        r.map UserFunction.definition = (r.map UserFunction.bare).map UserFunction.definition := by
      rintro (_ | f) <;> rfl
    rw [erased, erased s'.functions[i]?, after.functions i]
  value i f _ found _ id name within other :=
    (after.assigned?_eq numeric isPrivate found within other).symm
  callee _ _ _ _ := trivial

theorem substituted_eq (after : AfterCalls free s s') (numeric : s.IsNumeric settings)
    (isPrivate : ∀ id, free id → s.IsPrivate id) : s'.substituted = s.substituted := by
  funext depth i args
  exact ((after.agreeOn numeric isPrivate).substituted_eq numeric.numeric depth trivial args).symm

/-- Calls leave a numeric session numeric. -/
theorem isNumeric (after : AfterCalls free s s') (numeric : s.IsNumeric settings)
    (plain : ∀ id, free id → (s'.cell id).value.IsPlain) : s'.IsNumeric settings where
  -- A function differs from before in what it keeps only, a cell only if calls may set it.
  settings := after.settings.trans numeric.settings
  units := after.units.trans numeric.units
  going := after.isCancelled.trans numeric.going
  plain id := by
    by_cases inside : free id
    · exact plain id inside
    · rw [after.cells id inside]
      exact numeric.plain id
  named name id found := by
    rw [after.cellNames] at found
    rw [after.size]
    exact numeric.named name id found
  functionNamed name i found := by
    rw [after.functionNames] at found
    rw [after.functions_size]
    exact numeric.functionNamed name i found
  unit i g found := by
    obtain ⟨f, found', same⟩ := after.exists_function found
    rw [← (UserFunction.eq_of_bare same).2.2.1]
    exact numeric.unit i f found'
  numeric i g found := by
    obtain ⟨f, found', same⟩ := after.exists_function found
    rw [← (UserFunction.eq_of_bare same).2.1]
    exact numeric.numeric i f found'
  binds i g found t within := by
    obtain ⟨f, found', same⟩ := after.exists_function found
    obtain ⟨parameters, body, -, -⟩ := UserFunction.eq_of_bare same
    have bound := numeric.binds i f found' t (body ▸ within)
    cases t <;> simp only [Binds, after.cellNames, after.functions_size, ← parameters] at bound ⊢ <;>
      exact bound
  distinct i g found := by
    obtain ⟨f, found', same⟩ := after.exists_function found
    rw [UserFunction.cells, ← (UserFunction.eq_of_bare same).1]
    exact numeric.distinct i f found'
  isPrivate i g found id within := by
    obtain ⟨f, found', same⟩ := after.exists_function found
    rw [UserFunction.cells, ← (UserFunction.eq_of_bare same).1] at within
    obtain ⟨exists_, unnamed⟩ := numeric.isPrivate i f found' id within
    exact ⟨by rw [after.size]; exact exists_, by rw [after.cellNames]; exact unnamed⟩
  separate i j g g' id found found' within within' := by
    obtain ⟨f, here, same⟩ := after.exists_function found
    obtain ⟨f', here', same'⟩ := after.exists_function found'
    rw [UserFunction.cells, ← (UserFunction.eq_of_bare same).1] at within
    rw [UserFunction.cells, ← (UserFunction.eq_of_bare same').1] at within'
    exact numeric.separate i j f f' id here here' within within'
  tells i g found closed t within := by
    obtain ⟨f, found', same⟩ := after.exists_function found
    obtain ⟨parameters, body, -, circular⟩ := UserFunction.eq_of_bare same
    have free : f.freeTokens = g.freeTokens := by
      simp only [UserFunction.freeTokens, parameters, body]
    have told := numeric.tells i f found' (circular ▸ closed) t (free ▸ within)
    unfold Tells at told ⊢
    split at told
    · rw [after.dependents]
      exact told
    · rw [after.dependentsOf_eq]
      exact told
    · trivial
  acyclic := by
    rw [after.leads_eq]
    exact numeric.acyclic

end AfterCalls

/-- Names that are no built-in units are no units of a numeric session. -/
theorem IsNumeric.compilation (numeric : s.IsNumeric settings) : s.compilation.IsNumeric := by
  intro name free
  have none : (Catalogue.find? name : Option ValueUnit) = none := Option.isNone_iff_eq_none.1 free
  simp only [Session.compilation, Session.unit?, numeric.units, List.lookup_nil, none]

/-- A function that keeps nothing is coherent. -/
theorem Coherent.of_nothing (s : Session) (i : Nat) {f : UserFunction} (results : f.results = [])
    (code : f.code = none) : s.Coherent i f :=
  ⟨by simp [results], by simp [results], by simp [code]⟩

/-- Functions may forget what they keep. -/
theorem Coherent.of_fewer {i : Nat} {f g : UserFunction} (coherent : s.Coherent i f) (body : g.body = f.body)
    (results : ∀ e ∈ g.results, e ∈ f.results) (code : ∀ code, g.code = some code →
      f.code = some code) : s.Coherent i g where
  plain e within := coherent.plain e (results e within)
  result e within := coherent.result e (results e within)
  code made kept := by
    rw [body]
    exact coherent.code made (code made kept)

/-- Coherence depends on what calls mean and on the code of the body. -/
theorem Coherent.congr {i : Nat} {f : UserFunction} (coherent : s.Coherent i f)
    (numeric : s.IsNumeric settings) (numeric' : s'.IsNumeric settings)
    (body : ∀ t ∈ f.body, t.isNumeric = true)
    (same : ∀ depth args, s'.substituted depth i args = s.substituted depth i args) :
    s'.Coherent i f where
  plain := coherent.plain
  result e within args plain key depth v value :=
    coherent.result e within args plain key depth v (by rw [← same]; exact value)
  code code kept := by
    have settings := numeric'.settings.trans numeric.settings.symm
    rw [Code.ofPostfix_congr (calculator_alike settings) numeric'.compilation numeric.compilation body]
    exact coherent.code code kept

/-- Calls leave a session sound when what functions keep then agrees with substitution. -/
theorem AfterCalls.sound {free : CellId → Prop} (after : AfterCalls free s s')
    (numeric : s.IsNumeric settings) (isPrivate : ∀ id, free id → s.IsPrivate id)
    (plain : ∀ id, free id → (s'.cell id).value.IsPlain)
    (coherent : ∀ (i : Nat) g, s'.functions[i]? = some g → s.Coherent i g) : s'.Sound settings :=
  have numeric' := after.isNumeric numeric plain
  { numeric' with
    coherent := fun i g found => (coherent i g found).congr numeric numeric'
      (numeric'.numeric i g found) (by simp [after.substituted_eq numeric isPrivate]) }

end Session

end UnitCalc

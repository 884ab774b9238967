/-
# Definitions and redefinitions

A definition puts a function in its place, tells what its body refers to, and makes those
forget that depend on the function that was there before. A refused definition is told to
nobody, which does no harm: a circular function has no value to keep. Since a function that
leads to itself is refused, functions with values never form a cycle.

## Main definitions

* `Session.Defines`: a session with a function in a new or an old place.

## Main results

* `Session.Defines.sound_forgetFrom`: a session stays sound when a function is defined and what
  depends on its place forgets.
* `Session.install_spec`: where a function is installed.
-/

import UnitCalc.Proofs.Session.Dependents
import UnitCalc.Proofs.Session.Outcome

namespace UnitCalc

open Relation (TransGen ReflTransGen)
open SessionM

/-- Functions that differ in what depends on them. -/
theorem UserFunction.eq_of_undepended {f g : UserFunction} (same : f.undepended = g.undepended) :
    f.parameters = g.parameters ∧ f.body = g.body ∧ f.unit = g.unit ∧
      f.isCircular = g.isCircular ∧ f.code = g.code ∧ f.results = g.results := by
  simp only [undepended, mk.injEq] at same
  obtain ⟨-, parameters, body, unit, circular, -, code, results, -⟩ := same
  exact ⟨parameters, body, unit, circular, code, results⟩

namespace Session

variable {s s' s'' : Session} {settings : Settings} {i j k : Nat} {f g : UserFunction}

/-- A session in which a function is defined at a place, that of one with as many parameters or a
new one. The functions elsewhere are as before, and everything that knew a dependent still does. -/
structure Defines (s : Session) (k : Nat) (f : UserFunction) (s' : Session) : Prop where
  settings : s'.settings = s.settings
  units : s'.units = s.units
  isCancelled : s'.isCancelled = s.isCancelled
  cellNames : s'.cellNames = s.cellNames
  functionNamed : ∀ name (i : Nat), s'.functionNames.lookup name = some i →
    s.functionNames.lookup name = some i ∨ i = k
  known : k < s'.functions.size
  functionsSize : s.functions.size ≤ s'.functions.size
  parameters : ∀ g, s.functions[k]? = some g → f.parameters.length = g.parameters.length
  function : ∃ g, s'.functions[k]? = some g ∧ g.undepended = f.undepended
  others : ∀ i : Nat, i ≠ k →
    s'.functions[i]?.map UserFunction.undepended = s.functions[i]?.map UserFunction.undepended
  blocks : ∀ i : Nat, s'.blocks[i]?.map Block.undepended = s.blocks[i]?.map Block.undepended
  blocksSize : s'.blocks.size = s.blocks.size
  size : s'.cells.size = s.cells.size
  value : ∀ id, (s'.cell id).value = (s.cell id).value
  isAssigned : ∀ id, (s'.cell id).isAssigned = (s.cell id).isAssigned
  told : ∀ id, (s.cell id).dependents ⊆ (s'.cell id).dependents
  dependents : ∀ d, s.dependentsOf d ⊆ s'.dependentsOf d

namespace Defines

theorem grows (defines : s.Defines k f s') (grows : s'.Grows s'') : s.Defines k f s'' where
  settings := grows.settings.trans defines.settings
  units := grows.units.trans defines.units
  isCancelled := grows.isCancelled.trans defines.isCancelled
  cellNames := grows.cellNames.trans defines.cellNames
  functionNamed := by
    rw [grows.functionNames]
    exact defines.functionNamed
  known := grows.functionsSize ▸ defines.known
  functionsSize := grows.functionsSize ▸ defines.functionsSize
  parameters := defines.parameters
  function := by
    obtain ⟨g, found, same⟩ := defines.function
    have kept := grows.functions k
    rw [found, Option.map_some] at kept
    obtain ⟨h, found', same'⟩ := Option.map_eq_some_iff.1 kept
    exact ⟨h, found', same'.trans same⟩
  others i other := (grows.functions i).trans (defines.others i other)
  blocks i := (grows.blocks i).trans (defines.blocks i)
  blocksSize := grows.blocksSize.trans defines.blocksSize
  size := grows.size.trans defines.size
  value id := (grows.value id).trans (defines.value id)
  isAssigned id := (grows.isAssigned id).trans (defines.isAssigned id)
  told id := List.Subset.trans (defines.told id) (grows.told id)
  dependents d := List.Subset.trans (defines.dependents d) (grows.dependents d)

/-- A function of the session afterwards is the new one, or one from before. -/
theorem function_cases (defines : s.Defines k f s') (found : s'.functions[i]? = some g) :
    i = k ∧ g.undepended = f.undepended ∨
      i ≠ k ∧ ∃ h, s.functions[i]? = some h ∧ g.undepended = h.undepended := by
  by_cases here : i = k
  · subst here
    obtain ⟨g', found', same⟩ := defines.function
    cases found.symm.trans found'
    exact .inl ⟨rfl, same⟩
  · have same := defines.others i here
    rw [found, Option.map_some] at same
    obtain ⟨h, found', same⟩ := Option.map_eq_some_iff.1 same.symm
    exact .inr ⟨here, h, found', same.symm⟩

end Defines

/-- A function of a numeric session that may be defined in it, with parameters of its own. -/
structure Admits (s : Session) (f : UserFunction) : Prop where
  unit : f.unit = none
  numeric : ∀ t ∈ f.body, t.isNumeric = true
  binds : ∀ t ∈ f.body, s.Binds f t
  distinct : f.cells.Nodup
  isPrivate : ∀ id ∈ f.cells, s.IsPrivate id
  separate : ∀ (i : Nat) g, s.functions[i]? = some g → ∀ id ∈ f.cells, id ∉ g.cells
  results : f.results = []
  code : f.code = none

namespace Defines

theorem leads_of_ne (defines : s.Defines k f s') (other : i ≠ k) (leads : s'.Leads i j) :
    s.Leads i j := by
  obtain ⟨g, found, closed, calls⟩ := leads
  rcases defines.function_cases found with ⟨here, -⟩ | ⟨-, h, found', same⟩
  · exact absurd here other
  · obtain ⟨-, body, -, circular, -, -⟩ := UserFunction.eq_of_undepended same
    exact ⟨h, found', circular ▸ closed, body ▸ calls⟩

/-- A cycle would lead through the function that is defined. -/
theorem acyclic (defines : s.Defines k f s') (numeric : s.IsNumeric settings)
    (noCycle : f.isCircular = false → ¬ TransGen s'.Leads k k) (i : Nat) :
    ¬ TransGen s'.Leads i i := by
  intro cycle
  rcases Graph.transGen_cases (fun a b => defines.leads_of_ne) cycle with old | ⟨first, second⟩
  · exact numeric.acyclic i old
  · have through : TransGen s'.Leads k k := second.trans_left first
    cases circular : f.isCircular with
    | false => exact noCycle circular through
    | true =>
      -- a circular function leads nowhere
      obtain ⟨j, ⟨g, found, closed, -⟩, -⟩ := TransGen.head'_iff.1 through
      obtain ⟨g', found', same⟩ := defines.function
      cases found.symm.trans found'
      rw [(UserFunction.eq_of_undepended same).2.2.2.1, circular] at closed
      cases closed

theorem binds (defines : s.Defines k f s') {t : Token} (bound : s.Binds g t) : s'.Binds g t := by
  unfold Binds at bound ⊢
  split at bound
  · rw [defines.cellNames]
    exact bound
  · exact fun i same => Nat.lt_of_lt_of_le (bound i same) defines.functionsSize
  · trivial

theorem tells (defines : s.Defines k f s') {d : Dependent} {t : Token} (told : s.Tells d t) :
    s'.Tells d t := by
  unfold Tells at told ⊢
  split at told
  · exact defines.told _ told
  · exact defines.dependents _ told
  · trivial

/-- A session stays numeric when a numeric function is defined that has no cycle. -/
theorem isNumeric (defines : s.Defines k f s') (numeric : s.IsNumeric settings)
    (admits : s.Admits f)
    (told : f.isCircular = false → ∀ t ∈ f.freeTokens, s'.Tells (.function k) t)
    (noCycle : f.isCircular = false → ¬ TransGen s'.Leads k k) : s'.IsNumeric settings where
  -- A function of the new session is the new one, or an old one that differs in what it kept.
  settings := defines.settings.trans numeric.settings
  units := defines.units.trans numeric.units
  going := defines.isCancelled.trans numeric.going
  plain id := by
    rw [defines.value]
    exact numeric.plain id
  named := by
    rw [defines.cellNames, defines.size]
    exact numeric.named
  functionNamed name i found := by
    rcases defines.functionNamed name i found with old | rfl
    · exact Nat.lt_of_lt_of_le (numeric.functionNamed name i old) defines.functionsSize
    · exact defines.known
  unit i g found := by
    rcases defines.function_cases found with ⟨-, same⟩ | ⟨-, h, old, same⟩
    · rw [(UserFunction.eq_of_undepended same).2.2.1]
      exact admits.unit
    · rw [(UserFunction.eq_of_undepended same).2.2.1]
      exact numeric.unit i h old
  numeric i g found := by
    rcases defines.function_cases found with ⟨-, same⟩ | ⟨-, h, old, same⟩
    · rw [(UserFunction.eq_of_undepended same).2.1]
      exact admits.numeric
    · rw [(UserFunction.eq_of_undepended same).2.1]
      exact numeric.numeric i h old
  binds i g found t within := by
    rcases defines.function_cases found with ⟨-, same⟩ | ⟨-, h, old, same⟩
    · obtain ⟨parameters, body, -⟩ := UserFunction.eq_of_undepended same
      have bound := defines.binds (admits.binds t (body ▸ within))
      unfold Binds at bound ⊢
      rw [parameters]
      exact bound
    · obtain ⟨parameters, body, -⟩ := UserFunction.eq_of_undepended same
      have bound := defines.binds (numeric.binds i h old t (body ▸ within))
      unfold Binds at bound ⊢
      rw [parameters]
      exact bound
  distinct i g found := by
    rcases defines.function_cases found with ⟨-, same⟩ | ⟨-, h, old, same⟩
    · rw [UserFunction.cells, (UserFunction.eq_of_undepended same).1]
      exact admits.distinct
    · rw [UserFunction.cells, (UserFunction.eq_of_undepended same).1]
      exact numeric.distinct i h old
  isPrivate i g found id within := by
    have before : s.IsPrivate id := by
      rcases defines.function_cases found with ⟨-, same⟩ | ⟨-, h, old, same⟩
      · rw [UserFunction.cells, (UserFunction.eq_of_undepended same).1] at within
        exact admits.isPrivate id within
      · rw [UserFunction.cells, (UserFunction.eq_of_undepended same).1] at within
        exact numeric.isPrivate i h old id within
    exact ⟨defines.size ▸ before.exists_, defines.cellNames ▸ before.unnamed⟩
  separate i j g g' id found found' within within' := by
    rcases defines.function_cases found with ⟨here, same⟩ | ⟨-, h, old, same⟩ <;>
      rcases defines.function_cases found' with ⟨here', same'⟩ | ⟨-, h', old', same'⟩ <;>
      rw [UserFunction.cells, (UserFunction.eq_of_undepended same).1] at within <;>
      rw [UserFunction.cells, (UserFunction.eq_of_undepended same').1] at within'
    · exact here.trans here'.symm
    · exact absurd within' (admits.separate j h' old' id within)
    · exact absurd within (admits.separate i h old id within')
    · exact numeric.separate i j h h' id old old' within within'
  tells i g found closed t within := by
    rcases defines.function_cases found with ⟨rfl, same⟩ | ⟨-, h, old, same⟩
    · obtain ⟨parameters, body, -, circular, -⟩ := UserFunction.eq_of_undepended same
      refine told (circular ▸ closed) t ?_
      rw [UserFunction.freeTokens, ← body, ← parameters]
      exact within
    · obtain ⟨parameters, body, -, circular, -⟩ := UserFunction.eq_of_undepended same
      refine defines.tells (numeric.tells i h old (circular ▸ closed) t ?_)
      rw [UserFunction.freeTokens, ← body, ← parameters]
      exact within
  acyclic := defines.acyclic numeric noCycle

/-- A session stays sound when a function is defined and what depends on its place forgets. -/
theorem sound_forgetFrom (defines : s.Defines k f s') (sound : s.Sound settings)
    (admits : s.Admits f)
    (told : f.isCircular = false → ∀ t ∈ f.freeTokens, s'.Tells (.function k) t)
    (noCycle : f.isCircular = false → ¬ TransGen s'.Leads k k) :
    (s'.forgetFrom (s.dependentsOf (.function k))).Sound settings := by
  have numeric := defines.isNumeric sound.toIsNumeric admits told noCycle
  have known : ∀ {i : Nat} {g}, s.functions[i]? = some g → i < s'.functions.size := fun found =>
    Nat.lt_of_lt_of_le (Array.getElem?_eq_some_iff.1 found).1 defines.functionsSize
  refine sound.forgetFrom (U := fun i => i ≠ k ∧
    .function i ∉ s'.affected (s.dependentsOf (.function k))) numeric ?_ ?_
  · refine ⟨defines.settings.symm, fun i ⟨other, _⟩ => ?_, fun i g _ _ _ id name _ _ => ?_,
      fun i j ⟨_, unaffected⟩ ⟨g, found, closed, name, count, within⟩ => ?_⟩
    · have erased : ∀ r : Option UserFunction, r.map UserFunction.definition =
          (r.map UserFunction.undepended).map UserFunction.definition := by
        rintro (_ | g) <;> rfl
      rw [erased, erased s'.functions[i]?, defines.others i other]
    · simp only [assigned?, defines.value, defines.isAssigned]
    · -- the function that is called has told so
      have tells : .function i ∈ s.dependentsOf (.function j) :=
        sound.tells i g found closed (.call (some j) name count) (by
          simp [UserFunction.freeTokens, within])
      refine ⟨?_, not_mem_affected_of_tells unaffected (known found) (defines.dependents _ tells)⟩
      rintro rfl
      exact not_mem_of_not_mem_affected unaffected (known found) tells
  · intro i g found unaffected
    rcases defines.function_cases found with ⟨-, same⟩ | ⟨other, h, old, same⟩
    · obtain ⟨-, -, -, -, code, results⟩ := UserFunction.eq_of_undepended same
      exact .inr ⟨results.trans admits.results, code.trans admits.code⟩
    · obtain ⟨-, body, -, -, code, results⟩ := UserFunction.eq_of_undepended same
      exact .inl ⟨⟨other, unaffected⟩, (sound.coherent i h old).of_fewer body
        (fun e within => results ▸ within) fun _ kept => code ▸ kept⟩

end Defines

/-- A function is installed at the place of the one that it replaces, or behind all others, and
what depended on that place is returned. -/
theorem install_spec (s : Session) {f : UserFunction} (alone : f.dependents = []) :
    (s.install f).2.1 = s.dependentsOf (.function (s.install f).1) ∧
      s.Defines (s.install f).1 f (s.install f).2.2 ∧
      (s.install f).2.2.functions[(s.install f).1]? =
        some { f with dependents := (s.install f).2.1 } := by
  have same : ({ f with dependents := [] } : UserFunction) = f := by rw [← alone]
  unfold install
  simp only
  split
  · next index dependents replaced =>
    -- the name has a function with as many parameters
    obtain ⟨index', -, rest⟩ := Option.bind_eq_some_iff.1 replaced
    obtain ⟨old, found, rest⟩ := Option.bind_eq_some_iff.1 rest
    split at rest
    case isFalse => cases rest
    next parameters =>
    cases rest
    have known : index < s.functions.size := (Array.getElem?_eq_some_iff.1 found).1
    have here : (s.modifyFunction index fun _ => { f with dependents := old.dependents }).functions[index]? =
        some { f with dependents := old.dependents } := by
      rw [getElem?_modifyFunction, if_pos rfl, found]
      rfl
    have depend : s.dependentsOf (.function index) = old.dependents := by
      simp only [dependentsOf, found, Option.elim_some]
    refine ⟨depend.symm, ?_, here⟩
    refine ⟨rfl, rfl, rfl, rfl, fun _ _ => .inl, ?_, ?_, fun g there => ?_, ⟨_, here, rfl⟩,
      fun i other => ?_, fun _ => rfl, rfl, rfl, fun _ => rfl, fun _ => rfl,
      fun _ => List.Subset.refl _, fun d => ?_⟩
    · rw [functions_size_modifyFunction]
      exact known
    · exact Nat.le_of_eq (functions_size_modifyFunction _).symm
    · cases found.symm.trans there
      exact parameters.symm
    · rw [getElem?_modifyFunction, if_neg (Ne.symm other)]
    · cases d with
      | block j => exact List.Subset.refl _
      | function j =>
        by_cases at_ : j = index
        · subst at_
          rw [depend]
          simp only [dependentsOf, here, Option.elim_some]
          exact List.Subset.refl _
        · simp only [dependentsOf, getElem?_modifyFunction, if_neg (Ne.symm at_)]
          exact List.Subset.refl _
  · have depend : s.dependentsOf (.function s.functions.size) = [] := by
      simp [dependentsOf]
    refine ⟨depend.symm, ?_, by rw [same]; exact Array.getElem?_push_size⟩
    refine ⟨rfl, rfl, rfl, rfl, fun name i found => ?_, by simp, by simp, by simp,
      ⟨f, Array.getElem?_push_size, rfl⟩, fun i other => ?_, fun _ => rfl, rfl, rfl, fun _ => rfl,
      fun _ => rfl, fun _ => List.Subset.refl _, fun d => ?_⟩
    · rw [List.lookup_cons] at found
      split at found
      · cases found
        exact .inr rfl
      · exact .inl found
    · rw [Array.getElem?_push, if_neg other]
    · cases d with
      | block j => exact List.Subset.refl _
      | function j =>
        by_cases at_ : j = s.functions.size
        · rw [at_, depend]
          exact List.nil_subset _
        · simp only [dependentsOf, Array.getElem?_push, if_neg at_]
          exact List.Subset.refl _

theorem Grows.leads_eq (grows : s.Grows s') : s'.Leads = s.Leads := by
  have same : ∀ {r r' : Session}, (∀ i : Nat, r'.functions[i]?.map UserFunction.undepended =
      r.functions[i]?.map UserFunction.undepended) → ∀ i j, r'.Leads i j → r.Leads i j := by
    intro r r' functions i j ⟨g, found, closed, calls⟩
    have kept := functions i
    rw [found, Option.map_some] at kept
    obtain ⟨h, found', same⟩ := Option.map_eq_some_iff.1 kept.symm
    obtain ⟨-, body, -, circular, -, -⟩ := UserFunction.eq_of_undepended same
    exact ⟨h, found', circular ▸ closed, body ▸ calls⟩
  funext i j
  exact propext ⟨same grows.functions i j, same (fun i => (grows.functions i).symm) i j⟩

/-- A refused function stays where it was installed. -/
theorem Defines.refused (defines : s.Defines k f s') :
    s.Defines k { f with isCircular := true }
      (s'.modifyFunction k fun f => { f with isCircular := true }) := by
  obtain ⟨g, found, same⟩ := defines.function
  refine { defines with
    known := ?_
    functionsSize := ?_
    function := ?_
    others := fun i other => ?_
    dependents := fun d => ?_ }
  · rw [functions_size_modifyFunction]
    exact defines.known
  · rw [functions_size_modifyFunction]
    exact defines.functionsSize
  · refine ⟨{ g with isCircular := true }, ?_, ?_⟩
    · rw [getElem?_modifyFunction, if_pos rfl, found]
      rfl
    · exact congrArg (fun f : UserFunction => { f with isCircular := true }) same
  · rw [getElem?_modifyFunction, if_neg (Ne.symm other)]
    exact defines.others i other
  · refine List.Subset.trans (defines.dependents d) ?_
    cases d with
    | block j => exact List.Subset.refl _
    | function j =>
      simp only [dependentsOf, getElem?_modifyFunction]
      split
      · cases s'.functions[j]? <;> exact List.Subset.refl _
      · exact List.Subset.refl _

/-- A function with a cycle is recognized. -/
theorem not_transGen_of_isCircular
    (known : ∀ i j, s.Leads i j → j < s.functions.size) (open_ : s.isCircular k = false) :
    ¬ TransGen s.Leads k k := by
  intro cycle
  have found : s.isCircular k = true := by
    refine Graph.onCycle_of_transGen (cycle.lift Dependent.function fun i j leads => ?_)
    refine ⟨?_, function_mem_dependents (known i j leads)⟩
    obtain ⟨f, found, -, name, count, within⟩ := leads
    simp only [references, tokensOf, found, Option.elim_some]
    exact List.mem_filterMap.2 ⟨_, within, rfl⟩
  rw [open_] at found
  cases found

theorem Defines.known_of_leads (defines : s.Defines k f s') (numeric : s.IsNumeric settings)
    (admits : s.Admits f) (i j : Nat) (leads : s'.Leads i j) : j < s'.functions.size := by
  obtain ⟨g, found, -, name, count, within⟩ := leads
  refine Nat.lt_of_lt_of_le ?_ defines.functionsSize
  rcases defines.function_cases found with ⟨-, same⟩ | ⟨-, h, old, same⟩
  · rw [(UserFunction.eq_of_undepended same).2.1] at within
    exact admits.binds _ within j rfl
  · rw [(UserFunction.eq_of_undepended same).2.1] at within
    exact numeric.binds i h old _ within j rfl

theorem Defines.exists_ (defines : s.Defines k f s') {t : Token} (known : s.Exists t) :
    s'.Exists t := by
  unfold Exists at known ⊢
  split at known
  · rw [defines.size]
    exact known
  · exact Nat.lt_of_lt_of_le known defines.functionsSize
  · trivial

/-- What the free names and the calls of a body refer to exists. -/
theorem Admits.exists_free (admits : s.Admits f) (numeric : s.IsNumeric settings) {t : Token}
    (within : t ∈ f.freeTokens) : s.Exists t := by
  obtain ⟨within, free⟩ := List.mem_filter.1 within
  have bound := admits.binds t within
  cases t with
  | «variable» cell name =>
    obtain ⟨id, rfl, bound⟩ := bound
    simp only [Option.isNone_iff_eq_none] at free
    rw [free, Option.none_or] at bound
    exact numeric.named name id bound
  | call index name count =>
    cases index with
    | none => trivial
    | some i => exact bound i rfl
  | _ => trivial

end Session

end UnitCalc

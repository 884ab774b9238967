/-
# Compiled expressions in later sessions

The code of an expression is made once. Later it does what code would do that is made anew from the
same program: variables and functions are looked up when it runs, so assignments and definitions
show. Two things were decided when the code was made: which names stood for units, and what
operations on constants gave under the settings. While these are the same, a call cannot be told
from one that compiles first.

## Main definitions

* `SessionM.callAnew`: a call that compiles first.
* `Session.ResolvesAlike`: what compilation decides is the same in another session.

## Main results

* `Session.ResolvesAlike.assignAll`: assignments to other names than those of units keep it so.
* `Session.Occurs.call_assignAll`: calls of compiled expressions behind assignments.
-/

import UnitCalc.Proofs.Postfix.Compilation
import UnitCalc.Proofs.Postfix.Resolution
import UnitCalc.Proofs.Session.Lexical
import UnitCalc.Proofs.Session.Routes

namespace UnitCalc

open SessionM

/-- Calls an expression over parameters whose program is compiled first. -/
def SessionM.callAnew (program : List Token) (parameters : List CellId) (unit : Option ValueUnit)
    (args : List Value) : SessionM Value := do
  let code ← read fun s => Code.ofPostfix s.compilation program
  Formula.call ⟨parameters, code, unit⟩ args

namespace Session

variable {s later : Session} {program : List Token} {name : String}

/-- What is decided when the program is compiled is the same in a later session: the settings that
operations on constants look at, and which of its names are units. -/
structure ResolvesAlike (s : Session) (program : List Token) (later : Session) : Prop where
  settings : later.settings = s.settings
  angles : ∀ t ∈ program, t.returnsAngle = true → later.returnAngles = s.returnAngles
  unit : ∀ id name, .variable (some id) name ∈ program → later.unit? name = s.unit? name
  assigned : ∀ id name, .variable (some id) name ∈ program →
    s.unit? name = none ∨ later.isAssigned id = s.isAssigned id

theorem returnAngles_setValue (s : Session) (name : String) (value : Value) :
    (s.setValue name value).returnAngles = s.returnAngles := by
  have forgotten (s : Session) (ds : List Dependent) :
      (ds.foldl forget s).returnAngles = s.returnAngles := by
    induction ds generalizing s with
    | nil => rfl
    | cons d ds ih =>
      rw [List.foldl_cons, ih]
      cases d <;> rfl
  have assigned : (s.setValue name value).returnAngles = (s.cellOf name).2.returnAngles := by
    change ((s.cellOf name).2.assign (s.cellOf name).1 value).returnAngles = _
    rw [assign, forgetFrom_eq, forgotten]
    rfl
  rw [assigned, (s.addsCells_cellOf name).same]

namespace ResolvesAlike

theorem refl (s : Session) (program : List Token) : s.ResolvesAlike program s :=
  ⟨rfl, fun _ _ _ => rfl, fun _ _ _ => rfl, fun _ _ _ => .inr rfl⟩

/-- A name is resolved alike, also one that is no unit and was assigned in the meantime. -/
theorem ofVariable_eq (alike : s.ResolvesAlike program later) {cell : Option CellId}
    (within : .variable cell name ∈ program) :
    Code.ofVariable later.compilation cell name = Code.ofVariable s.compilation cell name := by
  cases cell with
  | none => rfl
  | some id =>
    have unit : later.compilation.unit? name = s.compilation.unit? name :=
      alike.unit id name within
    rcases alike.assigned id name within with noUnit | same
    · have noUnit : s.compilation.unit? name = none := noUnit
      simp only [Code.ofVariable, unit, noUnit, ite_self]
    · have same : later.compilation.isAssigned id = s.compilation.isAssigned id := same
      simp only [Code.ofVariable, unit, same]

/-- The code of the program is the same in the later session. -/
theorem ofPostfix_eq (alike : s.ResolvesAlike program later) :
    Code.ofPostfix later.compilation program = Code.ofPostfix s.compilation program := by
  refine Code.ofPostfix_eq_of_steps fun t within =>
    Code.step_eq_of_agrees (fun drawsNothing => ?_) ?_
  · exact Token.agrees_of_settings alike.settings (alike.angles t within) drawsNothing
  · rintro cell name rfl
    exact alike.ofVariable_eq within

/-- The program does not take the name for a unit: what it reads in the cell of the name is no unit,
or was assigned when the program was compiled. -/
def Spared (s : Session) (program : List Token) (later : Session) (n : String) : Prop :=
  ∀ id name, .variable (some id) name ∈ program → later.cellNames.lookup n = some id →
    s.unit? name = none ∨ s.isAssigned id = true

/-- An assignment to a name that the program does not take for a unit. -/
theorem setValue (alike : s.ResolvesAlike program later)
    (bounded : ∀ id name, .variable (some id) name ∈ program → id < later.cells.size)
    {n : String} (value : Value) (spared : Spared s program later n) :
    s.ResolvesAlike program (later.setValue n value) := by
  obtain ⟨ext, named⟩ := later.extends_cellOf n
  have after := (later.cellOf n).2.afterCalls_assign (later.cellOf n).1 value
  have unit (name : String) : (later.setValue n value).unit? name = later.unit? name :=
    congrFun (unit?_of_units (after.units.trans ext.units)) name
  refine ⟨(after.settings.trans ext.settings).trans alike.settings, fun t within angle => ?_,
    fun id name within => (unit name).trans (alike.unit id name within), fun id name within => ?_⟩
  · exact (later.returnAngles_setValue n value).trans (alike.angles t within angle)
  · by_cases same : id = (later.cellOf n).1
    · -- The cell is that of the name, which was one of the later session.
      subst same
      have old : later.cellNames.lookup n = some (later.cellOf n).1 := by
        rcases ext.newName _ _ named with old | ⟨beyond, -⟩
        · exact old
        · exact absurd (bounded _ name within) (Nat.not_lt.2 beyond)
      refine (spared _ name within old).imp id fun assigned => ?_
      have stored : (later.setValue n value).assigned? (later.cellOf n).1 = some value :=
        assigned?_assign value (Nat.lt_of_lt_of_le (bounded _ name within) ext.size)
      rw [assigned, isAssigned_eq_isSome, stored]
      rfl
    · have kept : (later.setValue n value).cell id = later.cell id :=
        (after.cells id same).trans (ext.cell id (bounded id name within))
      have kept : (later.setValue n value).isAssigned id = later.isAssigned id :=
        congrArg Cell.isAssigned kept
      rw [kept]
      exact alike.assigned id name within

/-- Assignments to names that the program does not take for units. -/
theorem assignAll (alike : s.ResolvesAlike program later)
    (bounded : ∀ id name, .variable (some id) name ∈ program → id < later.cells.size)
    {values : List (String × Value)} (spared : ∀ v ∈ values, Spared s program later v.1) :
    s.ResolvesAlike program (later.assignAll values) := by
  unfold Session.assignAll
  induction values generalizing later with
  | nil => exact alike
  | cons first values ih =>
    rw [List.forall_mem_cons] at spared
    obtain ⟨ext, -⟩ := later.extends_cellOf first.1
    have after := (later.cellOf first.1).2.afterCalls_assign (later.cellOf first.1).1 first.2
    refine ih (alike.setValue bounded first.2 spared.1) ?_ fun v member id name within found => ?_
    · exact fun id name within => Nat.lt_of_lt_of_le (bounded id name within)
        (Nat.le_trans ext.size (Nat.le_of_eq after.size.symm))
    · -- a new name denotes a new cell, which the program does not read
      have found : (later.cellOf first.1).2.cellNames.lookup v.1 = some id := by
        rw [← after.cellNames]
        exact found
      rcases ext.newName _ _ found with old | ⟨beyond, -⟩
      · exact spared.2 v member id name within old
      · exact absurd (bounded id name within) (Nat.not_lt.2 beyond)

end ResolvesAlike

end Session

/-! ## Formulas -/

namespace Session

variable {s s' s₁ : Session} {e : Formula} {text : String} {names : List String}
  {plain : Statement}

/-- The names of an expression over parameters stand for the parameters, or else for the variables
of the session. -/
theorem Informed.scoped_bound (informed : s.Informed)
    (plotted : outcome (parsePlotted text) s = (.ok plain, s₁)) (value : plain.isDefinition = false)
    (names : List String) :
    let parameters := (s₁.newParameters names).1
    ∀ t ∈ plain.program.map (Token.bound parameters),
      ((s₁.newParameters names).2.bindProgram parameters plain.program).2.Scoped
        (parameters.lookup ·) t := by
  obtain ⟨-, read⟩ := informed.inScope_parsePlotted plotted
  obtain ⟨split, lies, -⟩ := read plain rfl value
  exact (lies.bindParameters split rfl).2

/-- Parameters have cells, and count as assigned. -/
theorem parameters_bindProgram (s : Session) (names : List String) (program : List Token) :
    let parameters := (s.newParameters names).1
    let s' := ((s.newParameters names).2.bindProgram parameters program).2
    ∀ id ∈ parameters.map Prod.snd, id < s'.cells.size ∧ s'.isAssigned id = true := by
  intro parameters s' id own
  have rebound : (s.newParameters names).2.Rebound (fun _ => True) s' :=
    rebound_bindProgram (fun _ _ => trivial) _ program
  have assigned := s.isAssigned_newParameters names id own
  rw [isAssigned, cell, rebound.cells_eq]
  exact ⟨((s.cells_newParameters names).2 id own).2, assigned⟩

/-- A compiled expression is called behind any assignments as if its program were compiled at the
call, unless a name that the program took for a unit was given its first value. -/
theorem Occurs.call_assignAll (occurs : s.Occurs)
    (ended : outcome (compile text names) s = (.ok e, s')) :
    ∃ plain s₁, outcome (parsePlotted text) s = (.ok plain, s₁) ∧
      let program := plain.program.map (Token.bound (s₁.newParameters names).1)
      ∀ (values : List (String × Value)) (args : List Value),
        (∀ v ∈ values, ∀ id ∉ e.parameters, .variable (some id) v.1 ∈ program →
          s'.unit? v.1 = none ∨ (s'.value? v.1).isSome = true) →
        outcome (e.call args) (s'.assignAll values) =
          outcome (callAnew program e.parameters plain.unit args) (s'.assignAll values) := by
  obtain ⟨plain, s₁, plotted, value, bound, parameters, compiled, unit⟩ := compile_parts ended
  refine ⟨plain, s₁, plotted, fun values args first => ?_⟩
  have separates : s'.SeparatesNames := by
    have after : s.after (.compile text names) = s' := congrArg Prod.snd ended
    rw [← after]
    exact (Occurs.request _ occurs).informed.toSeparatesNames
  have reads := occurs.informed.scoped_bound plotted value names
  have own := s₁.parameters_bindProgram names plain.program
  simp only [← bound, ← parameters] at reads own
  generalize plain.program.map (Token.bound (s₁.newParameters names).1) = program
    at first compiled reads ⊢
  -- A name of the program stands for a parameter, or for a variable of the session.
  have stands : ∀ id name, .variable (some id) name ∈ program →
      id ∈ e.parameters ∨ s'.cellNames.lookup name = some id := by
    intro id name within
    cases reads _ within with
    | name means =>
      dsimp only at means
      cases found : (s₁.newParameters names).1.lookup name with
      | none =>
        rw [found] at means
        exact .inr means
      | some id' =>
        rw [found] at means
        cases means
        obtain ⟨before, behind, same, -⟩ := List.lookup_eq_some_iff.1 found
        refine .inl ?_
        rw [parameters, same]
        simp
    | other nameless => cases nameless
  have bounded : ∀ id name, .variable (some id) name ∈ program → id < s'.cells.size :=
    fun id name within => (stands id name within).elim (fun mine => (own id mine).1)
      (separates.named name id)
  have spared : ∀ v ∈ values, ResolvesAlike.Spared s' program s' v.1 := by
    intro v member id name within found
    by_cases mine : id ∈ e.parameters
    · exact .inr (own id mine).2
    · have named := (stands id name within).resolve_left mine
      obtain rfl := separates.separate _ _ _ found named
      refine (first v member id mine within).imp_right fun known => ?_
      rw [isAssigned_eq_isSome]
      rwa [value?, found, Option.bind_some] at known
  have alike := (ResolvesAlike.refl s' program).assignAll bounded spared
  have again : outcome (SessionM.read fun s => Code.ofPostfix s.compilation program)
      (s'.assignAll values) = (.ok e.code, s'.assignAll values) := by
    rw [outcome_read, alike.ofPostfix_eq, compiled]
  rw [callAnew, outcome_bind_ok again, ← unit]

/-- Two metres a times `k`, where `k` is given another value, and a new name its first one. -/
theorem call_assignAll_length : ∃ (s s' : Session) (e : Formula) (plain : Statement) (s₁ : Session),
    s.Occurs ∧ outcome (compile "x*k*m" ["x"]) s = (.ok e, s') ∧
      outcome (parsePlotted "x*k*m") s = (.ok plain, s₁) ∧
      let program := plain.program.map (Token.bound (s₁.newParameters ["x"]).1)
      let later := s'.assignAll [("k", .real 5), ("n", .real 7)]
      outcome (e.call [.real 2]) later =
        outcome (callAnew program e.parameters plain.unit [.real 2]) later ∧
      (outcome (e.call [.real 2]) later).1.toOption.map Quantity.messageText = some "10 m" := by
  let s := (start {} ⟨1, 1⟩).after (.assign "k" (.real 3))
  have occurs : s.Occurs := .request _ (.start _ _)
  have compiles : ((outcome (compile "x*k*m" ["x"]) s).1.toOption.any fun e =>
      let later := (outcome (compile "x*k*m" ["x"]) s).2.assignAll
        [("k", .real 5), ("n", .real 7)]
      (outcome (e.call [.real 2]) later).1.toOption.map Quantity.messageText == some "10 m") =
        true := by decide +kernel
  obtain ⟨e, made, called⟩ := (Option.any_eq_true _ _).1 compiles
  have ended : outcome (compile "x*k*m" ["x"]) s =
      (.ok e, (outcome (compile "x*k*m" ["x"]) s).2) := Prod.ext (ok_of_toOption made) rfl
  obtain ⟨plain, s₁, plotted, calls⟩ := occurs.call_assignAll ended
  refine ⟨s, _, e, plain, s₁, occurs, ended, plotted,
    calls [("k", .real 5), ("n", .real 7)] [.real 2] ?_, beq_iff_eq.1 called⟩
  have known : (((outcome (compile "x*k*m" ["x"]) s).2.value? "k").isSome &&
      ((outcome (compile "x*k*m" ["x"]) s).2.unit? "n").isNone) = true := by decide +kernel
  obtain ⟨value, noUnit⟩ := Bool.and_eq_true_iff.1 known
  intro v within id _ _
  rcases List.mem_pair.1 within with rfl | rfl
  · exact .inr value
  · exact .inl (Option.isNone_iff_eq_none.1 noUnit)

end Session

end UnitCalc

/-
# Compiled programs refine interpreted ones

The interpreter runs a program on a stack of values of a bounded size, where the compiler builds
code. When calls and blocks leave the session as it is, a program without assignments and
random numbers that the interpreter evaluates has the same value as a meaning, and so as code.

## Main definitions

* `Calls.Pure`: calls and blocks do not change the session.
* `Session.meaning`: names, calls and blocks as a session has them.

## Main results

* `Postfix.value?_of_run`: the interpreter finds the value of a program.
* `Postfix.compiled_of_run`: and the code of the program has it too.
-/

import UnitCalc.Proofs.Postfix.Interpretation

namespace UnitCalc

open SessionM

/-- Calls and blocks have results that depend on the session, and leave it as it is. -/
structure Calls.Pure (calls : Calls) : Prop where
  function : ∀ index args s, (outcome (calls.function index args) s).2 = s
  block : ∀ index s, (outcome (calls.block index) s).2 = s

/-- What programs mean in a session: names are variables or units. -/
def Session.meaning (s : Session) (calls : Calls) : Meaning where
  calculator := s.calculator
  name cell name := (cell.bind s.assigned?).or ((s.unit? name).map Quantity.literal)
  call index args := (outcome (calls.function index args) s).1.toOption
  block index := (outcome (calls.block index) s).1.toOption

/-- A unit that is not a plain number, such as a percent. -/
def Quantity.HasDimension (q : Value) : Prop :=
  ∀ u ∈ q.unit, u.isDimensionless = false

/-- A token of a program whose value does not change the session: it neither assigns nor draws
a random number, its unit is no plain number, and a variable has a cell. -/
def Token.IsPure (s : Session) : Token → Prop
  | .operator symbol _ => symbol ≠ '='
  | .function name => functionOf name ≠ .random
  | .unit value _ => ∀ x ∈ value, x.HasDimension
  | .variable cell name => cell.isSome = true ∧ (cell.bind s.assigned? = none →
      ∀ u ∈ s.unit? name, (Quantity.literal u : Value).HasDimension)
  | _ => True

theorem Quantity.collapsed_of_hasDimension {q : Value} (dimension : q.HasDimension) :
    q.collapsed = q := by
  unfold Quantity.collapsed
  split
  · next u unit => rw [dimension u unit]; rfl
  · rfl

theorem Session.isAssigned_eq_isSome (s : Session) (id : CellId) :
    s.isAssigned id = (s.assigned? id).isSome := by
  simp only [Session.isAssigned, Session.assigned?]
  split <;> simp_all

namespace Code

variable {calls : Calls} {J : Session → Prop} {c : Compilation} {id : CellId} {name : String}

/-- An assigned variable is read when the code runs. -/
theorem means_assigned {x : Value} (assigned : c.isAssigned id = true)
    (holds : ∀ s, J s → s.assigned? id = some x) :
    ∃ code, ofVariable c (some id) name = .ok code ∧ code.Means calls J x := by
  refine ⟨.read id name, by simp [ofVariable, assigned], fun s kept => ?_, by simp⟩
  rw [Code.run, outcome_bind_ok (outcome_get s), holds s kept]
  exact ⟨s, rfl, kept⟩

/-- Any other name is a unit, which is resolved when the code is made. -/
theorem means_unit {u : ValueUnit} (unassigned : c.isAssigned id = false)
    (unit : c.unit? name = some u) (dimension : (Quantity.literal u : Value).HasDimension) :
    ∃ code, ofVariable c (some id) name = .ok code ∧ code.Means calls J (.literal u) :=
  ⟨.const (.literal u), by
    simp [ofVariable, unassigned, unit, Quantity.collapsed_of_hasDimension dimension], .const _⟩

end Code

namespace Postfix

variable {calls : Calls} {s s' : Session} {t : Token}

theorem outcome_of_toOption {α : Type} {x : SessionM α} {s : Session} {a : α}
    (ended : (outcome x s).1.toOption = some a) : outcome x s = (.ok a, (outcome x s).2) :=
  Prod.ext (ok_of_toOption ended) rfl

/-- What leaves a session as it is has no other value than in the meaning. -/
theorem keeps_of_pure {x : SessionM Value} (pure : (outcome x s).2 = s) :
    Keeps (· = s) (fun value => (outcome x s).1.toOption = some value) x := by
  rintro s' rfl
  exact ⟨pure, fun value => toOption_ok⟩

/-- A pure token does in a session what it means there. -/
theorem covers_of_isPure (pure : calls.Pure) (plain : t.IsPure s) :
    (s.meaning calls).Covers calls (· = s) t where
  ordinary := by cases t <;> simp_all [Token.isAssignment, Token.isOperator, Token.IsPure]
  drawsNothing name token := by
    subst token
    exact plain
  runs s' same := by
    subst same
    cases t <;> simp [Token.Agrees, Session.meaning]
  name cell name _ s' same value := by
    subst same
    exact id
  call index name count args _ := keeps_of_pure (pure.function index args s)
  block index name _ := keeps_of_pure (pure.block index s)

/-- The interpreter runs a program to its value, and leaves the session as it is. -/
theorem value_of_run {program : List Token} {unit : Option ValueUnit} {result : Outcome}
    (pure : calls.Pure) (plain : ∀ t ∈ program, t.IsPure s)
    (ended : outcome (run calls program unit) s = (.ok result, s')) :
    s' = s ∧ ∃ value, value? (s.meaning calls) program = some value ∧
      value.applyTarget unit = .ok result.value := by
  obtain ⟨same, found⟩ :=
    run_means unit (fun t within => covers_of_isPure pure (plain t within)) s rfl
  rw [ended] at same found
  exact ⟨same, found result rfl⟩

/-- Compilation resolves the names of a session to what they mean in it. -/
theorem fits_of_isPure (pure : calls.Pure) (plain : t.IsPure s) :
    s.compilation.Fits (s.meaning calls) calls (· = s) t where
  folds := by cases t <;> simp [Token.Agrees, Session.meaning, Session.compilation]
  runs s' same := by
    subst same
    cases t <;> simp [Token.Agrees, Session.meaning]
  unit value name token := by
    subst token
    exact Quantity.collapsed_of_hasDimension (plain value rfl)
  name cell name value token named := by
    subst token
    obtain ⟨hasCell, dimension⟩ := plain
    obtain ⟨id, rfl⟩ := Option.isSome_iff_exists.1 hasCell
    simp only [Session.meaning, Option.bind_some] at named dimension
    -- A variable with a value is read when the code runs, a unit becomes a constant of the code.
    cases assigned : s.assigned? id with
    | some x =>
      rw [assigned, Option.some_or] at named
      obtain rfl := Option.some.inj named
      refine Code.means_assigned ?_ fun s' same => same ▸ assigned
      simp [Session.compilation, Session.isAssigned_eq_isSome, assigned]
    | none =>
      rw [assigned, Option.none_or, Option.map_eq_some_iff] at named
      obtain ⟨u, unit, rfl⟩ := named
      refine Code.means_unit ?_ unit (dimension assigned u unit)
      simp [Session.compilation, Session.isAssigned_eq_isSome, assigned]
  call index name count args value _ called s' same := by
    subst same
    exact ⟨_, Prod.ext (ok_of_toOption called) (pure.function index args s'), rfl⟩
  block index name value _ found s' same := by
    subst same
    exact ⟨_, Prod.ext (ok_of_toOption found) (pure.block index s'), rfl⟩

/-- When the interpreter evaluates a program that neither assigns nor draws random numbers,
and its units are no plain numbers, the program compiles, and in the same session its code
yields the same value for the same unit. -/
theorem compiled_of_run {program : List Token} {unit : Option ValueUnit} {result : Outcome}
    (pure : calls.Pure) (plain : ∀ t ∈ program, t.IsPure s)
    (ended : outcome (run calls program unit) s = (.ok result, s')) :
    ∃ code, Code.ofPostfix s.compilation program = .ok code ∧
      outcome (do ofExcept ((← code.run calls).applyTarget unit)) s = (.ok result.value, s) := by
  obtain ⟨-, value, valued, converted⟩ := value_of_run pure plain ended
  obtain ⟨code, compiled, means⟩ := Code.exists_means
    (fun t within => fits_of_isPure pure (plain t within)) valued
  obtain ⟨_, ran, rfl⟩ := means.yields s rfl
  exact ⟨code, compiled, by rw [outcome_bind_ok ran, outcome_ofExcept, converted]⟩

/-- A session with a variable that is two, and one that has no value. -/
def sessionOfTwo : Session where
  settings := {}
  random := ⟨0, ⟨1, 1⟩⟩
  cells := #[{ value := .real 2, isAssigned := true }, {}]

/-- Calls that give back their first argument, and blocks that are one. -/
def firstArgument : Calls :=
  ⟨fun _ args => return args.headD .undefined, fun _ => return .real 1⟩

/-- The program of `if(x; f(x) + 3; $b) * m`. -/
def scaledLength : List Token :=
  [.variable (some 0) "x", .variable (some 0) "x", .call (some 0) "f" 1,
    .constant (some (.real 3)) "3", .operator '+' 6, .block 0 "$b", .conditional,
    .variable (some 1) "m", .operator '*' 3]

theorem compiled_scaledLength : ∃ code value,
    Code.ofPostfix sessionOfTwo.compilation scaledLength = .ok code ∧
      outcome (do ofExcept ((← code.run firstArgument).applyTarget (Catalogue.find? "cm")))
        sessionOfTwo = (.ok value, sessionOfTwo) ∧ value.re = 500 := by
  have pure : firstArgument.Pure := ⟨fun _ _ _ => rfl, fun _ _ => rfl⟩
  have plain : ∀ t ∈ scaledLength, t.IsPure sessionOfTwo := by
    have metre : (sessionOfTwo.unit? "m").all (fun u => !u.isDimensionless) = true := by
      decide +kernel
    simp only [Option.all_eq_true, Bool.not_eq_true'] at metre
    simp only [scaledLength, Token.IsPure, List.forall_mem_cons]
    refine ⟨⟨rfl, nofun⟩, ⟨rfl, nofun⟩, trivial, trivial, by decide, trivial, trivial,
      ⟨rfl, fun _ u unit v same => ?_⟩, by decide, nofun⟩
    obtain rfl := Option.some.inj same
    exact metre u unit
  have found : ((outcome (run firstArgument scaledLength (Catalogue.find? "cm"))
      sessionOfTwo).1.toOption.map fun result => result.value.re) = some 500 := by
    decide +kernel
  obtain ⟨result, ended, number⟩ := Option.map_eq_some_iff.1 found
  obtain ⟨code, compiled, ran⟩ := compiled_of_run pure plain (outcome_of_toOption ended)
  exact ⟨code, result.value, compiled, ran, number⟩

end Postfix

end UnitCalc

/-
# Definitions of numeric functions

A definition whose body is numeric, with names and calls of the session, leaves a sound session
sound: when it is refused as circular, when its header is invalid, and when it succeeds.

## Main results

* `Session.Sound.define`: definitions of numeric functions leave a session sound.
-/

import UnitCalc.Proofs.Postfix.Stack
import UnitCalc.Proofs.Session.Redefinition
import UnitCalc.Proofs.Statement.Scan

namespace UnitCalc

open SessionM

namespace Postfix

variable {P : Token → Prop} {tokens program stack : List Token}

/-- The tokens of a program are those of the list, up to the order of operators. -/
theorem forall_ofTokensFrom
    (reordered : ∀ symbol order order', P (.operator symbol order) → P (.operator symbol order'))
    (all : ∀ t ∈ tokens, P t) (waiting : ∀ t ∈ stack, P t)
    (made : ofTokensFrom stack tokens = .ok program) : ∀ t ∈ program, P t := by
  have taken : ∀ {p : Token → Bool} {stack : List Token}, (∀ t ∈ stack, P t) →
      ∀ t ∈ stack.takeWhile p, P t := fun waiting t within =>
    waiting t ((List.takeWhile_sublist _).subset within)
  have dropped : ∀ {p : Token → Bool} {stack : List Token}, (∀ t ∈ stack, P t) →
      ∀ t ∈ stack.dropWhile p, P t := fun waiting t within =>
    waiting t ((List.dropWhile_sublist _).subset within)
  -- The induction is on the tokens, for any stack of tokens that have the property.
  induction tokens generalizing stack program with
  | nil =>
    unfold ofTokensFrom drain at made
    split at made
    · cases made
      exact waiting
    · cases made
  | cons t tokens ih =>
    rw [List.forall_mem_cons] at all
    cases t with
    | blank => exact ih all.2 waiting made
    | constant | unit | «variable» | block | input =>
      obtain ⟨rest, ordered, rfl⟩ := exists_of_map_ok made
      exact List.forall_mem_cons.2 ⟨all.1, ih all.2 waiting ordered⟩
    | negation | openBracket | function | binaryFunction | multiFunction | conditional | call =>
      exact ih all.2 (List.forall_mem_cons.2 ⟨all.1, waiting⟩) made
    | operator symbol order =>
      obtain ⟨rest, ordered, rfl⟩ := exists_of_map_ok made
      refine List.forall_mem_append.2 ⟨taken waiting, ih all.2 ?_ ordered⟩
      exact List.forall_mem_cons.2 ⟨reordered symbol order _ all.1, dropped waiting⟩
    | factorial =>
      obtain ⟨rest, ordered, rfl⟩ := exists_of_map_ok made
      refine List.forall_mem_append.2 ⟨taken waiting, ?_⟩
      exact List.forall_mem_cons.2 ⟨all.1, ih all.2 (dropped waiting) ordered⟩
    | closeBracket | separator =>
      have below := dropped (p := isNotOpen) waiting
      rw [ofTokensFrom] at made
      split at made
      · cases made
      · next bracket others split_ =>
        obtain ⟨rest, ordered, rfl⟩ := exists_of_map_ok made
        rw [split_, List.forall_mem_cons] at below
        refine List.forall_mem_append.2 ⟨taken waiting, ih all.2 ?_ ordered⟩
        first
          | exact below.2
          | exact List.forall_mem_cons.2 below

end Postfix

namespace Session

variable {s : Session} {settings : Settings} {t : Token} {tokens program : List Token}
  {f : UserFunction} {parameters : List (String × CellId)}

/-- Without blocks only the program itself is bound. -/
theorem bindProgram_eq (s : Session) (noBlocks : ∀ t ∈ program, t.blockIndex? = none) :
    s.bindProgram parameters program = (program.map (Token.bound parameters), s) := by
  have none : Token.blockIndices program = [] := List.filterMap_eq_nil_iff.2 noBlocks
  rw [bindProgram, none]
  rfl

theorem noBlock_of_isNumeric (numeric : t.isNumeric = true) : t.blockIndex? = none := by
  cases t <;> first | rfl | cases numeric

theorem isNumeric_bound (numeric : t.isNumeric = true) :
    (t.bound parameters).isNumeric = true := by
  cases t <;> exact numeric

/-- A bound name denotes a parameter or a variable of the session. -/
theorem binds_bound (knows : s.Knows t) : s.Binds f (t.bound f.parameters) := by
  cases t with
  | «variable» cell name =>
    obtain ⟨id, rfl, named⟩ := knows
    rw [Token.bound]
    cases parameter : f.parameters.lookup name with
    | some cell => exact ⟨cell, rfl, by rw [parameter, Option.some_or]⟩
    | none => exact ⟨id, rfl, by rw [parameter, Option.none_or, named]⟩
  | _ => exact knows

/-- The function that a definition installs may be defined. -/
theorem IsNumeric.admits (numeric : s.IsNumeric settings) (name : String) (names : List String)
    (plain : ∀ t ∈ program, t.isNumeric = true) (knows : ∀ t ∈ program, s.Knows t) :
    (s.newParameters names).2.Admits
      { name, parameters := (s.newParameters names).1,
        body := program.map (Token.bound (s.newParameters names).1), unit := none } := by
  have ext := s.extends_newParameters names
  obtain ⟨distinct, new⟩ := s.cells_newParameters names
  refine ⟨rfl, fun t within => ?_, fun t within => ?_, distinct, fun id own => ?_,
    fun i g found id own other => ?_, rfl, rfl⟩
  · obtain ⟨u, old, rfl⟩ := List.mem_map.1 within
    exact isNumeric_bound (plain u old)
  · obtain ⟨u, old, rfl⟩ := List.mem_map.1 within
    exact binds_bound (ext.knows (knows u old))
  · refine ⟨(new id own).2, fun name' named => ?_⟩
    rw [s.cellNames_newParameters names] at named
    exact absurd (numeric.named name' id named) (Nat.not_lt.2 (new id own).1)
  · rw [ext.functions] at found
    exact absurd (numeric.isPrivate i g found id other).exists_ (Nat.not_lt.2 (new id own).1)

/-- A function that leads to itself is refused, and stays without a value. -/
theorem Sound.refuse (sound : s.Sound settings) (admits : s.Admits f)
    (alone : f.dependents = []) :
    (((s.install f).2.2.modifyFunction (s.install f).1
      fun f => { f with isCircular := true }).forgetFrom (s.install f).2.1).Sound settings := by
  obtain ⟨changed, defines, -⟩ := s.install_spec alone
  have refused : s.Admits { f with isCircular := true } := { admits with }
  rw [changed]
  exact defines.refused.sound_forgetFrom sound refused nofun nofun

/-- A function that does not lead to itself is told to what its body refers to. -/
theorem Sound.accept (sound : s.Sound settings) (admits : s.Admits f) (alone : f.dependents = [])
    (open_ : (s.install f).2.2.isCircular (s.install f).1 = false) :
    (((s.install f).2.2.dependOnAll (.function (s.install f).1) f.freeTokens).forgetFrom
      (s.install f).2.1).Sound settings := by
  obtain ⟨changed, defines, -⟩ := s.install_spec alone
  obtain ⟨grows, told⟩ := (s.install f).2.2.dependOnAll_spec (.function (s.install f).1) f.freeTokens
  have exists_ : ∀ t ∈ f.freeTokens, (s.install f).2.2.Exists t :=
    fun t within => defines.exists_ (admits.exists_free sound.toIsNumeric within)
  have noCycle := not_transGen_of_isCircular
    (defines.known_of_leads sound.toIsNumeric admits) open_
  rw [changed]
  refine (defines.grows grows).sound_forgetFrom sound admits
    (fun _ t within => told t within (exists_ t within)) fun _ => ?_
  rw [grows.leads_eq]
  exact noCycle

/-- A definition of a numeric function leaves a session sound, also when it fails. -/
theorem Sound.define (sound : s.Sound settings)
    (fits : ∀ header, Header.ofTokens tokens = .ok header →
      ∀ t ∈ header.body, t.isNumeric = true ∧ s.Knows t) :
    (outcome (define tokens none) s).2.Sound settings := by
  unfold SessionM.define
  cases read : Header.ofTokens tokens with
  | error e => rw [outcome_bind_error (outcome_ofExcept _ s)]; exact sound
  | ok header =>
    rw [outcome_bind_ok (outcome_ofExcept _ s)]
    cases ordered : Postfix.ofTokens header.body with
    | error e => rw [outcome_bind_error (outcome_ofExcept _ s)]; exact sound
    | ok program =>
      rw [outcome_bind_ok (outcome_ofExcept _ s)]
      cases empty : program.isEmpty with
      | true => exact sound
      | false =>
        -- the parameters get cells, and the function its place
        have all := Postfix.forall_ofTokensFrom (fun _ _ _ kept => kept) (fits header read)
          (List.forall_mem_nil _) ordered
        have ext := s.extends_newParameters header.parameters
        have numeric : ∀ t ∈ program, t.isNumeric = true := fun t within => (all t within).1
        have admits := sound.admits header.name header.parameters numeric
          fun t within => (all t within).2
        simp only [Bool.false_eq_true, if_false]
        rw [outcome_bind_ok (outcome_modifyGet _ s)]
        rw [SessionM.bindProgram, outcome_bind_ok (outcome_modifyGet _ _),
          bindProgram_eq _ fun t within => noBlock_of_isNumeric (numeric t within)]
        rw [outcome_bind_ok (outcome_modifyGet _ _), outcome_bind_ok (outcome_get _)]
        have sound' := ext.sound sound
        split
        · next circular =>
          exact sound'.refuse admits rfl
        · next open_ =>
          exact sound'.accept admits rfl (Bool.not_eq_true _ ▸ open_)

end Session

end UnitCalc

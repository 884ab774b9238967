/-
# Runs of the check

The check goes through a list from left to right. A token other than a bracket, and other than
a call of any number of arguments, is stored as it is and changes no more than the count of
separators. A list that gets through is a chain of legal neighbours, its brackets are balanced,
and its layout says what was stored and counted.

## Main definitions

* `Legality.Passes` is the effect of a balanced list.

## Main results

* `Legality.run_ok`: chained lists with balanced brackets get through, unless they assign.
* `Token.Layout.passes`: what a run does to a list that has a layout.
-/

import UnitCalc.Proofs.Token.Layout

namespace UnitCalc

namespace Token

/-- The token is a call of a function of any number of arguments. -/
def isManyCall : Token → Bool
  | multiFunction _ _ => true
  | _ => false

/-- By how much a token changes the count of separators. -/
def surplus : Token → Int
  | separator => 1
  | t => -((t.separators?.getD 0 : Nat) : Int)

end Token

namespace Legality

open Token

/-- The effect of a list that is balanced: it is stored with its counts as `us`, and counts
`k` separators. -/
structure Passes (s : State) (us : List Token) (k : Int) (s' : State) : Prop where
  checked : s'.checked.toList = s.checked.toList ++ us
  depth : s'.depth = s.depth
  separators : s'.separators = s.separators + k
  openCalls : s'.openCalls = s.openCalls

theorem Passes.refl (s : State) : Passes s [] 0 s :=
  ⟨by simp, rfl, by simp, rfl⟩

theorem Passes.trans {s s' s'' : State} {us vs : List Token} {k l : Int}
    (first : Passes s us k s') (second : Passes s' vs l s'') :
    Passes s (us ++ vs) (k + l) s'' where
  checked := by rw [second.checked, first.checked, List.append_assoc]
  depth := second.depth.trans first.depth
  separators := by rw [second.separators, first.separators, Int.add_assoc]
  openCalls := second.openCalls.trans first.openCalls

/-- A call with separators between its arguments has one argument more. -/
theorem storedCount_eq (separators : Nat) :
    storedCount (0 + (separators : Int) + 1) = separators + 1 := by
  rw [storedCount, if_pos (by omega)]
  omega

variable {header : Option String} {previous : Option Token} {t : Token} {s s' final : State}
  {ts rest : List Token}

/-- What a successful step consists of. -/
theorem step_ok (stepped : step header previous t s = .ok s') :
    t.mayFollow previous = true ∧
      ∃ a, advance header previous t s = .ok a ∧ s' = { a with checked := a.checked.push t } := by
  unfold step at stepped
  split at stepped
  · next follows =>
    cases advanced : advance header previous t s with
    | error e => simp [advanced, Except.map] at stepped
    | ok a =>
      simp only [advanced, Except.map, Except.ok.injEq] at stepped
      exact ⟨follows, a, rfl, stepped.symm⟩
  · simp at stepped

/-- The first step of a successful run. -/
theorem run_cons (ran : run header previous (t :: rest) s = .ok final) :
    ∃ s', step header previous t s = .ok s' ∧ run header (some t) rest s' = .ok final := by
  rw [run] at ran
  cases stepped : step header previous t s with
  | error e =>
    rw [stepped] at ran
    cases ran
  | ok s' =>
    rw [stepped] at ran
    exact ⟨s', rfl, ran⟩

theorem closeBracket_ok (closed : closeBracket s = .ok s') :
    s.depth = s'.depth + 1 ∧ s'.isDefinition = s.isDefinition := by
  unfold closeBracket at closed
  split at closed
  · simp at closed
  · next d opened =>
    split at closed
    · split at closed <;> cases closed <;> exact ⟨opened, rfl⟩
    · cases closed
      exact ⟨opened, rfl⟩

/-- A token other than a bracket and a call of any number of arguments changes the count of
separators, as long as the list defines no function. -/
theorem advance_plain (plain : t.isBracket = false) (fixed : t.isManyCall = false)
    (advanced : advance header previous t s = .ok s') (expression : s'.isDefinition = false) :
    s.isDefinition = false ∧ s'.checked = s.checked ∧ s'.depth = s.depth ∧
      s'.separators = s.separators + t.surplus ∧ s'.openCalls = s.openCalls := by
  -- An assignment either makes the list a definition, which is excluded, or counts as an operator.
  cases t with
  | openBracket | closeBracket => simp [isBracket] at plain
  | multiFunction => simp [isManyCall] at fixed
  | operator symbol order =>
    simp only [advance, assignment] at advanced
    split at advanced
    · split at advanced
      · cases advanced
        simp at expression
      · split at advanced
        · split at advanced <;> cases advanced
          exact ⟨expression, rfl, rfl, by simp [surplus, separators?], rfl⟩
        · split at advanced <;> cases advanced
          exact ⟨expression, rfl, rfl, by simp [surplus, separators?], rfl⟩
        · simp at advanced
    · cases advanced
      exact ⟨expression, rfl, rfl, by simp [surplus, separators?], rfl⟩
  | call index name count =>
    simp only [advance, call] at advanced
    split at advanced
    · simp at advanced
    · split at advanced <;> cases advanced
      · refine ⟨expression, rfl, rfl, ?_, rfl⟩
        simp only [surplus, separators?, Option.getD_some]
        omega
      · refine ⟨expression, rfl, rfl, ?_, rfl⟩
        simp only [surplus, separators?, Option.getD_some]
        omega
  | _ =>
    simp only [advance, Except.ok.injEq] at advanced
    subst advanced
    exact ⟨expression, rfl, rfl, by simp [surplus, separators?, Int.sub_eq_add_neg], rfl⟩

/-- No step takes back that a list defines a function. -/
theorem step_isDefinition (stepped : step header previous t s = .ok s')
    (expression : s'.isDefinition = false) : s.isDefinition = false := by
  obtain ⟨-, a, advanced, rfl⟩ := step_ok stepped
  by_cases plain : t.isBracket = false
  · by_cases fixed : t.isManyCall = false
    · exact (advance_plain plain fixed advanced expression).1
    · cases t <;> simp [isManyCall] at fixed
      cases advanced
      exact expression
  · cases t <;> simp [isBracket] at plain
    · cases advanced
      exact expression
    · rw [← (closeBracket_ok advanced).2]
      exact expression

theorem step_keeps_expression (ordinary : t.isAssignment = false)
    (stepped : step header previous t s = .ok s') (expression : s.isDefinition = false) :
    s'.isDefinition = false := by
  obtain ⟨-, a, advanced, rfl⟩ := step_ok stepped
  cases t with
  | closeBracket => exact (closeBracket_ok advanced).2.trans expression
  | operator symbol order =>
    have other : (symbol == '=') = false := ordinary
    simp only [advance, other, Bool.false_eq_true, if_false, Except.ok.injEq] at advanced
    exact advanced ▸ expression
  | call index name count =>
    simp only [advance, call] at advanced
    repeat' split at advanced
    all_goals cases advanced <;> exact expression
  | _ => cases advanced; exact expression

theorem run_isDefinition (ran : run header previous ts s = .ok final)
    (expression : final.isDefinition = false) : s.isDefinition = false := by
  induction ts generalizing previous s with
  | nil => cases ran; exact expression
  | cons t ts ih =>
    obtain ⟨s', stepped, ran⟩ := run_cons ran
    exact step_isDefinition stepped (ih ran)

theorem step_plain (plain : t.isBracket = false) (fixed : t.isManyCall = false)
    (stepped : step header previous t s = .ok s') (expression : s'.isDefinition = false) :
    Passes s [t] t.surplus s' := by
  obtain ⟨-, a, advanced, rfl⟩ := step_ok stepped
  obtain ⟨-, checked, depth, separators, openCalls⟩ :=
    advance_plain plain fixed advanced expression
  exact ⟨by simp [checked], depth, separators, openCalls⟩

/-- A token that begins a successful run, as `step_plain` describes it. -/
theorem run_plain (plain : t.isBracket = false) (fixed : t.isManyCall = false)
    (ran : run header previous (t :: rest) s = .ok final) (expression : final.isDefinition = false) :
    ∃ s', Passes s [t] t.surplus s' ∧ run header (some t) rest s' = .ok final := by
  obtain ⟨s', stepped, ran⟩ := run_cons ran
  exact ⟨s', step_plain plain fixed stepped (run_isDefinition ran expression), ran⟩

/-- A step changes the depth as `depthAfter` says. -/
theorem step_depth (stepped : step header previous t s = .ok s') :
    depthAfter s.depth (t :: rest) = depthAfter s'.depth rest := by
  obtain ⟨-, a, advanced, rfl⟩ := step_ok stepped
  cases t with
  | openBracket => cases advanced; rfl
  | closeBracket => rw [(closeBracket_ok advanced).1]; rfl
  | operator symbol order =>
    simp only [advance, assignment] at advanced
    repeat' split at advanced
    all_goals cases advanced <;> rfl
  | call index name count =>
    simp only [advance, call] at advanced
    repeat' split at advanced
    all_goals cases advanced <;> rfl
  | _ => cases advanced; rfl

/-- A list that gets through is a chain, and it closes only open brackets. -/
theorem chained_of_run (ran : run header previous ts s = .ok final) :
    Chained previous ts ∧ depthAfter s.depth ts = some final.depth := by
  induction ts generalizing previous s with
  | nil => cases ran; exact ⟨trivial, rfl⟩
  | cons t ts ih =>
    obtain ⟨s', stepped, ran⟩ := run_cons ran
    obtain ⟨chained, depth⟩ := ih ran
    exact ⟨⟨(step_ok stepped).1, chained⟩, (step_depth stepped).trans depth⟩

/-- A token that may stand here gets through, unless it assigns or closes no bracket. -/
theorem step_succeeds (follows : t.mayFollow previous = true) (ordinary : t.isAssignment = false)
    (expression : s.isDefinition = false) (depth : (depthAfter s.depth [t]).isSome) :
    ∃ s', step header previous t s = .ok s' := by
  suffices ∃ a, advance header previous t s = .ok a by
    obtain ⟨a, advanced⟩ := this
    exact ⟨_, by rw [step, if_pos follows, advanced]; rfl⟩
  cases t with
  | closeBracket =>
    cases opened : s.depth with
    | zero => simp [opened, depthAfter] at depth
    | succ d =>
      simp only [advance, closeBracket, opened]
      repeat' split
      all_goals exact ⟨_, rfl⟩
  | operator symbol order =>
    have other : (symbol == '=') = false := ordinary
    exact ⟨_, by simp only [advance, other]; rfl⟩
  | call index name count =>
    simp only [advance, call, expression, Bool.false_and, Bool.false_eq_true, if_false]
    split <;> exact ⟨_, rfl⟩
  | _ => exact ⟨_, rfl⟩

/-- A chained list gets through, unless it assigns or closes a bracket that is not open. -/
theorem run_ok {d : Nat} (chained : Chained previous ts)
    (ordinary : ∀ t ∈ ts, t.isAssignment = false) (expression : s.isDefinition = false)
    (depth : depthAfter s.depth ts = some d) :
    ∃ final, run header previous ts s = .ok final ∧ final.isDefinition = false := by
  induction ts generalizing previous s with
  | nil => exact ⟨s, rfl, expression⟩
  | cons t ts ih =>
    have first : (depthAfter s.depth [t]).isSome := by
      have split := depthAfter_append s.depth [t] ts
      rw [List.singleton_append, depth] at split
      cases reached : depthAfter s.depth [t] with
      | none => simp [reached] at split
      | some => rfl
    obtain ⟨s', stepped⟩ : ∃ s', step header previous t s = .ok s' :=
      step_succeeds chained.1 (ordinary t List.mem_cons_self) expression first
    have expression' := step_keeps_expression (ordinary t List.mem_cons_self) stepped expression
    obtain ⟨final, ran, still⟩ := ih chained.2
      (fun u within => ordinary u (List.mem_cons_of_mem t within)) expression'
      ((step_depth stepped).symm.trans depth)
    exact ⟨final, by rw [run, stepped]; exact ran, still⟩

/-- An opening bracket. -/
theorem step_open (stepped : step header previous .openBracket s = .ok s') :
    s'.checked.toList = s.checked.toList ++ [.openBracket] ∧ s'.depth = s.depth + 1 ∧
      s'.separators = s.separators ∧ s'.openCalls = s.openCalls := by
  obtain ⟨-, a, ⟨⟩, rfl⟩ := step_ok stepped
  exact ⟨Array.toList_push, rfl, rfl, rfl⟩

/-- A call of any number of arguments is open, and its place is remembered. -/
theorem step_manyCall {name : String} {count : Nat}
    (stepped : step header previous (.multiFunction name count) s = .ok s') :
    s'.checked.toList = s.checked.toList ++ [.multiFunction name count] ∧ s'.depth = s.depth ∧
      s'.separators = s.separators ∧
      s'.openCalls = ⟨s.checked.size, s.depth, s.separators⟩ :: s.openCalls := by
  obtain ⟨-, a, ⟨⟩, rfl⟩ := step_ok stepped
  exact ⟨Array.toList_push, rfl, rfl, rfl⟩

/-- A closing bracket that closes no call. -/
theorem step_close {d : Nat} (stepped : step header previous .closeBracket s = .ok s')
    (opened : s.depth = d + 1) (outer : ∀ c ∈ s.openCalls.head?, c.depth < d) :
    Passes { s with depth := d } [.closeBracket] 0 s' := by
  obtain ⟨-, a, closed, rfl⟩ := step_ok stepped
  have plain : a = { s with depth := d } := by
    simp only [advance, closeBracket, opened] at closed
    split at closed
    · next c cs waiting =>
      have deeper : (c.depth == d) = false :=
        beq_false_of_ne (Nat.ne_of_lt (outer c (by simp [waiting])))
      simp only [deeper, Bool.false_eq_true, if_false] at closed
      exact (Except.ok.inj closed).symm
    · exact (Except.ok.inj closed).symm
  subst plain
  exact ⟨Array.toList_push, rfl, by simp, rfl⟩

/-- The closing bracket of a call of any number of arguments. -/
theorem step_closeCall {d : Nat} {c : OpenCall} {cs : List OpenCall}
    (stepped : step header previous .closeBracket s = .ok s') (opened : s.depth = d + 1)
    (waiting : s.openCalls = c :: cs) (inner : c.depth = d) :
    s'.checked.toList = s.checked.toList.modify c.place
        (setCount (storedCount (s.separators - c.separators + 1))) ++ [.closeBracket] ∧
      s'.depth = d ∧ s'.separators = c.separators ∧ s'.openCalls = cs := by
  obtain ⟨-, a, closed, rfl⟩ := step_ok stepped
  simp only [advance, closeBracket, opened, waiting, inner, BEq.rfl, if_true,
    Except.ok.injEq] at closed
  subst closed
  exact ⟨by simp, rfl, rfl, rfl⟩

theorem Passes.keepsOuter {us : List Token} {k : Int} (passes : Passes s us k s')
    (outer : ∀ c ∈ s.openCalls.head?, c.depth < s.depth) :
    ∀ c ∈ s'.openCalls.head?, c.depth < s'.depth := by
  rwa [passes.openCalls, passes.depth]

theorem deeper_open (opened : step header previous .openBracket s = .ok s')
    (outer : ∀ c ∈ s.openCalls.head?, c.depth < s.depth) :
    ∀ c ∈ s'.openCalls.head?, c.depth < s'.depth := by
  obtain ⟨-, depth, -, openCalls⟩ := step_open opened
  rw [openCalls, depth]
  exact fun c first => Nat.lt_succ_of_lt (outer c first)

theorem deeper_manyCall {s₀ : State} {name : String} {count : Nat} {previous₁ : Option Token}
    (called : step header previous (.multiFunction name count) s = .ok s₀)
    (opened : step header previous₁ .openBracket s₀ = .ok s') :
    ∀ c ∈ s'.openCalls.head?, c.depth < s'.depth := by
  obtain ⟨-, depth₀, -, openCalls₀⟩ := step_manyCall called
  obtain ⟨-, depth, -, openCalls⟩ := step_open opened
  rw [openCalls, openCalls₀, depth, depth₀]
  rintro c ⟨⟩
  exact Nat.lt_succ_self _

/-- A balanced list between brackets that belong to no call is balanced. -/
theorem Passes.bracket {s₁ s₂ : State} {us : List Token} {k : Int}
    {previous' : Option Token} (opened : step header previous .openBracket s = .ok s₁)
    (inside : Passes s₁ us k s₂) (closed : step header previous' .closeBracket s₂ = .ok s')
    (outer : ∀ c ∈ s.openCalls.head?, c.depth < s.depth) :
    Passes s (.openBracket :: (us ++ [.closeBracket])) k s' := by
  obtain ⟨checked, depth, separators, openCalls⟩ := step_open opened
  have calls : s₂.openCalls = s.openCalls := inside.openCalls.trans openCalls
  have ended := step_close closed (inside.depth.trans depth) (by rwa [calls])
  refine ⟨?_, ended.depth, ?_, ended.openCalls.trans calls⟩
  · rw [ended.checked, inside.checked, checked]
    simp
  · rw [ended.separators, inside.separators, separators, Int.add_zero]

private theorem modify_append_cons {α : Type} (f : α → α) (xs ys : List α) (a : α) :
    (xs ++ a :: ys).modify xs.length f = xs ++ f a :: ys := by
  induction xs with
  | nil => simp
  | cons x xs ih => simpa using ih

/-- A balanced list in the bracket of a call of any number of arguments is balanced, and its
separators are stored in the call. -/
theorem Passes.manyCall {s₀ s₁ s₂ : State} {us : List Token} {k : Int} {name : String}
    {count : Nat} {previous₁ previous₂ : Option Token}
    (called : step header previous (.multiFunction name count) s = .ok s₀)
    (opened : step header previous₁ .openBracket s₀ = .ok s₁) (inside : Passes s₁ us k s₂)
    (closed : step header previous₂ .closeBracket s₂ = .ok s') :
    Passes s (.multiFunction name (storedCount (k + 1)) :: .openBracket ::
      (us ++ [.closeBracket])) 0 s' := by
  obtain ⟨checked₀, depth₀, separators₀, openCalls₀⟩ := step_manyCall called
  obtain ⟨checked₁, depth₁, separators₁, openCalls₁⟩ := step_open opened
  obtain ⟨checked, depth, separators, openCalls⟩ := step_closeCall closed
    (inside.depth.trans (depth₁.trans (congrArg (· + 1) depth₀)))
    (inside.openCalls.trans (openCalls₁.trans openCalls₀)) rfl
  have counted : s₂.separators - s.separators + 1 = k + 1 := by
    have total := inside.separators
    omega
  refine ⟨?_, depth, by rw [separators, Int.add_zero], openCalls⟩
  rw [checked, counted, inside.checked, checked₁, checked₀, ← Array.length_toList]
  simp only [List.append_assoc, List.cons_append, List.nil_append]
  rw [modify_append_cons]
  simp [setCount]

end Legality

namespace Token

open Legality

/-- What a successful run does to the front of a list that has a layout, when the innermost
open call is not closed there. -/
theorem Layout.passes {next : Expected} {n : Nat} {e : Int} {ts us rest : List Token}
    {header : Option String} {previous : Option Token} {s final : State}
    (layout : Layout next n e ts us) (outer : ∀ c ∈ s.openCalls.head?, c.depth < s.depth)
    (ran : run header previous (ts ++ rest) s = .ok final)
    (expression : final.isDefinition = false) :
    ∃ previous' s', Passes s us (n + e) s' ∧ run header previous' rest s' = .ok final := by
  -- The induction is on the layout. Each part is passed in the state behind the one before it, and
  -- no bracket closes a call that was opened outside.
  induction layout generalizing previous s rest with
  | done => exact ⟨previous, s, .refl s, ran⟩
  | @operand t n e ts us value _ ih =>
    have plain : t.isBracket = false := by cases t <;> first | rfl | cases value
    have fixed : t.isManyCall = false := by cases t <;> first | rfl | cases value
    have surplus : t.surplus = 0 := by cases t <;> first | rfl | cases value
    obtain ⟨s₁, first, ran⟩ := run_plain plain fixed ran expression
    obtain ⟨previous', s', passes, ran⟩ := ih (first.keepsOuter outer) ran
    exact ⟨previous', s', by simpa [surplus] using first.trans passes, ran⟩
  | negation _ ih =>
    obtain ⟨s₁, first, ran⟩ := run_plain rfl rfl ran expression
    obtain ⟨previous', s', passes, ran⟩ := ih (first.keepsOuter outer) ran
    exact ⟨previous', s', by simpa [surplus, separators?] using first.trans passes, ran⟩
  | factorial _ ih =>
    obtain ⟨s₁, first, ran⟩ := run_plain rfl rfl ran expression
    obtain ⟨previous', s', passes, ran⟩ := ih (first.keepsOuter outer) ran
    exact ⟨previous', s', by simpa [surplus, separators?] using first.trans passes, ran⟩
  | operator _ ih =>
    obtain ⟨s₁, first, ran⟩ := run_plain rfl rfl ran expression
    obtain ⟨previous', s', passes, ran⟩ := ih (first.keepsOuter outer) ran
    exact ⟨previous', s', by simpa [surplus, separators?] using first.trans passes, ran⟩
  | @separator n e ts us _ ih =>
    obtain ⟨s₁, first, ran⟩ := run_plain rfl rfl ran expression
    obtain ⟨previous', s', passes, ran⟩ := ih (first.keepsOuter outer) ran
    have counts : Token.separator.surplus + (n + e) = ((n + 1 : Nat) : Int) + e := by
      simp only [surplus]
      omega
    exact ⟨previous', s', counts ▸ first.trans passes, ran⟩
  | @bracket n m e i inside inside' ts us _ _ ihBody ihRest =>
    obtain ⟨s₁, opened, ran⟩ := run_cons ran
    simp only [List.append_eq, List.append_assoc, List.cons_append] at ran
    obtain ⟨_, s₂, body, ran⟩ := ihBody (deeper_open opened outer) ran
    obtain ⟨s₃, closed, ran⟩ := run_cons ran
    have first := body.bracket opened closed outer
    obtain ⟨previous', s', passes, ran⟩ := ihRest (first.keepsOuter outer) ran
    have counts : (m + i : Int) + (n + e) = n + (i + m + e) := by omega
    have both := first.trans passes
    rw [counts] at both
    exact ⟨previous', s', by simpa using both, ran⟩
  | @call t n m k e i inside inside' ts us needs _ _ ihBody ihRest =>
    have plain : t.isBracket = false := by cases t <;> first | rfl | cases needs
    have fixed : t.isManyCall = false := by cases t <;> first | rfl | cases needs
    have surplus : t.surplus = -k := by cases t <;> cases needs <;> rfl
    obtain ⟨s₀, called, ran⟩ := run_plain plain fixed ran expression
    obtain ⟨s₁, opened, ran⟩ := run_cons ran
    simp only [List.append_eq, List.append_assoc, List.cons_append] at ran
    have outer₀ := called.keepsOuter outer
    obtain ⟨_, s₂, body, ran⟩ := ihBody (deeper_open opened outer₀) ran
    obtain ⟨s₃, closed, ran⟩ := run_cons ran
    have first := called.trans (body.bracket opened closed outer₀)
    obtain ⟨previous', s', passes, ran⟩ := ihRest (first.keepsOuter outer) ran
    have counts : t.surplus + (m + i : Int) + (n + e) = n + (i + m - k + e) := by
      rw [surplus]
      omega
    have both := first.trans passes
    rw [counts] at both
    exact ⟨previous', s', by simpa using both, ran⟩
  | @manyCall name count n m e i inside inside' ts us _ _ ihBody ihRest =>
    obtain ⟨s₀, called, ran⟩ := run_cons ran
    obtain ⟨s₁, opened, ran⟩ := run_cons ran
    simp only [List.append_eq, List.append_assoc, List.cons_append] at ran
    obtain ⟨_, s₂, body, ran⟩ := ihBody (deeper_manyCall called opened) ran
    obtain ⟨s₃, closed, ran⟩ := run_cons ran
    have first := body.manyCall called opened closed
    obtain ⟨previous', s', passes, ran⟩ := ihRest (first.keepsOuter outer) ran
    have counts : (m + i : Int) + 1 = i + m + 1 := by omega
    exact ⟨previous', s', by simpa [counts] using first.trans passes, ran⟩

/-- A list that a continuation may follow does not dangle. -/
theorem Closes.not_dangling {previous : Option Token} {ts : List Token}
    (closes : Closes previous ts) : ts.getLast?.any isDangling = false := by
  cases last : ts.getLast? with
  | none => rfl
  | some t =>
    have follows := closes.2
    rw [last] at follows
    cases t <;> first | rfl | simp [Expected.follows, classBefore, kind] at follows

/-- An expression whose separators are all needed is legal, and gets its counts stored. -/
theorem check_of_layout {n : Nat} {e : Int} {ts us : List Token}
    (layout : Layout .operand n e ts us) (balanced : n + e = 0)
    (ordinary : ∀ t ∈ ts, t.isAssignment = false)
    (known : ∀ name count, ts.head? ≠ some (.call none name count)) :
    check ts = .ok (us, false) := by
  have closes : Closes none ts := layout.closes rfl
  -- The list is legal since it closes, and the layout tells what the run has counted.
  obtain ⟨final, ran, expression⟩ :
      ∃ final, run (headerName? ts) none ts {} = .ok final ∧ final.isDefinition = false :=
    run_ok closes.1 ordinary rfl (layout.depthAfter_eq 0)
  have whole : run (headerName? ts) none (ts ++ []) {} = .ok final := by
    rw [List.append_nil]
    exact ran
  obtain ⟨previous', s', passes, ended⟩ := layout.passes (by simp) whole expression
  have same : s' = final := Except.ok.inj ended
  subst same
  have depth : s'.depth = 0 := passes.depth
  have separators : s'.separators = 0 := by
    rw [passes.separators, balanced]
    rfl
  have checked : s'.checked.toList = us := by simpa using passes.checked
  have finished : finish ts s' = .ok (us, false) := by
    rw [finish, closes.not_dangling, expression]
    split
    · contradiction
    · split
      · next name count first _ => exact absurd first (known name count)
      · simp [depth, separators, checked]
  rw [check, ran]
  exact finished

end Token

end UnitCalc

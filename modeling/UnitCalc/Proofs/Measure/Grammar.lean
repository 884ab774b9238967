/-
# The grammar of unit expressions

A unit expression is a chain of operands with operators between them, and an operand is a number, a
name or an expression in brackets. A derivation groups a chain level by level: powers first, then
quotients, then products, each from the left. The check of neighbours and brackets accepts the
derived lists, and besides them only the empty list and lists that begin with an operator.

## Main definitions

* `UnitTree`: a unit expression as a tree.
* `UnitTree.Derives`: a list of tokens is read as a tree.

## Main results

* `UnitTree.Derives.check`: derived lists are accepted.
* `UnitTree.exists_derives`: accepted lists that begin with an operand are derived.
-/

import UnitCalc.Measure.Expression

namespace UnitCalc

/-- A unit expression as a tree. -/
inductive UnitTree where
  | number (text : String)
  | name (text : String)
  | op (o : UnitOp) (left right : UnitTree)

namespace UnitTree

open UnitToken (checkFrom check mayFollow opensOperand)

/-- The level of expressions. -/
def loosest : Nat := 3

/-- The tokens that are read as a tree at a level. Operands are at level zero, and above them the
operators of each level have a level of their own. -/
inductive Derives : Nat → List UnitToken → UnitTree → Prop
  | number (text : String) : Derives 0 [.number text] (.number text)
  | name (text : String) : Derives 0 [.name text] (.name text)
  | bracket {ts : List UnitToken} {tree : UnitTree} (inside : Derives loosest ts tree) :
      Derives 0 (.openBracket :: (ts ++ [.closeBracket])) tree
  | tighter {level : Nat} {ts : List UnitToken} {tree : UnitTree} (inner : Derives level ts tree) :
      Derives (level + 1) ts tree
  | op {o : UnitOp} {ts us : List UnitToken} {a b : UnitTree} (left : Derives (o.level + 1) ts a)
      (right : Derives o.level us b) : Derives (o.level + 1) (ts ++ .op o :: us) (.op o a b)

variable {level low high depth : Nat} {ts us rest : List UnitToken} {tree a b : UnitTree}
  {t last : UnitToken} {o : UnitOp}

theorem level_lt (o : UnitOp) : o.level < loosest := by
  cases o <;> decide

theorem level_inj {o' : UnitOp} (same : o.level = o'.level) : o = o' := by
  cases o <;> cases o' <;> first | rfl | cases same

/-- What binds tightly stands wherever a looser expression may. -/
theorem Derives.looser (derives : Derives low ts tree) (le : low ≤ high) :
    Derives high ts tree := by
  induction le with
  | refl => exact derives
  | step _ ih => exact ih.tighter

/-- An expression goes on with an operator and an operand, which its last operands are grouped
with. -/
theorem Derives.exists_append (derives : Derives level ts a) (within : o.level < level)
    (operand : Derives 0 us b) : ∃ tree, Derives level (ts ++ .op o :: us) tree := by
  -- The induction goes down the right edge of the tree to the level of the operator.
  induction derives with
  | number | name | bracket => exact absurd within (Nat.not_lt_zero _)
  | @tighter level ts tree inner ih =>
    rcases Nat.lt_succ_iff_lt_or_eq.1 within with below | rfl
    · obtain ⟨tree, derives⟩ := ih below
      exact ⟨tree, derives.tighter⟩
    · exact ⟨_, .op inner.tighter (operand.looser (Nat.zero_le _))⟩
  | @op o' ts us' a' b' left right _ ihRight =>
    rcases Nat.lt_succ_iff_lt_or_eq.1 within with below | same
    · obtain ⟨tree, derives⟩ := ihRight below
      refine ⟨.op o' a' tree, ?_⟩
      simpa using left.op derives
    · obtain rfl := level_inj same
      exact ⟨_, .op (left.op right) (operand.looser (Nat.zero_le _))⟩

/-! ## Derived lists are accepted -/

/-- An operand follows: at the front, behind operators and behind opening brackets. -/
def expectsOperand : Option UnitToken → Bool
  | none | some (.op _) | some .openBracket => true
  | _ => false

variable {previous : Option UnitToken}

/-- The check behind a token that may stand where it does. It counts the brackets. -/
def checkBehind (depth : Nat) (rest : List UnitToken) : UnitToken → Except MeasureError Unit
  | .openBracket => checkFrom (some .openBracket) (depth + 1) rest
  | .closeBracket =>
    if depth = 0 then .error .missingLeftBracket
    else checkFrom (some .closeBracket) (depth - 1) rest
  | t => checkFrom (some t) depth rest

theorem checkFrom_cons (legal : mayFollow previous t = true) :
    checkFrom previous depth (t :: rest) = checkBehind depth rest t := by
  cases t <;> simp [checkFrom, legal, checkBehind]

/-- An accepted token may stand where it does. -/
theorem mayFollow_of_accepted (accepted : checkFrom previous depth (t :: rest) = .ok ()) :
    mayFollow previous t = true := by
  cases legal : mayFollow previous t with
  | true => rfl
  | false => simp [checkFrom, legal] at accepted

theorem mayFollow_of_opens (expects : expectsOperand previous = true)
    (opens : t.opensOperand = true) : mayFollow previous t = true := by
  unfold expectsOperand at expects
  split at expects <;> first | rfl | exact opens | cases expects

theorem mayFollow_last (complete : expectsOperand (some last) = false) (t : UnitToken) :
    mayFollow (some last) t = !t.opensOperand := by
  cases last <;> first | rfl | cases complete

theorem checkFrom_nil (complete : expectsOperand (some last) = false) :
    checkFrom (some last) depth [] = if 0 < depth then .error .missingRightBracket else .ok () := by
  cases last <;> first | rfl | cases complete

/-- A derived list is passed, and an operand ends it. -/
theorem Derives.passes (derives : Derives level ts tree) (previous : Option UnitToken)
    (expects : expectsOperand previous = true) (depth : Nat) (rest : List UnitToken) :
    ∃ last, expectsOperand (some last) = false ∧
      checkFrom previous depth (ts ++ rest) = checkFrom (some last) depth rest := by
  induction derives generalizing previous depth rest with
  | number text =>
    exact ⟨.number text, rfl, checkFrom_cons (mayFollow_of_opens expects rfl)⟩
  | name text =>
    exact ⟨.name text, rfl, checkFrom_cons (mayFollow_of_opens expects rfl)⟩
  | @bracket ts tree _ ih =>
    obtain ⟨last, complete, inside⟩ :=
      ih (some .openBracket) rfl (depth + 1) (.closeBracket :: rest)
    have opened : checkFrom previous depth (.openBracket :: (ts ++ .closeBracket :: rest)) =
        checkFrom (some .openBracket) (depth + 1) (ts ++ .closeBracket :: rest) :=
      checkFrom_cons (mayFollow_of_opens expects rfl)
    have closed : checkFrom (some last) (depth + 1) (.closeBracket :: rest) =
        checkFrom (some .closeBracket) depth rest :=
      checkFrom_cons (mayFollow_last complete .closeBracket)
    refine ⟨.closeBracket, rfl, ?_⟩
    rw [List.cons_append, List.append_assoc, List.singleton_append, opened, inside, closed]
  | tighter _ ih => exact ih previous expects depth rest
  | @op o ts us a b _ _ ihLeft ihRight =>
    obtain ⟨last, complete, left⟩ := ihLeft previous expects depth (.op o :: (us ++ rest))
    obtain ⟨last', complete', right⟩ := ihRight (some (.op o)) rfl depth rest
    have between : checkFrom (some last) depth (.op o :: (us ++ rest)) =
        checkFrom (some (.op o)) depth (us ++ rest) :=
      checkFrom_cons (mayFollow_last complete (.op o))
    refine ⟨last', complete', ?_⟩
    rw [List.append_assoc, List.cons_append, left, between, right]

/-- A derived list is accepted. -/
theorem Derives.check (derives : Derives level ts tree) : UnitToken.check ts = .ok () := by
  obtain ⟨last, complete, passed⟩ := derives.passes none rfl 0 []
  rw [List.append_nil] at passed
  rw [UnitToken.check, passed, checkFrom_nil complete]
  rfl

/-- A derived list begins with an operand. -/
theorem Derives.opens (derives : Derives level ts tree) :
    ∃ t rest, ts = t :: rest ∧ t.opensOperand = true := by
  induction derives with
  | number | name | bracket => exact ⟨_, _, rfl, rfl⟩
  | tighter _ ih => exact ih
  | op _ _ ih =>
    obtain ⟨t, rest, rfl, opens⟩ := ih
    exact ⟨t, _, rfl, opens⟩

/-! ## Accepted lists are derived -/

/-- The check goes on behind an operand, `depth` brackets being open, and accepts what follows. -/
def Continues (depth : Nat) (rest : List UnitToken) : Prop :=
  ∃ last, expectsOperand (some last) = false ∧ checkFrom (some last) depth rest = .ok ()

/-- What stands behind an expression: nothing, or the bracket that closes it. -/
def Closes (depth : Nat) (rest : List UnitToken) : Prop :=
  rest = [] ∧ depth = 0 ∨
    ∃ depth' rest', depth = depth' + 1 ∧ rest = .closeBracket :: rest' ∧ Continues depth' rest'

/-- Some tokens go on as an expression, up to its end. -/
def Completes (depth : Nat) (ts rest : List UnitToken) : Prop :=
  ∃ us after tree, rest = us ++ after ∧ Derives loosest (ts ++ us) tree ∧ Closes depth after

/-- A token that opens an operand is treated alike wherever an operand is expected. -/
theorem checkFrom_opens (expects : expectsOperand previous = true)
    (opens : t.opensOperand = true) :
    checkFrom previous depth (t :: rest) = checkFrom (some .openBracket) depth (t :: rest) := by
  rw [checkFrom_cons (mayFollow_of_opens expects opens),
    checkFrom_cons (mayFollow_of_opens rfl opens)]

/-- Where an operand is expected, an accepted list has one. -/
theorem opens_of_checkFrom (expects : expectsOperand (some t) = true)
    (accepted : checkFrom (some t) depth rest = .ok ()) :
    ∃ u rest', rest = u :: rest' ∧ u.opensOperand = true := by
  cases rest with
  | nil =>
    have refused : checkFrom (some t) depth [] = .error .incompleteExpression := by
      cases t <;> first | rfl | simp [expectsOperand] at expects
    rw [refused] at accepted
    cases accepted
  | cons u rest' =>
    have legal := mayFollow_of_accepted accepted
    refine ⟨u, rest', rfl, ?_⟩
    cases t <;> first | exact legal | simp [expectsOperand] at expects

/-- The operand that an accepted list begins with. What is inside of brackets is shorter. -/
theorem exists_operand
    (inside : ∀ depth, checkFrom (some .openBracket) depth rest = .ok () →
      Completes depth [] rest)
    (opens : t.opensOperand = true)
    (accepted : checkFrom (some .openBracket) depth (t :: rest) = .ok ()) :
    ∃ ts after tree, t :: rest = ts ++ after ∧ Derives 0 ts tree ∧ Continues depth after ∧
      after.length ≤ rest.length := by
  rw [checkFrom_cons (mayFollow_of_opens rfl opens)] at accepted
  cases t with
  | number text =>
    exact ⟨[.number text], rest, _, rfl, .number text, ⟨_, rfl, accepted⟩, Nat.le_refl _⟩
  | name text =>
    exact ⟨[.name text], rest, _, rfl, .name text, ⟨_, rfl, accepted⟩, Nat.le_refl _⟩
  | openBracket =>
    obtain ⟨ts, after, tree, rfl, derives, closes⟩ := inside (depth + 1) accepted
    obtain ⟨-, none⟩ | ⟨depth', after, same, rfl, continues⟩ := closes
    · cases none
    · cases same
      refine ⟨.openBracket :: (ts ++ [.closeBracket]), after, tree, by simp, .bracket derives,
        continues, ?_⟩
      simp only [List.length_append, List.length_cons]
      omega
  | op | closeBracket => cases opens

/-- Behind an operand an accepted list goes on to the end of the expression. -/
theorem completes_of_continues (derives : Derives loosest ts a) {bound : Nat}
    (inside : ∀ rest, rest.length < bound → ∀ depth,
      checkFrom (some .openBracket) depth rest = .ok () → Completes depth [] rest)
    (within : rest.length ≤ bound) (continues : Continues depth rest) :
    Completes depth ts rest := by
  -- Each operator with its operand makes the rest shorter and the expression longer.
  induction n : rest.length using Nat.strongRecOn generalizing ts a rest with
  | _ n shorter =>
    subst n
    obtain ⟨last, complete, accepted⟩ := continues
    cases rest with
    | nil =>
      rw [checkFrom_nil complete] at accepted
      split at accepted
      · cases accepted
      · next none =>
        exact ⟨[], [], a, rfl, by simpa using derives, .inl ⟨rfl, by omega⟩⟩
    | cons t rest =>
      have legal := mayFollow_of_accepted accepted
      rw [checkFrom_cons legal] at accepted
      rw [mayFollow_last complete] at legal
      rw [List.length_cons] at within
      cases t with
      | number | name | openBracket => cases legal
      | closeBracket =>
        rw [checkBehind] at accepted
        split at accepted
        · cases accepted
        · next positive =>
          refine ⟨[], _, a, rfl, by simpa using derives, .inr ⟨depth - 1, rest, by omega, rfl, ?_⟩⟩
          exact ⟨_, rfl, accepted⟩
      | op o =>
        replace accepted : checkFrom (some (.op o)) depth rest = .ok () := accepted
        obtain ⟨u, rest, rfl, opens⟩ := opens_of_checkFrom rfl accepted
        rw [List.length_cons] at within
        rw [checkFrom_opens rfl opens] at accepted
        obtain ⟨us, after, b, same, operand, continues, le⟩ :=
          exists_operand (inside rest (by omega)) opens accepted
        obtain ⟨tree, longer⟩ := derives.exists_append (level_lt o) operand
        obtain ⟨us', after', tree', rfl, whole, closes⟩ :=
          shorter after.length (by simp only [List.length_cons]; omega) longer (by omega)
            continues rfl
        refine ⟨.op o :: (us ++ us'), after', tree', ?_, by simpa using whole, closes⟩
        rw [same]
        simp

/-- An accepted list that begins with an operand begins with an expression. -/
theorem completes_of_checkFrom (rest : List UnitToken) (depth : Nat)
    (accepted : checkFrom (some .openBracket) depth rest = .ok ()) : Completes depth [] rest := by
  induction n : rest.length using Nat.strongRecOn generalizing rest depth with
  | _ n shorter =>
    subst n
    have inside : ∀ rest', rest'.length < rest.length → ∀ depth,
        checkFrom (some .openBracket) depth rest' = .ok () → Completes depth [] rest' :=
      fun rest' less depth accepted => shorter _ less rest' depth accepted rfl
    obtain ⟨t, rest, rfl, opens⟩ := opens_of_checkFrom rfl accepted
    obtain ⟨ts, after, a, same, operand, continues, le⟩ :=
      exists_operand (inside rest (Nat.lt_succ_self _)) opens accepted
    obtain ⟨us, after', tree, rfl, derives, closes⟩ :=
      completes_of_continues (operand.looser (Nat.zero_le _)) inside (Nat.le_succ_of_le le) continues
    exact ⟨ts ++ us, after', tree, by simp [same], derives, closes⟩

/-- An accepted list that begins with an operand is an expression. -/
theorem exists_derives (opens : t.opensOperand = true) (accepted : check (t :: rest) = .ok ()) :
    ∃ tree, Derives loosest (t :: rest) tree := by
  rw [check, checkFrom_opens rfl opens] at accepted
  obtain ⟨ts, after, tree, same, derives, ⟨rfl, -⟩ | ⟨depth, -, none, -⟩⟩ :=
    completes_of_checkFrom _ _ accepted
  · rw [List.append_nil] at same
    rw [same]
    exact ⟨tree, derives⟩
  · cases none

end UnitTree

end UnitCalc

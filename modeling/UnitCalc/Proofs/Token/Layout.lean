/-
# The layout of token lists

A list of tokens is read from left to right: operands alternate with what continues them, and
brackets enclose lists of their own. The layout of a list says so, whatever number of arguments
its calls have, and keeps two counts: the separators between the brackets that enclose the
list, and by how many separators the brackets inside exceed what their calls need.

## Main definitions

* `Token.Layout` relates a list to both counts and to the list with the argument counts that
  checking stores.
* `Token.depthAfter`, `Token.Chained` and `Token.CallsOpen` are what a list needs to have one.

## Main results

* `Layout.append`: a continuation extends a list.
* `exists_layout`: a balanced list of legal neighbours has a layout.
-/

import UnitCalc.Token.Legality

namespace UnitCalc

namespace Token

/-- What a list of tokens begins with: an operand, or what continues the one before it. -/
inductive Expected where
  | operand
  | continuation

/-- The separators that a call needs, which does not take any number of arguments. -/
def separators? : Token → Option Nat
  | function _ => some 0
  | binaryFunction _ => some 1
  | conditional => some 2
  | call _ _ count => some (count - 1)
  | _ => none

/-- The token is the name of a function, which a bracket follows. -/
def isCall : Token → Bool
  | function _ | binaryFunction _ | multiFunction _ _ | conditional | call _ _ _ => true
  | _ => false

/-- The token is a bracket. -/
def isBracket : Token → Bool
  | openBracket | closeBracket => true
  | _ => false

/-- Every token of a list may follow the one before it, the first one `previous`. -/
def Chained (previous : Option Token) : List Token → Prop
  | [] => True
  | t :: rest => t.mayFollow previous = true ∧ Chained (some t) rest

/-- The open brackets behind a list, unless it closes one that is not open. -/
def depthAfter (depth : Nat) : List Token → Option Nat
  | [] => some depth
  | .openBracket :: rest => depthAfter (depth + 1) rest
  | .closeBracket :: rest => match depth with
    | 0 => none
    | outer + 1 => depthAfter outer rest
  | _ :: rest => depthAfter depth rest

theorem depthAfter_cons {t : Token} (plain : t.isBracket = false) (depth : Nat)
    (rest : List Token) : depthAfter depth (t :: rest) = depthAfter depth rest := by
  cases t <;> first | rfl | simp [isBracket] at plain

theorem getLast?_cons_or (t : Token) (ts : List Token) (previous : Option Token) :
    (t :: ts).getLast?.or previous = ts.getLast?.or (some t) := by
  rw [List.getLast?_cons]
  cases ts.getLast? <;> rfl

theorem chained_append {previous : Option Token} {ts rest : List Token} :
    Chained previous (ts ++ rest) ↔
      Chained previous ts ∧ Chained (ts.getLast?.or previous) rest := by
  induction ts generalizing previous with
  | nil => simp [Chained]
  | cons t ts ih =>
    rw [List.cons_append, Chained, Chained, ih, getLast?_cons_or, and_assoc]

theorem depthAfter_append (depth : Nat) (ts rest : List Token) :
    depthAfter depth (ts ++ rest) = (depthAfter depth ts).bind fun d => depthAfter d rest := by
  induction ts generalizing depth with
  | nil => rfl
  | cons t ts ih =>
    cases t <;> try exact ih _
    cases depth with
    | zero => rfl
    | succ outer => exact ih outer

/-- A list that begins so may stand behind a token. -/
def Expected.follows (next : Expected) (previous : Option Token) : Bool :=
  match next, previous.map classBefore with
  | .operand, none | .operand, some .operator | .operand, some .openBracket
  | .operand, some .separator => true
  | .continuation, some .value | .continuation, some .closeBracket => true
  | _, _ => false

/-- The classes of tokens that such a list begins with, or that may follow it at once. -/
def Expected.begins : Expected → Class → Bool
  | .operand, .value | .operand, .function | .operand, .openBracket => true
  | .continuation, .operator | .continuation, .closeBracket | .continuation, .separator => true
  | _, _ => false

theorem Expected.mayFollow_of_begins {next : Expected} {t : Token} {previous : Option Token}
    (fits : next.follows previous = true) (begins : next.begins t.classAfter = true) :
    t.mayFollow previous = true := by
  cases previous with
  | none => rfl
  | some p =>
    simp only [follows, Option.map_some] at fits
    simp only [mayFollow]
    cases next <;> revert fits begins <;> cases p.classBefore <;> cases t.classAfter <;> decide

/-- Behind a token that decides what is expected, the table of neighbours agrees with it. -/
theorem Expected.begins_of_mayFollow {next : Expected} {t p : Token}
    (fits : next.follows (some p) = true) (visible : t.kind ≠ .start)
    (follows : t.mayFollow (some p) = true) : next.begins t.classAfter = true := by
  have visible' : t.classAfter ≠ .start := by
    cases t <;> simp_all [classAfter, kind]
  simp only [Expected.follows, Option.map_some] at fits
  simp only [mayFollow] at follows
  cases next <;> revert fits follows visible' <;> cases p.classBefore <;> cases t.classAfter <;>
    decide

/-- A list is a chain behind a token, and it ends where a continuation may follow. -/
def Closes (previous : Option Token) (ts : List Token) : Prop :=
  Chained previous ts ∧ Expected.continuation.follows (ts.getLast?.or previous) = true

theorem Closes.cons {t : Token} {previous : Option Token} {ts : List Token}
    (rest : Closes (some t) ts) (follows : t.mayFollow previous = true) :
    Closes previous (t :: ts) := by
  refine ⟨⟨follows, rest.1⟩, ?_⟩
  rw [getLast?_cons_or]
  exact rest.2

theorem Closes.bracket {previous : Option Token} {inside ts : List Token}
    (body : Closes previous inside) (rest : Closes (some .closeBracket) ts) :
    Closes previous (inside ++ .closeBracket :: ts) := by
  have follows := Expected.mayFollow_of_begins (t := .closeBracket) body.2 rfl
  refine ⟨chained_append.2 ⟨body.1, follows, rest.1⟩, ?_⟩
  have last : (inside ++ closeBracket :: ts).getLast?.or previous =
      ts.getLast?.or (some .closeBracket) := by
    simp [List.getLast?_append, List.getLast?_cons]
  rw [last]
  exact rest.2

/-- The layout of a list: what it begins with, the separators outside of its brackets, the
excess of separators inside of them, the list, and the list with its counts stored. A call of
a function of many arguments takes the excess inside of its bracket for arguments. -/
inductive Layout : Expected → Nat → Int → List Token → List Token → Prop
  | done : Layout .continuation 0 0 [] []
  | operand {t : Token} {n : Nat} {e : Int} {ts us : List Token} (value : t.kind = .value)
      (rest : Layout .continuation n e ts us) : Layout .operand n e (t :: ts) (t :: us)
  | negation {order : Int} {n : Nat} {e : Int} {ts us : List Token}
      (rest : Layout .operand n e ts us) :
      Layout .operand n e (.negation order :: ts) (.negation order :: us)
  | bracket {n m : Nat} {e i : Int} {inside inside' ts us : List Token}
      (body : Layout .operand m i inside inside') (rest : Layout .continuation n e ts us) :
      Layout .operand n (i + m + e) (.openBracket :: (inside ++ .closeBracket :: ts))
        (.openBracket :: (inside' ++ .closeBracket :: us))
  | call {t : Token} {n m k : Nat} {e i : Int} {inside inside' ts us : List Token}
      (needs : t.separators? = some k) (body : Layout .operand m i inside inside')
      (rest : Layout .continuation n e ts us) :
      Layout .operand n (i + m - k + e) (t :: .openBracket :: (inside ++ .closeBracket :: ts))
        (t :: .openBracket :: (inside' ++ .closeBracket :: us))
  | manyCall {name : String} {count n m : Nat} {e i : Int} {inside inside' ts us : List Token}
      (body : Layout .operand m i inside inside') (rest : Layout .continuation n e ts us) :
      Layout .operand n e
        (.multiFunction name count :: .openBracket :: (inside ++ .closeBracket :: ts))
        (.multiFunction name (Legality.storedCount (i + m + 1)) :: .openBracket ::
          (inside' ++ .closeBracket :: us))
  | factorial {n : Nat} {e : Int} {ts us : List Token} (rest : Layout .continuation n e ts us) :
      Layout .continuation n e (.factorial :: ts) (.factorial :: us)
  | operator {symbol : Char} {order : Int} {n : Nat} {e : Int} {ts us : List Token}
      (rest : Layout .operand n e ts us) :
      Layout .continuation n e (.operator symbol order :: ts) (.operator symbol order :: us)
  | separator {n : Nat} {e : Int} {ts us : List Token} (rest : Layout .operand n e ts us) :
      Layout .continuation (n + 1) e (.separator :: ts) (.separator :: us)

namespace Layout

variable {next : Expected} {n m : Nat} {e i : Int} {ts us vs ws : List Token}

/-- A continuation extends a list that has no separators of its own. -/
theorem append (first : Layout next 0 i ts us) (second : Layout .continuation n e vs ws) :
    Layout next n (i + e) (ts ++ vs) (us ++ ws) := by
  generalize zero : (0 : Nat) = k at first
  induction first with
  | done => simpa using second
  | operand value _ ih => exact .operand value (ih zero)
  | negation _ ih => exact .negation (ih zero)
  | bracket body _ _ ih =>
    simpa [Int.add_assoc] using Layout.bracket body (ih zero)
  | call needs body _ _ ih =>
    simpa [Int.add_assoc] using Layout.call needs body (ih zero)
  | manyCall body _ _ ih => simpa using Layout.manyCall body (ih zero)
  | factorial _ ih => exact .factorial (ih zero)
  | operator _ ih => exact .operator (ih zero)
  | separator => simp at zero

/-- Brackets are balanced in a layout. -/
theorem depthAfter_eq (layout : Layout next n e ts us) (depth : Nat) :
    depthAfter depth ts = some depth := by
  induction layout generalizing depth with
  | done => rfl
  | @operand t _ _ _ _ value _ ih => cases t <;> first | exact ih depth | cases value
  | negation _ ih | factorial _ ih | operator _ ih | separator _ ih => exact ih depth
  | bracket _ _ ihBody ihRest =>
    simp [depthAfter, depthAfter_append, ihBody, ihRest]
  | @call t _ _ _ _ _ _ _ _ _ needs _ _ ihBody ihRest =>
    have opens (rest : List Token) :
        depthAfter depth (t :: .openBracket :: rest) = depthAfter (depth + 1) rest := by
      cases t <;> first | rfl | cases needs
    simp [opens, depthAfter, depthAfter_append, ihBody, ihRest]
  | manyCall _ _ ihBody ihRest =>
    simp [depthAfter, depthAfter_append, ihBody, ihRest]

/-- The neighbours in a layout are legal, and it ends where a continuation may follow. -/
theorem closes (layout : Layout next n e ts us) {previous : Option Token}
    (fits : next.follows previous = true) : Closes previous ts := by
  induction layout generalizing previous with
  | done => exact ⟨trivial, fits⟩
  | @operand t _ _ _ _ value _ ih =>
    have before : t.classBefore = .value := by cases t <;> first | rfl | cases value
    have after : t.classAfter = .value := by cases t <;> first | rfl | cases value
    exact (ih (by simp [Expected.follows, before])).cons
      (Expected.mayFollow_of_begins fits (by rw [after]; rfl))
  | negation _ ih | factorial _ ih | operator _ ih | separator _ ih =>
    exact (ih rfl).cons (Expected.mayFollow_of_begins fits rfl)
  | bracket _ _ ihBody ihRest =>
    exact ((ihBody rfl).bracket (ihRest rfl)).cons (Expected.mayFollow_of_begins fits rfl)
  | @call t _ _ _ _ _ _ _ _ _ needs _ _ ihBody ihRest =>
    have after : t.classAfter = .function := by cases t <;> first | rfl | cases needs
    have opens : Token.openBracket.mayFollow (some t) = true := by
      cases t <;> first | rfl | cases needs
    exact (((ihBody rfl).bracket (ihRest rfl)).cons opens).cons
      (Expected.mayFollow_of_begins fits (by rw [after]; rfl))
  | manyCall _ _ ihBody ihRest =>
    exact (((ihBody rfl).bracket (ihRest rfl)).cons rfl).cons
      (Expected.mayFollow_of_begins fits rfl)

/-- A list with its counts stored has the same layout. -/
theorem counted (layout : Layout next n e ts us) : Layout next n e us us := by
  induction layout with
  | done => exact .done
  | operand value _ ih => exact .operand value ih
  | negation _ ih => exact .negation ih
  | bracket _ _ ihBody ihRest => exact .bracket ihBody ihRest
  | call needs _ _ ihBody ihRest => exact .call needs ihBody ihRest
  | manyCall _ _ ihBody ihRest => exact .manyCall ihBody ihRest
  | factorial _ ih => exact .factorial ih
  | operator _ ih => exact .operator ih
  | separator _ ih => exact .separator ih

end Layout

/-- A bracket follows every name of a function. -/
def CallsOpen : List Token → Prop
  | [] => True
  | t :: rest => (t.isCall = true → rest.head? = some .openBracket) ∧ CallsOpen rest

/-- What a list needs to have a layout. -/
structure Regular (next : Expected) (ts : List Token) : Prop where
  nonempty : next = .operand → ts ≠ []
  begins : ∀ t ∈ ts.head?, next.begins t.classAfter = true
  ends : ∀ t ∈ ts.getLast?, Expected.continuation.follows (some t) = true
  chained : Chained none ts
  opens : CallsOpen ts
  visible : ∀ t ∈ ts, t.kind ≠ .start
  balanced : depthAfter 0 ts = some 0

/-- The rest of a list behind the bracket that closes the innermost one of `inner + 1`. -/
theorem exists_close {depth final : Nat} {rest : List Token} (inner : Nat)
    (closed : depthAfter (depth + 1 + inner) rest = some final) (le : final ≤ depth) :
    ∃ inside after, rest = inside ++ .closeBracket :: after ∧
      depthAfter inner inside = some 0 ∧ depthAfter depth after = some final := by
  induction rest generalizing inner with
  | nil =>
    have same := Option.some.inj closed
    omega
  | cons t rest ih =>
    by_cases plain : t.isBracket = false
    · rw [depthAfter_cons plain] at closed
      obtain ⟨inside, after, rfl, balanced, behind⟩ := ih inner closed
      exact ⟨t :: inside, after, rfl, by rwa [depthAfter_cons plain], behind⟩
    · cases t <;> simp [isBracket] at plain
      case openBracket =>
        obtain ⟨inside, after, rfl, balanced, behind⟩ := ih (inner + 1) closed
        exact ⟨.openBracket :: inside, after, rfl, balanced, behind⟩
      case closeBracket =>
        cases inner with
        | zero => exact ⟨[], rest, rfl, rfl, closed⟩
        | succ inner =>
          obtain ⟨inside, after, rfl, balanced, behind⟩ := ih inner closed
          exact ⟨.closeBracket :: inside, after, rfl, balanced, behind⟩

theorem Chained.of_some {previous : Option Token} {ts : List Token}
    (chained : Chained previous ts) : Chained none ts := by
  cases ts with
  | nil => trivial
  | cons t ts => exact ⟨rfl, chained.2⟩

theorem CallsOpen.split {inside after : List Token}
    (opens : CallsOpen (inside ++ .closeBracket :: after)) : CallsOpen inside ∧ CallsOpen after := by
  induction inside with
  | nil => exact ⟨trivial, opens.2⟩
  | cons t inside ih =>
    obtain ⟨first, second⟩ := ih opens.2
    refine ⟨⟨fun call => ?_, first⟩, second⟩
    have bracket := opens.1 call
    cases inside with
    | nil => simp at bracket
    | cons u inside => simpa using bracket

namespace Regular

variable {next next' : Expected} {t : Token} {rest inside after : List Token}

/-- What is left of a list that is a chain behind a token is regular. -/
theorem of_chained (fits : next.follows (some t) = true) (nonempty : next = .operand → rest ≠ [])
    (chained : Chained (some t) rest) (opens : CallsOpen rest)
    (visible : ∀ t ∈ rest, t.kind ≠ .start) (balanced : depthAfter 0 rest = some 0)
    (ends : ∀ t ∈ rest.getLast?, Expected.continuation.follows (some t) = true) :
    Regular next rest where
  nonempty := nonempty
  begins := by
    cases rest with
    | nil => simp
    | cons u rest =>
      rintro _ ⟨⟩
      exact Expected.begins_of_mayFollow fits (visible u List.mem_cons_self) chained.1
  ends := ends
  chained := chained.of_some
  opens := opens
  visible := visible
  balanced := balanced

/-- The rest of a regular list behind a token that is no bracket. -/
theorem tail (regular : Regular next (t :: rest)) (plain : t.isBracket = false)
    (fits : next'.follows (some t) = true) : Regular next' rest := by
  refine of_chained fits (fun operand empty => ?_) regular.chained.2 regular.opens.2
    (fun u within => regular.visible u (List.mem_cons_of_mem t within)) ?_ fun u last => ?_
  · -- an operand is missing behind the last token
    subst operand empty
    have ends := regular.ends t rfl
    revert fits ends
    simp only [Expected.follows, Option.map_some]
    cases t.classBefore <;> simp
  · rw [← depthAfter_cons plain]
    exact regular.balanced
  · refine regular.ends u ?_
    rw [Option.mem_def] at last ⊢
    rw [List.getLast?_cons, last]
    rfl

/-- The bracket behind the name of a function. -/
theorem behindCall (regular : Regular next (t :: .openBracket :: rest))
    (plain : t.isBracket = false) : Regular .operand (.openBracket :: rest) where
  nonempty := by simp
  begins := by simp [Expected.begins, classAfter, kind]
  ends u last := regular.ends u (by simpa [List.getLast?_cons] using last)
  chained := regular.chained.2.of_some
  opens := regular.opens.2
  visible u within := regular.visible u (List.mem_cons_of_mem t within)
  balanced := by
    rw [← depthAfter_cons plain]
    exact regular.balanced

/-- A regular list with a bracket at its front consists of two regular ones. -/
theorem split (regular : Regular next (.openBracket :: rest)) :
    ∃ inside after, rest = inside ++ .closeBracket :: after ∧ Regular .operand inside ∧
      Regular .continuation after := by
  obtain ⟨inside, after, rfl, balanced, behind⟩ := exists_close 0 regular.balanced (Nat.le_refl 0)
  obtain ⟨chained, close, chained'⟩ := chained_append.1 regular.chained.2
  obtain ⟨opens, opens'⟩ := regular.opens.2.split
  have visible (t : Token) (within : t ∈ inside ++ .closeBracket :: after) :=
    regular.visible t (List.mem_cons_of_mem _ within)
  refine ⟨inside, after, rfl, ?_, ?_⟩
  · refine of_chained rfl (fun _ empty => ?_) chained opens
      (fun t within => visible t (List.mem_append_left _ within)) balanced fun t last => ?_
    · subst empty
      exact absurd close (by decide)
    · rw [Option.mem_def.1 last] at close
      have shown := visible t (List.mem_append_left _ (List.mem_of_getLast? last))
      revert close shown
      cases t <;> simp [mayFollow, Class.mayFollow, classAfter, classBefore, kind, Expected.follows]
  · refine of_chained rfl (by simp) chained' opens'
      (fun t within => visible t (by simp [within])) behind fun t last => ?_
    refine regular.ends t ?_
    rw [Option.mem_def] at last ⊢
    simp [List.getLast?_cons, List.getLast?_append, last]

end Regular

/-- A regular list has a layout. -/
theorem exists_layout (next : Expected) (ts : List Token) (regular : Regular next ts) :
    ∃ n e us, Layout next n e ts us := by
  -- The recursion is on the length: a bracket is split at its end into what is inside and what
  -- comes behind, and both parts are regular.
  match ts, next with
  | [], .operand => exact absurd rfl (regular.nonempty rfl)
  | [], .continuation => exact ⟨0, 0, [], .done⟩
  | t :: rest, .operand =>
    have begins := regular.begins t rfl
    cases t with
    | constant | «variable» | unit | input | block =>
      obtain ⟨n, e, us, layout⟩ := exists_layout .continuation rest (regular.tail rfl rfl)
      exact ⟨n, e, _, .operand rfl layout⟩
    | negation order =>
      obtain ⟨n, e, us, layout⟩ := exists_layout .operand rest (regular.tail rfl rfl)
      exact ⟨n, e, _, .negation layout⟩
    | openBracket =>
      obtain ⟨inside, after, rfl, body, behind⟩ := regular.split
      obtain ⟨m, i, _, layout⟩ := exists_layout .operand inside body
      obtain ⟨n, e, _, layout'⟩ := exists_layout .continuation after behind
      exact ⟨n, i + m + e, _, .bracket layout layout'⟩
    | function | binaryFunction | conditional | call =>
      obtain ⟨rest, rfl⟩ := List.head?_eq_some_iff.1 (regular.opens.1 rfl)
      obtain ⟨inside, after, rfl, body, behind⟩ := (regular.behindCall rfl).split
      obtain ⟨m, i, _, layout⟩ := exists_layout .operand inside body
      obtain ⟨n, e, _, layout'⟩ := exists_layout .continuation after behind
      exact ⟨n, _, _, .call rfl layout layout'⟩
    | multiFunction =>
      obtain ⟨rest, rfl⟩ := List.head?_eq_some_iff.1 (regular.opens.1 rfl)
      obtain ⟨inside, after, rfl, body, behind⟩ := (regular.behindCall rfl).split
      obtain ⟨m, i, _, layout⟩ := exists_layout .operand inside body
      obtain ⟨n, e, _, layout'⟩ := exists_layout .continuation after behind
      exact ⟨n, e, _, .manyCall layout layout'⟩
    | _ => simp [Expected.begins, classAfter, kind] at begins
  | t :: rest, .continuation =>
    have begins := regular.begins t rfl
    cases t with
    | factorial =>
      obtain ⟨n, e, us, layout⟩ := exists_layout .continuation rest (regular.tail rfl rfl)
      exact ⟨n, e, _, .factorial layout⟩
    | operator symbol order =>
      obtain ⟨n, e, us, layout⟩ := exists_layout .operand rest (regular.tail rfl rfl)
      exact ⟨n, e, _, .operator layout⟩
    | separator =>
      obtain ⟨n, e, us, layout⟩ := exists_layout .operand rest (regular.tail rfl rfl)
      exact ⟨n + 1, e, _, .separator layout⟩
    | closeBracket => exact absurd regular.balanced (by simp [depthAfter])
    | _ => simp [Expected.begins, classAfter, kind] at begins
termination_by ts.length
decreasing_by all_goals simp_all <;> omega

end Token

end UnitCalc

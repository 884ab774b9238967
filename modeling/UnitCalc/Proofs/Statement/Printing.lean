/-
# Texts that are read back

The text of an expression without units is read back into its program. The precedences of texts are
the levels of the grammar, so an operand stands in brackets where the grammar asks for them, and the
characters of a text are read into the tokens that the grammar derives the program from.

## Main definitions

* `Grammar.Level.ofPrecedence`: the level of the texts of a precedence.
* `Session.Prints`: a text is read into a program of a level.

## Main results

* `Postfix.Tree.prints`: so is the text of a tree.
* `Postfix.Tree.parse_render`: printing an expression is inverted by parsing.
-/

import UnitCalc.Proofs.Postfix.Precedence
import UnitCalc.Proofs.Postfix.Tree
import UnitCalc.Proofs.Session.Expressions

namespace UnitCalc

open Postfix (Shown Tree Trees bracketed)
open SessionM
open Scan (Lexes)

namespace Grammar

variable {level : Level} {ts us program : List Token} {t : Token} {k n m : Nat}

/-- The level of the texts of a precedence. -/
def Level.ofPrecedence (n : Nat) : Level :=
  if 22 ≤ n then .atom
  else if n = 21 then .factor
  else if n = 20 then .power
  else if 17 ≤ n then .signed
  else .binary (16 - n)

theorem Level.ofPrecedence_binary (le : k ≤ 16) : ofPrecedence (16 - k) = .binary k := by
  unfold ofPrecedence
  rw [if_neg (by omega), if_neg (by omega), if_neg (by omega), if_neg (by omega),
    Nat.sub_sub_self le]

theorem Level.ofPrecedence_below (le : k ≤ 16) : ofPrecedence (17 - k) = below k := by
  cases k with
  | zero => rfl
  | succ k =>
    rw [show 17 - (k + 1) = 16 - k by omega, ofPrecedence_binary (Nat.le_of_succ_le le)]
    rfl

/-- What binds tighter is an expression of the next looser level, too. -/
theorem Derives.looser (derives : Derives (.ofPrecedence (n + 1)) ts us program) :
    Derives (.ofPrecedence n) ts us program := by
  -- Below the powers the levels are those of binary operators, above they are spelled out.
  by_cases loose : n ≤ 16
  · obtain ⟨k, le, rfl⟩ : ∃ k ≤ 16, n = 16 - k := ⟨16 - n, by omega, by omega⟩
    rw [show 16 - k + 1 = 17 - k by omega, Level.ofPrecedence_below le] at derives
    rw [Level.ofPrecedence_binary le]
    exact .tighter derives
  · rcases (by omega : 22 ≤ n ∨ n = 21 ∨ n = 20 ∨ n = 19 ∨ n = 18 ∨ n = 17) with
      tight | rfl | rfl | rfl | rfl | rfl
    · rw [Level.ofPrecedence, if_pos tight]
      rwa [Level.ofPrecedence, if_pos (Nat.le_succ_of_le tight)] at derives
    · exact .atom derives
    · exact .factor derives
    · exact .unsigned derives
    · exact derives
    · exact derives

/-- A derived list ends with a token that ends an operand. Only a factor ends with a factorial. -/
theorem Derives.exists_last (derives : Derives level ts us program) :
    ∃ t, ts.getLast? = some t ∧ t.endsOperand = true ∧ (level = .atom → t ≠ .factorial) := by
  induction derives with
  | constant | name => exact ⟨_, rfl, rfl, fun _ => nofun⟩
  | bracket | call => exact ⟨.closeBracket, by simp [List.getLast?_cons], rfl, fun _ => nofun⟩
  | argument _ ih | atom _ ih | factor _ ih | unsigned _ ih | tighter _ ih =>
    obtain ⟨t, last, ends, -⟩ := ih
    exact ⟨t, last, ends, nofun⟩
  | factorial => exact ⟨.factorial, by simp, rfl, nofun⟩
  | negation _ ih =>
    obtain ⟨t, last, ends, -⟩ := ih
    exact ⟨t, by simp [List.getLast?_cons, last], ends, nofun⟩
  | arguments _ _ _ ih | power _ _ _ ih | binary _ _ _ _ ih =>
    obtain ⟨t, last, ends, -⟩ := ih
    exact ⟨t, by simp [List.getLast?_cons, last], ends, nofun⟩

/-- The precedence of the texts of a level of binary operators. -/
theorem precedence_of_symbolsOf {symbol : Char} (known : symbol ∈ symbolsOf k) :
    (Token.ofSymbol symbol).precedence = (16 - k, .left) ∧ k ≤ 5 ∧
      symbol ∈ Scan.expressionSymbols := by
  rcases k with _ | _ | _ | _ | _ | _ | k <;>
    simp only [symbolsOf, binarySymbols, List.getD_cons_zero, List.getD_cons_succ, List.getD_nil,
      List.mem_cons, List.not_mem_nil, or_false] at known
  case zero => rcases known with rfl | rfl | rfl | rfl | rfl <;> exact ⟨rfl, by decide, by decide⟩
  case succ.zero => subst known; exact ⟨rfl, by decide, by decide⟩
  case succ.succ.zero => subst known; exact ⟨rfl, by decide, by decide⟩
  case succ.succ.succ.zero =>
    rcases known with rfl | rfl | rfl | rfl | rfl | rfl <;> exact ⟨rfl, by decide, by decide⟩
  case succ.succ.succ.succ.zero => subst known; exact ⟨rfl, by decide, by decide⟩
  case succ.succ.succ.succ.succ.zero =>
    rcases known with rfl | rfl <;> exact ⟨rfl, by decide, by decide⟩

/-- An operator that does not assign is the power or belongs to a level of binary operators. -/
theorem symbol_cases {symbol : Char} (known : isOperatorSymbol symbol = true)
    (other : symbol ≠ '=') : symbol = '^' ∨ ∃ k, symbol ∈ symbolsOf k := by
  obtain ⟨o, found⟩ := Option.isSome_iff_exists.1 known
  unfold Operator.ofSymbol? at found
  split at found
  · next obelus =>
    obtain rfl := beq_iff_eq.1 obelus
    exact .inr ⟨0, by decide⟩
  · have same := List.find?_some found
    obtain rfl := beq_iff_eq.1 same
    cases o with
    | power => exact .inl rfl
    | divide | intDivide | modulo | multiply => exact .inr ⟨0, by decide⟩
    | subtract => exact .inr ⟨1, by decide⟩
    | add => exact .inr ⟨2, by decide⟩
    | less | greater | lessOrEqual | greaterOrEqual | equal | notEqual => exact .inr ⟨3, by decide⟩
    | and => exact .inr ⟨4, by decide⟩
    | or | exclusiveOr => exact .inr ⟨5, by decide⟩
    | assign => exact absurd rfl other

end Grammar

open Grammar (Level Derives)

/-! ## Texts of a level -/

/-- A text consists of ordinary characters that are read into tokens, and the grammar derives a
program of a level from these. No unit is found for any of them. -/
structure Session.Prints (s : Session) (level : Level) (text : String) (program : List Token) :
    Prop where
  ordinary : ∀ c ∈ text.toList, Text.isOrdinary c = true
  reads : ∃ ts us, Lexes s text.toList ts ∧ Derives level ts us program ∧
    ∀ t ∈ us, ∀ find, Grammar.UnitFree s.isAssigned find t

namespace Session.Prints

variable {s : Session} {level : Level} {text text' : String} {program program' : List Token}
  {n m k : Nat} {a : Shown}

theorem looser (prints : s.Prints (.ofPrecedence n) text program) (le : m ≤ n) :
    s.Prints (.ofPrecedence m) text program := by
  induction le with
  | refl => exact prints
  | step _ ih =>
    obtain ⟨ordinary, ts, us, lexes, derives, free⟩ := prints
    exact ih ⟨ordinary, ts, us, lexes, derives.looser, free⟩

/-- An atom may stand wherever an operand stands. -/
theorem of_atom (prints : s.Prints .atom text program) (n : Nat) :
    s.Prints (.ofPrecedence n) text program := by
  have atom : Level.ofPrecedence (max n 22) = .atom := if_pos (Nat.le_max_right n 22)
  rw [← atom] at prints
  exact prints.looser (Nat.le_max_left n 22)

/-- An expression between brackets is an atom. -/
theorem bracketed (prints : s.Prints .expression text program) :
    s.Prints .atom (bracketed text) program := by
  obtain ⟨ordinary, ts, us, lexes, derives, free⟩ := prints
  have chars : (Postfix.bracketed text).toList = '(' :: (text.toList ++ [')']) := by
    simp [Postfix.bracketed]
  refine ⟨?_, _, _, chars ▸ lexes.bracket, .bracket derives, ?_⟩
  · rw [chars]
    simpa [or_imp, forall_and] using ⟨by decide, ordinary, by decide⟩
  · simpa [or_imp, forall_and, Grammar.UnitFree] using free

/-- The text of an operand, in brackets where it binds too loosely. -/
theorem within (prints : s.Prints (.ofPrecedence a.level) a.text program) (loose : 11 ≤ a.level)
    {needsBrackets : Bool} (tight : needsBrackets = false → n ≤ a.level) :
    s.Prints (.ofPrecedence n) (a.within needsBrackets) program := by
  cases needsBrackets with
  | false => exact prints.looser (tight rfl)
  | true => exact (prints.looser loose).bracketed.of_atom n

theorem number {digits : String} {value : Float} (read : Scalar.read digits = some value)
    (written : digits.toList ≠ []) (areDigits : ∀ c ∈ digits.toList, Scan.isNumberChar c = true) :
    s.Prints .atom digits [.constant (some (.real value)) digits] where
  ordinary c within := Text.isOrdinary_of_class (areDigits c within) (by decide)
  reads := ⟨_, _, Scan.lexes_number read areDigits written, .constant _ _,
    by simp [Grammar.UnitFree]⟩

theorem name {name : String} {cell : CellId} (isName : Scan.isName name = true)
    (known : s.cellNames.lookup name = some cell) (assigned : s.isAssigned cell = true) :
    s.Prints .atom name [.variable (some cell) name] where
  ordinary c within := Scan.isOrdinary_of_isWordChar (Scan.isWordChar_of_isName isName c within)
  reads := ⟨_, _, Scan.lexes_variable isName known, .name _ _, by simp [Grammar.UnitFree, assigned]⟩

theorem negation (prints : s.Prints (.ofPrecedence 19) text program) :
    s.Prints (.ofPrecedence 19) ("-" ++ text)
      (program ++ [(Token.negation Token.unordered).ordered]) := by
  obtain ⟨ordinary, ts, us, lexes, derives, free⟩ := prints
  have chars : ("-" ++ text).toList = '-' :: text.toList := by simp
  refine ⟨?_, _, _, chars ▸ lexes.negation, .negation derives, ?_⟩
  · rw [chars, List.forall_mem_cons]
    exact ⟨by decide, ordinary⟩
  · rw [List.forall_mem_cons]
    exact ⟨fun _ => trivial, free⟩

theorem factorial (prints : s.Prints .atom text program) :
    s.Prints (.ofPrecedence 21) (text ++ "!") (program ++ [.factorial]) := by
  obtain ⟨ordinary, ts, us, lexes, derives, free⟩ := prints
  obtain ⟨t, last, ends, other⟩ := derives.exists_last
  have chars : (text ++ "!").toList = text.toList ++ ['!'] := by simp
  refine ⟨?_, _, _, chars ▸ lexes.factorial last ends (other rfl), .factorial derives, ?_⟩
  · rw [chars, List.forall_mem_append]
    exact ⟨ordinary, by decide⟩
  · rw [List.forall_mem_append]
    exact ⟨free, by simp [Grammar.UnitFree]⟩

theorem power (base : s.Prints (.ofPrecedence 21) text program)
    (exponent : s.Prints (.ofPrecedence 20) text' program') :
    s.Prints (.ofPrecedence 20) (text ++ "^" ++ text')
      (program ++ program' ++ [(Token.ofSymbol '^').ordered]) := by
  obtain ⟨ordinary, ts, us, lexes, derives, free⟩ := base
  obtain ⟨ordinary', ts', us', lexes', derives', free'⟩ := exponent.looser (Nat.le_succ 19)
  obtain ⟨t, last, ends, -⟩ := derives.exists_last
  have chars : (text ++ "^" ++ text').toList = text.toList ++ '^' :: text'.toList := by simp
  refine ⟨?_, _, _, chars ▸ lexes.power lexes' last ends, .power derives derives', ?_⟩
  · rw [chars, List.forall_mem_append, List.forall_mem_cons]
    exact ⟨ordinary, by decide, ordinary'⟩
  · rw [List.forall_mem_append, List.forall_mem_cons]
    exact ⟨free, fun _ => trivial, free'⟩

theorem binary {symbol : Char} (known : symbol ∈ Grammar.symbolsOf k)
    (left : s.Prints (.ofPrecedence (16 - k)) text program)
    (right : s.Prints (.ofPrecedence (17 - k)) text' program') :
    s.Prints (.ofPrecedence (16 - k)) (text ++ " " ++ String.singleton symbol ++ " " ++ text')
      (program ++ program' ++ [(Token.ofSymbol symbol).ordered]) := by
  obtain ⟨-, le, written⟩ := Grammar.precedence_of_symbolsOf known
  have loose : k ≤ 16 := Nat.le_trans le (by decide)
  rw [Level.ofPrecedence_binary loose] at left ⊢
  rw [Level.ofPrecedence_below loose] at right
  obtain ⟨ordinary, ts, us, lexes, derives, free⟩ := left
  obtain ⟨ordinary', ts', us', lexes', derives', free'⟩ := right
  obtain ⟨t, last, ends, -⟩ := derives.exists_last
  have chars : (text ++ " " ++ String.singleton symbol ++ " " ++ text').toList =
      text.toList ++ ' ' :: symbol :: ' ' :: text'.toList := by simp
  have sign : ∀ c ∈ Scan.expressionSymbols, Text.isOrdinary c = true := by decide
  refine ⟨?_, _, _, chars ▸ lexes.binary lexes' written last ends,
    .binary derives known derives', ?_⟩
  · rw [chars, List.forall_mem_append, List.forall_mem_cons, List.forall_mem_cons,
      List.forall_mem_cons]
    exact ⟨ordinary, by decide, sign symbol written, by decide, ordinary'⟩
  · rw [List.forall_mem_append, List.forall_mem_cons]
    exact ⟨free, fun _ => trivial, free'⟩

/-- One argument, and more behind a separator. -/
theorem argument (prints : s.Prints .expression text program) :
    s.Prints (.arguments 1) text program := by
  obtain ⟨ordinary, ts, us, lexes, derives, free⟩ := prints
  exact ⟨ordinary, ts, us, lexes, .argument derives, free⟩

theorem arguments {count : Nat} (first : s.Prints .expression text program)
    (others : s.Prints (.arguments count) text' program') :
    s.Prints (.arguments (count + 1)) (text ++ "; " ++ text') (program ++ program') := by
  obtain ⟨ordinary, ts, us, lexes, derives, free⟩ := first
  obtain ⟨ordinary', ts', us', lexes', derives', free'⟩ := others
  have chars : (text ++ "; " ++ text').toList = text.toList ++ ';' :: ' ' :: text'.toList := by simp
  refine ⟨?_, _, _, chars ▸ lexes.arguments lexes', .arguments derives derives', ?_⟩
  · rw [chars, List.forall_mem_append, List.forall_mem_cons, List.forall_mem_cons]
    exact ⟨ordinary, by decide, by decide, ordinary'⟩
  · rw [List.forall_mem_append, List.forall_mem_cons]
    exact ⟨free, fun _ => trivial, free'⟩

theorem call {f t : Token} {count : Nat} (isWord : Scan.isWord f.content = true)
    (known : Scan.functionToken? s f.content = some t) (takes : Grammar.Takes t count f)
    (prints : s.Prints (.arguments count) text program) :
    s.Prints .atom (f.content ++ Postfix.bracketed text) (program ++ [f]) := by
  obtain ⟨ordinary, ts, us, lexes, derives, free⟩ := prints
  have chars : (f.content ++ Postfix.bracketed text).toList =
      f.content.toList ++ '(' :: (text.toList ++ [')']) := by simp [Postfix.bracketed]
  have own : ∀ c ∈ f.content.toList, Text.isOrdinary c = true := fun c within =>
    Scan.isOrdinary_of_isWordChar (Scan.isWordChar_of_isWord isWord c within)
  refine ⟨?_, _, _, chars ▸ lexes.call isWord known, .call takes derives, ?_⟩
  · rw [chars, List.forall_mem_append, List.forall_mem_cons, List.forall_mem_append]
    exact ⟨own, by decide, ordinary, by decide⟩
  · rw [List.forall_mem_cons, List.forall_mem_cons, List.forall_mem_append]
    exact ⟨fun _ => by cases takes <;> trivial, fun _ => trivial, free, by simp [Grammar.UnitFree]⟩

end Session.Prints

/-! ## Texts of expressions -/

namespace Postfix

variable {s : Session}

/-- The left operand of a power binds tighter. -/
theorem nodeText_power (a b : Shown) : nodeText (Token.ofSymbol '^').ordered [a, b] =
    a.within (a.level < 21) ++ "^" ++ b.within (b.level < 20) := by
  -- Brackets stand around looser operands, and around alike ones where these do not associate.
  have left : (decide (a.level < 20) || (20 == a.level && Grouping.right != .left)) =
      decide (a.level < 21) := by
    rw [Bool.eq_iff_iff]
    simp only [show (Grouping.right != .left) = true from rfl, Bool.and_true, Bool.or_eq_true,
      decide_eq_true_eq, beq_iff_eq]
    omega
  have right : (decide (b.level < 20) || (20 == b.level && Grouping.right != .right)) =
      decide (b.level < 20) := by
    simp
  rw [← left, ← right]
  rfl

/-- The right operand of any other operator binds tighter. -/
theorem nodeText_binary {symbol : Char} {k : Nat} (known : symbol ∈ Grammar.symbolsOf k)
    (a b : Shown) :
    nodeText (Token.ofSymbol symbol).ordered [a, b] =
      a.within (a.level < 16 - k) ++ " " ++ String.singleton symbol ++ " " ++
        b.within (b.level < 17 - k) := by
  obtain ⟨precedence, le, -⟩ := Grammar.precedence_of_symbolsOf known
  obtain ⟨notPower, -, ordered⟩ := Grammar.symbolsOf_spec known
  have level : (Token.operator symbol (k + 4)).precedence = (16 - k, .left) := precedence
  -- The order of the sign in front of unit suffixes belongs to no operator that is written.
  have product : ((k + 4 : Int) == unitSuffixOrder) = false := by
    simp only [beq_eq_false_iff_ne, unitSuffixOrder]
    omega
  have right : (decide (b.level < 16 - k) || (16 - k == b.level && Grouping.left != .right)) =
      decide (b.level < 17 - k) := by
    rw [Bool.eq_iff_iff]
    simp only [show (Grouping.left != .right) = true from rfl, Bool.and_true, Bool.or_eq_true,
      decide_eq_true_eq, beq_iff_eq]
    omega
  rw [ordered, nodeText, operatorText, level]
  simp only [beq_eq_false_iff_ne.2 notPower, product, right]
  simp [Token.text, Token.content]

/-- Only a factorial has the precedence of one. -/
theorem Tree.level_ne {t : Tree} (known : t.IsKnown s) (other : t.isFactorial = false) :
    t.shown.level ≠ 21 := by
  cases t with
  | factorial => cases other
  | binary symbol a b =>
    rcases Grammar.symbol_cases known.1 known.2.1 with rfl | ⟨k, binary⟩
    · simp [Tree.shown, show (Token.ofSymbol '^').precedence = (20, .right) from rfl]
    · simp only [Tree.shown, (Grammar.precedence_of_symbolsOf binary).1]
      omega
  | _ => simp [Tree.shown]

mutual

/-- The text of an expression is read into its program. -/
theorem Tree.prints (t : Tree) (known : t.IsKnown s) :
    11 ≤ t.shown.level ∧ s.Prints (.ofPrecedence t.shown.level) t.shown.text t.program := by
  match t with
  | .number value digits =>
    exact ⟨by simp [Tree.shown], .number known.1 known.2.1 known.2.2⟩
  | .name cell name => exact ⟨by simp [Tree.shown], .name known.1 known.2.1 known.2.2⟩
  | .negation a =>
    obtain ⟨loose, prints⟩ := a.prints known
    exact ⟨by simp [Tree.shown], .negation (prints.within loose fun tight => by simpa using tight)⟩
  | .binary symbol a b =>
    obtain ⟨operator, other, knownA, knownB⟩ := known
    obtain ⟨looseA, printsA⟩ := a.prints knownA
    obtain ⟨looseB, printsB⟩ := b.prints knownB
    rcases Grammar.symbol_cases operator other with rfl | ⟨k, binary⟩
    · simp only [Tree.shown, Tree.program, nodeText_power]
      exact ⟨by decide, .power (printsA.within looseA fun tight => by simpa using tight)
        (printsB.within looseB fun tight => by simpa using tight)⟩
    · obtain ⟨precedence, le, -⟩ := Grammar.precedence_of_symbolsOf binary
      simp only [Tree.shown, Tree.program, nodeText_binary binary, precedence]
      exact ⟨by omega, .binary binary (printsA.within looseA fun tight => by simpa using tight)
        (printsB.within looseB fun tight => by simpa using tight)⟩
  | .factorial a =>
    obtain ⟨loose, prints⟩ := a.prints known.2
    refine ⟨by simp [Tree.shown], .factorial (prints.within (n := 22) loose fun tight => ?_)⟩
    have differs := Tree.level_ne known.2 known.1
    simp only [decide_eq_false_iff_not, not_lt] at tight
    omega
  | .call f arguments =>
    obtain ⟨⟨isWord, t, found, takes⟩, known⟩ := known
    exact ⟨by simp [Tree.shown], .call isWord found takes (arguments.prints known)⟩

/-- The texts of arguments are read into their programs. -/
theorem Trees.prints (arguments : Trees) (known : arguments.IsKnown s) :
    s.Prints (.arguments arguments.count) ("; ".intercalate (arguments.shown.map Shown.text))
      arguments.program := by
  match arguments with
  | .only a =>
    obtain ⟨loose, prints⟩ := a.prints known
    simpa [Trees.shown, Trees.program, Trees.count] using (prints.looser loose).argument
  | .more a others =>
    obtain ⟨loose, prints⟩ := a.prints known.1
    have both := (prints.looser loose).arguments (others.prints known.2)
    have texts : "; ".intercalate ((Trees.more a others).shown.map Shown.text) =
        a.shown.text ++ "; " ++ "; ".intercalate (others.shown.map Shown.text) := by
      cases others <;> simp [Trees.shown, String.intercalate_cons_cons]
    rw [texts]
    exact both

end

end Postfix

/-! ## Printing and parsing -/

/-- A text that is read into an expression is parsed into its program. -/
theorem Session.Prints.parse {s : Session} {text : String} {program : List Token}
    (prints : s.limitResults.Prints .expression text program) :
    outcome (parse text) s =
      (.ok ⟨program, none, none, String.ofList text.toList⟩, s.limitResults) := by
  obtain ⟨ordinary, ts, us, lexes, derives, free⟩ := prints
  -- the whole text is the expression, and no unit is asked for
  have whole : Statement.split text.toList = (text.toList ++ [], none) := by
    have split := Statement.split_append ordinary []
    rw [List.append_nil] at split
    rw [split]
    rfl
  have noUnit : outcome (parseUnit (Statement.split text.toList).2) s.limitResults =
      (.ok none, s.limitResults) := by
    rw [whole]
    rfl
  obtain ⟨divides, -, same⟩ := lexes {} [] rfl rfl (by simp [Scan.Ends])
  have scanned (create : Method → Shorter text.toList.length → SessionM Nat) :
      outcome (Scan.run text.toList.length create true (Statement.split text.toList).1
        (Statement.length_split text.toList) {}) s.limitResults =
        (.ok ({ reversed := ts.reverse, isDividing := divides } : Scan), s.limitResults) := by
    have front : (Statement.split text.toList).1 = text.toList ++ [] := congrArg Prod.fst whole
    rw [Scan.run_chars front _ (by simp), same create true _ (Nat.zero_le _)]
    simp [Scan.run, Scan.closeDivisor, Scan.adding]
  have checked : Token.check ts = .ok (us, false) :=
    Token.check_of_layout derives.layout rfl derives.ordinary fun name count =>
      (derives.known name count).1
  -- No name is asked for a unit, so the tokens are ordered as the grammar says.
  have ordered (find : Option (String → Option ValueUnit)) :
      Postfix.ofTokens (Token.bind s.limitResults.isAssigned find 0 us) = .ok program := by
    have empty : Level.expression.Fits [] := ⟨by simp, by simp [Level.expression]⟩
    obtain ⟨out, pending, rfl, waits, reads⟩ := derives.ordering empty
    rw [List.append_nil] at reads
    rw [Grammar.bind_of_unitFree 0 fun t within => free t within find]
    exact reads.ofTokens fun t within => (waits t within).isNotOpen
  have limited : outcome (SessionM.parse text) s =
    outcome (parseStatement text.toList true) s.limitResults := rfl
  rw [limited, parseStatement, outcome_bind_ok noUnit, outcome_bind_ok (scanned _)]
  have tokens : ({ reversed := ts.reverse, isDividing := divides } : Scan).tokens = ts :=
    List.reverse_reverse ts
  rw [← tokens] at checked
  rw [outcome_ofScan (by simpa [tokens] using (derives.known "" 0).2) checked, ordered]
  rfl

namespace Postfix

variable {s s' : Session}

mutual

/-- What can be written depends on the names of a session, and on which variables have values. -/
theorem Tree.isKnown_congr (t : Tree) (known : t.IsKnown s) (vocabulary : s.SameVocabulary s')
    (names : s'.cellNames = s.cellNames) (assigned : s'.isAssigned = s.isAssigned) :
    t.IsKnown s' := by
  match t with
  | .number .. => exact known
  | .name .. =>
    refine ⟨known.1, ?_, ?_⟩
    · rw [names]
      exact known.2.1
    · rw [assigned]
      exact known.2.2
  | .negation a => exact a.isKnown_congr known vocabulary names assigned
  | .binary _ a b =>
    exact ⟨known.1, known.2.1, a.isKnown_congr known.2.2.1 vocabulary names assigned,
      b.isKnown_congr known.2.2.2 vocabulary names assigned⟩
  | .factorial a => exact ⟨known.1, a.isKnown_congr known.2 vocabulary names assigned⟩
  | .call _ arguments =>
    obtain ⟨⟨isWord, t, found, takes⟩, known⟩ := known
    exact ⟨⟨isWord, t, (vocabulary.functionToken?_eq _).trans found, takes⟩,
      arguments.isKnown_congr known vocabulary names assigned⟩

theorem Trees.isKnown_congr (arguments : Trees) (known : arguments.IsKnown s)
    (vocabulary : s.SameVocabulary s') (names : s'.cellNames = s.cellNames)
    (assigned : s'.isAssigned = s.isAssigned) : arguments.IsKnown s' := by
  match arguments with
  | .only a => exact a.isKnown_congr known vocabulary names assigned
  | .more a others =>
    exact ⟨a.isKnown_congr known.1 vocabulary names assigned,
      others.isKnown_congr known.2 vocabulary names assigned⟩

end

/-- Printing an expression without units is inverted by parsing: the text of its program is
accepted, and is read into the same program. -/
theorem Tree.parse_render (t : Tree) (known : t.IsKnown s) :
    ∃ statement s', outcome (parse (s.render t.program)) s = (.ok statement, s') ∧
      statement.program = t.program ∧ statement.function = none := by
  have vocabulary : s.SameVocabulary s.limitResults := s.afterCalls_limitResults.sameVocabulary
  obtain ⟨loose, prints⟩ := t.prints (t.isKnown_congr known vocabulary rfl rfl)
  rw [Session.render, t.text_program known]
  exact ⟨_, _, (prints.looser loose).parse, rfl, rfl⟩

/-- A session in which a variable has a value and a function of two parameters is defined. -/
def sessionWithSum : Session :=
  ((Session.start {} ⟨1, 1⟩).after (.assign "x" (.real 3))).after (.read "f(a; b) = a + b")

theorem parse_render_sum : ∃ t : Tree, t.IsKnown sessionWithSum ∧
    sessionWithSum.render t.program = "-x^2 * (1.5 + f(x; 2))!" ∧ ∃ statement s',
      outcome (parse (sessionWithSum.render t.program)) sessionWithSum = (.ok statement, s') ∧
      statement.program = t.program ∧ statement.function = none := by
  obtain ⟨two, readTwo⟩ : ∃ two : Float, Scalar.read "2" = some two :=
    Option.isSome_iff_exists.1 (by decide +kernel)
  obtain ⟨more, readMore⟩ : ∃ more : Float, Scalar.read "1.5" = some more :=
    Option.isSome_iff_exists.1 (by decide +kernel)
  obtain ⟨x, named, assigned⟩ : ∃ x, sessionWithSum.cellNames.lookup "x" = some x ∧
      sessionWithSum.isAssigned x = true :=
    (Option.any_eq_true _ _).1 (by decide +kernel)
  have function : Scan.functionToken? sessionWithSum "f" = some (.call (some 0) "f" 2) := by
    have index : sessionWithSum.functionNames.lookup "f" = some 0 := by decide +kernel
    have arity : (sessionWithSum.functions[0]?.elim 0 fun f => f.parameters.length) = 2 := by
      decide +kernel
    rw [Scan.functionToken?, if_neg (by decide), if_neg (by decide), if_neg (by decide),
      if_neg (by decide), index, Option.map_some, arity]
  let t : Tree := .binary '*' (.negation (.binary '^' (.name x "x") (.number two "2")))
    (.factorial (.binary '+' (.number more "1.5")
      (.call (.call (some 0) "f" 2) (.more (.name x "x") (.only (.number two "2"))))))
  have isVariable : (Tree.name x "x").IsKnown sessionWithSum := ⟨by decide +kernel, named, assigned⟩
  have number : (Tree.number two "2").IsKnown sessionWithSum := ⟨readTwo, by decide, by decide⟩
  have called : Tree.IsKnown sessionWithSum
      (.call (.call (some 0) "f" 2) (.more (.name x "x") (.only (.number two "2")))) :=
    ⟨⟨by decide +kernel, _, function, .call 0 "f" 2⟩, isVariable, number⟩
  have known : t.IsKnown sessionWithSum :=
    ⟨by decide, by decide, ⟨by decide, by decide, isVariable, number⟩, rfl, by decide, by decide,
      ⟨readMore, by decide, by decide⟩, called⟩
  exact ⟨t, known, by rw [Session.render, t.text_program known]; rfl, t.parse_render known⟩

end Postfix

end UnitCalc

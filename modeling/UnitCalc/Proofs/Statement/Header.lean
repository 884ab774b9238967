/-
# Headers of definitions

The definition of a function is its header and the text of its body. The header is read into the
call of the function, its parameters and the assignment, whatever the body is, and the body is
read from there on as if it stood alone.

## Main definitions

* `Statement.definitionText`: the text that defines a function.
* `Scan.isName`: a name that a variable can have.
* `Header.tokens`: what a header is read into.

## Main results

* `Scan.run_header`: reading a definition begins with its header.
* `Header.ofTokens_append`: the parts of a definition.
-/

import UnitCalc.Proofs.Statement.Alike
import UnitCalc.Proofs.Text.Classes
import UnitCalc.Statement.Parse

namespace UnitCalc

open SessionM
open Token (withoutCell)

/-! ## Characters of names -/

/-- A letter is the sign of no operator. -/
theorem isOperatorSymbol_of_isAlphabetic {c : Char} (letter : Text.isAlphabetic c = true) :
    isOperatorSymbol c = false := by
  have obelus := Text.ne_of_isAlphabetic letter (d := Operator.obelus) (by decide +kernel)
  have others : ∀ o ∈ Operator.all, Text.isAlphabetic o.symbol = false := by
    simp only [Text.isAlphabetic, Text.inSpans_eq]
    decide +kernel
  rw [isOperatorSymbol, Operator.ofSymbol?, if_neg (by simpa using obelus)]
  rw [Option.isSome_eq_false_iff, Option.isNone_iff_eq_none, List.find?_eq_none]
  intro o within same
  exact Text.ne_of_isAlphabetic letter (others o within) (beq_iff_eq.1 same).symm

/-- A letter begins a word. -/
theorem CharClass.of_isAlphabetic {c : Char} (letter : Text.isAlphabetic c = true) :
    CharClass.of c = .letter := by
  have differs : ∀ d ∈ ['.', '!', '(', ')', ';', '$', '?', '\'', '"', '|', middleDot], c ≠ d := by
    have others : ∀ d ∈ ['.', '!', '(', ')', ';', '$', '?', '\'', '"', '|', middleDot],
      Text.isAlphabetic d = false := by decide +kernel
    exact fun d within => Text.ne_of_isAlphabetic letter (others d within)
  simp only [List.forall_mem_cons] at differs
  simp [CharClass.of, Text.isQuote, isUnitChar, letter, differs,
    Text.isDigit_of_isAlphabetic letter, isOperatorSymbol_of_isAlphabetic letter]

/-- Words do not begin with blanks. -/
theorem CharClass.isBlank_of_letter {c : Char} (begins : CharClass.of c = .letter) :
    Text.isBlank c = false := by
  refine Text.isBlank_of_class (p := fun c => CharClass.of c = .letter) (decide_eq_true begins) ?_
  simp only [CharClass.of, isUnitChar, Text.isAlphabetic, Text.inSpans_eq]
  decide +kernel

/-! ## Splitting -/

namespace Text

/-- A character that neither begins a comment, nor ends an expression, nor counts for braces. -/
def isOrdinary (c : Char) : Bool :=
  !isQuote c && c != '|' && c != '{' && c != '}'

/-- Characters of a class are ordinary when all others are outside of it. -/
theorem isOrdinary_of_class {p : Char → Bool} {c : Char} (holds : p c = true)
    (outside : ∀ d ∈ ['\'', '"', '|', '{', '}'], p d = false) : isOrdinary c = true := by
  have differs : ∀ d ∈ ['\'', '"', '|', '{', '}'], c ≠ d := by
    rintro d within rfl
    rw [outside c within] at holds
    cases holds
  simp only [List.forall_mem_cons] at differs
  simp [isOrdinary, isQuote, differs]

theorem withoutComment_append {front : List Char} (ordinary : ∀ c ∈ front, isOrdinary c = true)
    (depth : Int) (cs : List Char) :
    withoutComment depth (front ++ cs) = front ++ withoutComment depth cs := by
  induction front with
  | nil => rfl
  | cons c front ih =>
    rw [List.forall_mem_cons] at ordinary
    have first := ordinary.1
    simp only [isOrdinary, Bool.and_eq_true, Bool.not_eq_true', bne_iff_ne] at first
    rw [List.cons_append, withoutComment]
    simp only [first, Bool.false_and, beq_iff_eq, Bool.false_eq_true, if_false, ih ordinary.2,
      List.cons_append]

theorem cutAt_append {front : List Char} (ordinary : ∀ c ∈ front, isOrdinary c = true)
    (cs : List Char) : cutAt '|' (front ++ cs) = (front ++ (cutAt '|' cs).1, (cutAt '|' cs).2) := by
  induction front with
  | nil => rfl
  | cons c front ih =>
    rw [List.forall_mem_cons] at ordinary
    have first := ordinary.1
    simp only [isOrdinary, Bool.and_eq_true, Bool.not_eq_true', bne_iff_ne] at first
    rw [List.cons_append, cutAt, if_neg (by simp [first]), ih ordinary.2]
    rfl

end Text

/-- What stands in front of a text belongs to its expression. -/
theorem Statement.split_append {front : List Char}
    (ordinary : ∀ c ∈ front, Text.isOrdinary c = true) (cs : List Char) :
    split (front ++ cs) = (front ++ (split cs).1, (split cs).2) := by
  rw [split, Text.withoutComment_append ordinary, Text.cutAt_append ordinary]
  rfl

/-! ## Names -/

namespace Scan

/-- A name that a variable can have: it begins with a letter. -/
def isName (name : String) : Bool :=
  match name.toList with
  | [] => false
  | c :: rest => Text.isAlphabetic c && rest.all isWordChar

theorem exists_of_isName {name : String} (isName : isName name = true) :
    ∃ c rest, name = String.ofList (c :: rest) ∧ Text.isAlphabetic c = true ∧
      ∀ d ∈ rest, isWordChar d = true := by
  unfold Scan.isName at isName
  split at isName
  · cases isName
  · next c rest same =>
    rw [Bool.and_eq_true, List.all_eq_true] at isName
    exact ⟨c, rest, by rw [← same, String.ofList_toList], isName⟩

theorem ne_of_letter {c : Char} (letter : Text.isAlphabetic c = true) : c ≠ '_' :=
  Text.ne_of_isAlphabetic letter (by decide +kernel)

theorem isWord_of_isName {name : String} (isName : isName name = true) : isWord name = true := by
  obtain ⟨c, rest, rfl, letter, inside⟩ := exists_of_isName isName
  simp only [isWord, String.toList_ofList, CharClass.of_isAlphabetic letter, decide_true,
    Bool.true_and, bne_iff_ne, Bool.and_eq_true, List.all_eq_true]
  exact ⟨ne_of_letter letter, inside⟩

theorem isOrdinary_of_isWordChar {c : Char} (word : isWordChar c = true) :
    Text.isOrdinary c = true :=
  Text.isOrdinary_of_class word (by decide +kernel)

theorem isWordChar_of_isName {name : String} (isName : isName name = true) :
    ∀ c ∈ name.toList, isWordChar c = true :=
  isWordChar_of_isWord (isWord_of_isName isName)

end Scan

namespace Statement

/-- The text that defines a function of some parameters. -/
def definitionText (f : String) (names : List String) (text : String) : String :=
  f ++ "(" ++ "; ".intercalate names ++ ") = " ++ text

/-- The characters of a list of parameters. -/
def parameterChars (names : List String) : List Char :=
  [';', ' '].intercalate (names.map String.toList)

theorem toList_definitionText (f : String) (names : List String) (text : String) :
    (definitionText f names text).toList =
      f.toList ++ '(' :: (parameterChars names ++ ')' :: ' ' :: '=' :: ' ' :: text.toList) := by
  simp [definitionText, parameterChars, String.toList_intercalate]

theorem parameterChars_cons (n n' : String) (names : List String) :
    parameterChars (n :: n' :: names) = n.toList ++ ';' :: ' ' :: parameterChars (n' :: names) := by
  simp [parameterChars, List.intercalate]

theorem parameterChars_singleton (n : String) : parameterChars [n] = n.toList := by
  simp [parameterChars, List.intercalate]

theorem forall_parameterChars {P : Char → Prop} (separator : P ';') (blank : P ' ')
    {names : List String} (all : ∀ n ∈ names, ∀ c ∈ n.toList, P c) :
    ∀ c ∈ parameterChars names, P c := by
  induction names with
  | nil => exact List.forall_mem_nil _
  | cons n names ih =>
    rw [List.forall_mem_cons] at all
    cases names with
    | nil =>
      rw [parameterChars_singleton]
      exact all.1
    | cons n' names =>
      rw [parameterChars_cons, List.forall_mem_append, List.forall_mem_cons, List.forall_mem_cons]
      exact ⟨all.1, separator, blank, ih all.2⟩

/-- What holds of the characters of names, and of those around them, holds of a whole header. -/
theorem forall_headerChars {P : Char → Prop} (around : ∀ c ∈ ['(', ';', ' ', ')', '='], P c)
    (words : ∀ c, isWordChar c = true → P c) {f : String} {names : List String}
    (isName : Scan.isName f = true) (areNames : ∀ n ∈ names, Scan.isName n = true) :
    ∀ c ∈ f.toList ++ '(' :: (parameterChars names ++ [')', ' ', '=', ' ']), P c := by
  have name : ∀ {n : String}, Scan.isName n = true → ∀ c ∈ n.toList, P c := fun isName c within =>
    words c (Scan.isWordChar_of_isName isName c within)
  simp only [List.forall_mem_cons] at around
  obtain ⟨opens, separator, blank, closes, sign, -⟩ := around
  simp only [List.forall_mem_append, List.forall_mem_cons]
  exact ⟨name isName, opens, forall_parameterChars separator blank fun n within =>
    name (areNames n within), closes, blank, sign, blank, List.forall_mem_nil _⟩

/-- The expression of a definition begins with the header, and the unit behind the bar is that of
the body. -/
theorem split_definitionText {f : String} {names : List String} (text : String)
    (isName : Scan.isName f = true) (areNames : ∀ n ∈ names, Scan.isName n = true) :
    split (definitionText f names text).toList =
      (f.toList ++ '(' :: (parameterChars names ++
        ')' :: ' ' :: '=' :: ' ' :: (split text.toList).1), (split text.toList).2) := by
  have ordinary := forall_headerChars (P := fun c => Text.isOrdinary c = true) (by decide)
    (fun c => Scan.isOrdinary_of_isWordChar) isName areNames
  have together := split_append ordinary text.toList
  simpa [toList_definitionText] using together

end Statement

/-! ## Reading the header -/

namespace Scan

variable {limit : Nat} {create : Method → Shorter limit → SessionM Nat} {allowed : Bool}
  {a b : Scan} {s s' : Session} {c : Char} {rest after cs : List Char}

/-- What is left to read behind a lexeme. -/
theorem run_next (goes : CharClass.of c ≠ .stop) {within : rest.length < limit}
    {t : Shorter (rest.length + 1)}
    (made : outcome (a.lexeme limit create allowed c rest within) s = (.ok (b, t), s'))
    (same : t.1 = cs) (within' : cs.length ≤ limit) :
    outcome (run limit create allowed (c :: rest) within a) s =
      outcome (run limit create allowed cs within' b) s' := by
  subst same
  rw [run, if_neg goes, outcome_bind_ok made]

/-- Characters of a class are read up to one outside of it. -/
theorem span_append {p : Char → Bool} {w : List Char} (inside : ∀ d ∈ w, p d = true)
    (ends : ∀ d ∈ after.head?, p d = false) :
    (w ++ after).takeWhile p = w ∧ (w ++ after).dropWhile p = after := by
  rw [List.takeWhile_append_of_pos inside, List.dropWhile_append_of_pos inside]
  cases after with
  | nil => simp
  | cons d after => simp [ends d rfl]

/-- A name is read as a whole. -/
theorem run_word {w : List Char} (begins : CharClass.of c = .letter) (first : c ≠ '_')
    (inside : ∀ d ∈ w, isWordChar d = true) (ends : ∀ d ∈ after.head?, isWordChar d = false)
    (named : outcome (a.name c (String.ofList (c :: w)) after) s = (.ok b, s'))
    (within : (c :: (w ++ after)).length ≤ limit) (within' : after.length ≤ limit) :
    outcome (run limit create allowed (c :: (w ++ after)) within a) s =
      outcome (run limit create allowed after within' b) s' := by
  obtain ⟨taken, dropped⟩ := span_append inside ends
  -- The word is taken as long as its characters go on, which is up to what comes after.
  refine run_next (t := Shorter.skip isWordChar (w ++ after)) ?_ ?_ dropped within'
  · rw [begins]
    decide
  · rw [lexeme, CharClass.isBlank_of_letter begins, if_neg (by simp), begins]
    simp only [word, beq_eq_false_iff_ne.2 first, Bool.false_eq_true, if_false]
    rw [taken, outcome_bind_ok]
    · rfl
    · rw [show (Shorter.skip isWordChar (w ++ after)).1 = after from dropped]
      exact named

theorem run_chars {cs' : List Char} (same : cs = cs') (within : cs.length ≤ limit)
    (within' : cs'.length ≤ limit) : outcome (run limit create allowed cs within a) s =
      outcome (run limit create allowed cs' within' a) s := by
  subst same
  rfl

/-- A name that no function and no block begins with is read as that of a variable. -/
theorem run_name {n : String} (isName : isName n = true)
    (ends : isWordChar c = false) (plain : c ≠ '$' ∧ c ≠ '(') (other : a.takesUnit = false)
    (within : (n.toList ++ c :: rest).length ≤ limit) (within' : (c :: rest).length ≤ limit) :
    outcome (run limit create allowed (n.toList ++ c :: rest) within a) s =
      outcome (run limit create allowed (c :: rest) within'
        (a.push (.variable (some (s.cellOf n).1) n))) (s.cellOf n).2 := by
  obtain ⟨d, w, rfl, letter, inside⟩ := exists_of_isName isName
  have chars : (String.ofList (d :: w)).toList ++ c :: rest = d :: (w ++ c :: rest) := by simp
  have third : a.name d (String.ofList (d :: w)) (c :: rest) =
      a.variableName (String.ofList (d :: w)) := by
    rw [name_eq]
    simp [plain, other, letter]
  rw [run_chars chars within (chars ▸ within)]
  refine run_word (CharClass.of_isAlphabetic letter) (ne_of_letter letter) inside ?_ ?_ _ within'
  · rintro d same
    cases same
    exact ends
  · rw [third]
    rfl

/-- A parameter is read as a name. -/
theorem run_parameter {n : String} (isName : Scan.isName n = true)
    (ends : c = ';' ∨ c = ')') (other : a.takesUnit = false)
    (within : (n.toList ++ c :: rest).length ≤ limit) (within' : (c :: rest).length ≤ limit) :
    outcome (run limit create allowed (n.toList ++ c :: rest) within a) s =
      outcome (run limit create allowed (c :: rest) within'
        (a.push (.variable (some (s.cellOf n).1) n))) (s.cellOf n).2 := by
  rcases ends with rfl | rfl
  · exact run_name isName (by decide +kernel) (by decide) other within within'
  · exact run_name isName (by decide +kernel) (by decide) other within within'

/-- A separator and the blank behind it. -/
theorem run_separator (closed : a.inDivisor = false) (undivided : a.isDividing = false)
    (within : (';' :: ' ' :: cs).length ≤ limit) (within' : cs.length ≤ limit) :
    outcome (run limit create allowed (';' :: ' ' :: cs) within a) s =
      outcome (run limit create allowed cs within' (a.push .separator)) s := by
  have same : a.endOperand .separator = a.push .separator := by
    obtain ⟨reversed, assignment, isDividing, inDivisor⟩ := a
    cases closed
    cases undivided
    rfl
  have blank : (' ' :: cs).length ≤ limit := Nat.le_of_succ_le within
  rw [run_next (b := a.push .separator) (t := Shorter.all (' ' :: cs)) (by decide)
    (by rw [← same]; rfl) rfl blank]
  exact run_next (t := Shorter.all cs) (by decide) rfl rfl within'

/-- Parameters are read into names with separators between them. -/
theorem run_parameters {names : List String} (areNames : ∀ n ∈ names, Scan.isName n = true)
    (other : a.takesUnit = false) (closed : a.inDivisor = false) (undivided : a.isDividing = false)
    (within : (Statement.parameterChars names ++ ')' :: rest).length ≤ limit)
    (within' : (')' :: rest).length ≤ limit) :
    ∃ (parameters : List Token) (s' : Session),
      parameters.map withoutCell = names.map (.variable none) ∧ s.SameVocabulary s' ∧
      outcome (run limit create allowed (Statement.parameterChars names ++ ')' :: rest) within a)
        s = outcome (run limit create allowed (')' :: rest) within'
          { a with reversed := (parameters.intersperse .separator).reverse ++ a.reversed }) s' := by
  -- The induction is on the names behind the first one, since separators stand between names.
  cases names with
  | nil => exact ⟨[], s, rfl, .refl s, rfl⟩
  | cons n names =>
    rw [List.forall_mem_cons] at areNames
    have keeps : s.SameVocabulary (s.cellOf n).2 :=
      (Session.reading_sameVocabulary.cell n trivial).1
    induction names generalizing n a s with
    | nil =>
      refine ⟨[.variable (some (s.cellOf n).1) n], _, rfl, keeps, ?_⟩
      have chars := congrArg (· ++ ')' :: rest) (Statement.parameterChars_singleton n)
      rw [run_chars chars within (chars ▸ within),
        run_parameter areNames.1 (.inr rfl) other (chars ▸ within) within']
      rfl
    | cons n' names ih =>
      rw [List.forall_mem_cons] at areNames
      have chars : Statement.parameterChars (n :: n' :: names) ++ ')' :: rest =
          n.toList ++ ';' :: ' ' :: (Statement.parameterChars (n' :: names) ++ ')' :: rest) := by
        simp [Statement.parameterChars_cons]
      rw [run_chars chars within (chars ▸ within)]
      rw [chars] at within
      have front : (';' :: ' ' :: (Statement.parameterChars (n' :: names) ++ ')' :: rest)).length ≤
          limit := Nat.le_trans (by simp) within
      have behind : (Statement.parameterChars (n' :: names) ++ ')' :: rest).length ≤ limit :=
        Nat.le_trans (Nat.le_add_right _ 2) front
      rw [run_parameter areNames.1 (.inl rfl) other within front,
        run_separator (a := a.push (.variable (some (s.cellOf n).1) n)) closed undivided front
          behind]
      obtain ⟨parameters, s', same, keeps', ran⟩ := ih (s := (s.cellOf n).2)
        (a := (a.push (.variable (some (s.cellOf n).1) n)).push .separator) rfl closed undivided n'
        areNames.2 behind (Session.reading_sameVocabulary.cell n' trivial).1
      obtain ⟨u, us, rfl, -, -⟩ := List.map_eq_cons_iff.1 same
      refine ⟨.variable (some (s.cellOf n).1) n :: u :: us, s', ?_, keeps.trans keeps', ?_⟩
      · rw [List.map_cons, same]
        rfl
      · rw [ran]
        simp [Scan.push, List.intersperse_cons_cons]

end Scan

/-- What the header of a definition is read into. -/
def Header.tokens (first : Token) (parameters : List Token) : List Token :=
  first :: .openBracket :: (parameters.intersperse .separator ++ [.closeBracket, .ofSymbol '='])

namespace Scan

variable {limit : Nat} {create : Method → Shorter limit → SessionM Nat} {allowed : Bool}
  {a b : Scan} {s s' : Session} {c : Char} {rest after cs : List Char}

/-- The name of a function that begins a statement is that of a function or of one to come. -/
theorem function_first (s : Session) (f : String) :
    ∃ first : Token, function s f {} = .ok (push {} first) ∧ first.isUnit = false := by
  unfold Scan.function
  cases found : functionToken? s f with
  | none => exact ⟨.call none f 0, rfl, rfl⟩
  | some t =>
    refine ⟨t, rfl, ?_⟩
    unfold functionToken? at found
    repeat' split at found
    all_goals first
      | cases found; rfl
      | obtain ⟨i, -, rfl⟩ := Option.map_eq_some_iff.1 found; rfl

theorem run_openBracket (within : ('(' :: cs).length ≤ limit) (within' : cs.length ≤ limit) :
    outcome (run limit create allowed ('(' :: cs) within a) s =
      outcome (run limit create allowed cs within' a.openBracket) s :=
  run_next (t := Shorter.all cs) (by decide) rfl rfl within'

/-- The end of a header. -/
theorem run_closing (closed : a.inDivisor = false) (undivided : a.isDividing = false)
    (unassigned : a.assignment = 0) (within : (')' :: ' ' :: '=' :: ' ' :: cs).length ≤ limit)
    (within' : cs.length ≤ limit) :
    outcome (run limit create true (')' :: ' ' :: '=' :: ' ' :: cs) within a) s =
      outcome (run limit create true cs within'
        { reversed := .ofSymbol '=' :: .closeBracket :: a.reversed
          assignment := a.reversed.length + 1 }) s := by
  obtain ⟨reversed, assignment, isDividing, inDivisor⟩ := a
  cases closed
  cases undivided
  cases unassigned
  have first : (' ' :: '=' :: ' ' :: cs).length ≤ limit := Nat.le_of_succ_le within
  have second : ('=' :: ' ' :: cs).length ≤ limit := Nat.le_of_succ_le first
  have third : (' ' :: cs).length ≤ limit := Nat.le_of_succ_le second
  refine (run_next (t := Shorter.all _) (by decide) rfl rfl first).trans ?_
  refine (run_next (t := Shorter.all _) (by decide) rfl rfl second).trans ?_
  refine (run_next (t := Shorter.all _) (by decide) rfl rfl third).trans ?_
  exact run_next (t := Shorter.all _) (by decide) rfl rfl within'

/-- Reading a definition begins with its header. -/
theorem run_header {f : String} {names : List String} (isName : isName f = true)
    (areNames : ∀ n ∈ names, Scan.isName n = true)
    (within : (f.toList ++ '(' :: (Statement.parameterChars names ++
      ')' :: ' ' :: '=' :: ' ' :: cs)).length ≤ limit) (within' : cs.length ≤ limit) :
    ∃ (first : Token) (parameters : List Token) (assignment : Nat) (s' : Session),
      first.isUnit = false ∧ parameters.map withoutCell = names.map (.variable none) ∧
      s.SameVocabulary s' ∧
      outcome (run limit create true (f.toList ++ '(' :: (Statement.parameterChars names ++
        ')' :: ' ' :: '=' :: ' ' :: cs)) within {}) s =
      outcome (run limit create true cs within'
        { reversed := (Header.tokens first parameters).reverse, assignment }) s' := by
  obtain ⟨first, begins, noUnit⟩ := function_first s f
  obtain ⟨d, w, rfl, letter, inside⟩ := exists_of_isName isName
  have chars : (String.ofList (d :: w)).toList ++ '(' :: (Statement.parameterChars names ++
      ')' :: ' ' :: '=' :: ' ' :: cs) = d :: (w ++ '(' :: (Statement.parameterChars names ++
      ')' :: ' ' :: '=' :: ' ' :: cs)) := by simp
  rw [run_chars chars within (chars ▸ within)]
  rw [chars] at within
  have opened : ('(' :: (Statement.parameterChars names ++
      ')' :: ' ' :: '=' :: ' ' :: cs)).length ≤ limit := by
    refine Nat.le_trans ?_ within
    simp only [List.length_cons, List.length_append]
    omega
  have behind : (Statement.parameterChars names ++
      ')' :: ' ' :: '=' :: ' ' :: cs).length ≤ limit := Nat.le_of_succ_le opened
  have closing : (')' :: ' ' :: '=' :: ' ' :: cs).length ≤ limit := Nat.le_trans (by simp) behind
  have named : outcome (Scan.name d (String.ofList (d :: w))
      ('(' :: (Statement.parameterChars names ++ ')' :: ' ' :: '=' :: ' ' :: cs)) {}) s =
        (.ok (push {} first), s) := by
    simp only [Scan.name, List.head?_cons, outcome_read, begins]
  have ends : ∀ e ∈ ('(' :: (Statement.parameterChars names ++
      ')' :: ' ' :: '=' :: ' ' :: cs)).head?, isWordChar e = false := by
    rintro e same
    cases same
    decide +kernel
  -- Name, bracket, parameters and the rest are read one behind the other.
  obtain ⟨parameters, s', same, keeps, ran⟩ :=
    run_parameters (a := openBracket (push {} first)) (s := s) areNames rfl rfl rfl behind closing
  have reversed : .ofSymbol '=' :: .closeBracket :: ((parameters.intersperse .separator).reverse ++
      [.openBracket, first]) = (Header.tokens first parameters).reverse := by
    simp [Header.tokens]
  refine ⟨first, parameters, ((parameters.intersperse .separator).reverse ++
    [.openBracket, first] : List Token).length + 1, s', noUnit, same, keeps, ?_⟩
  rw [run_word (CharClass.of_isAlphabetic letter) (ne_of_letter letter) inside ends named within
    opened, run_openBracket opened behind, ran,
    ← reversed]
  exact run_closing rfl rfl rfl closing within'

end Scan

end UnitCalc

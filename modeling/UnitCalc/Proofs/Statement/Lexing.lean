/-
# Reading texts without units

Numbers, variables, operators, signs, brackets and calls are read one after the other, and each of
them is read alike wherever it may stand. A text of them is read into some tokens, whatever is in
front of it, if an operand may follow there, and whatever comes behind, if that goes on with no
number and no name.

## Main definitions

* `Scan.Advances`: reading leads from one place of a statement to another.
* `Scan.Lexes`: a text is read into some tokens where an operand may stand.

## Main results

* `Scan.Lexes.binary`, `Scan.Lexes.call` and their like: the tokens of composed texts.
-/

import UnitCalc.Proofs.Statement.Header

namespace UnitCalc

open SessionM

/-- A token that ends an operand, so that a minus behind it is no sign. -/
def Token.endsOperand : Token → Bool
  | .constant .. | .variable .. | .closeBracket | .factorial => true
  | _ => false

/-- A token that an operand has to follow, so that a minus behind it is a sign. -/
def Token.wantsOperand : Token → Bool
  | .openBracket | .separator | .operator .. | .negation _ => true
  | _ => false

theorem Token.wantsOperand_of_endsOperand {t : Token} (ends : t.endsOperand = true) :
    t.wantsOperand = false := by
  cases t <;> first | rfl | cases ends

namespace Scan

variable {s : Session} {a b : Scan} {c symbol : Char} {rest cs cs' after text text' : List Char}
  {t : Token} {ts ts' us : List Token} {divides : Bool}

/-! ## Places of a statement -/

/-- Reading leads from one place of a statement to a later one and leaves the session as it is. -/
structure Advances (s : Session) (a : Scan) (cs : List Char) (b : Scan) (cs' : List Char) :
    Prop where
  shorter : cs'.length ≤ cs.length
  same : ∀ {limit : Nat} (create : Method → Shorter limit → SessionM Nat) (allowed : Bool)
    (within : cs.length ≤ limit) (within' : cs'.length ≤ limit),
    outcome (run limit create allowed cs within a) s =
      outcome (run limit create allowed cs' within' b) s

theorem Advances.refl (s : Session) (a : Scan) (cs : List Char) : Advances s a cs a cs :=
  ⟨Nat.le_refl _, fun _ _ _ _ => rfl⟩

theorem Advances.trans {a' : Scan} {cs'' : List Char} (first : Advances s a cs b cs')
    (second : Advances s b cs' a' cs'') : Advances s a cs a' cs'' where
  shorter := Nat.le_trans second.shorter first.shorter
  same create allowed within within' :=
    (first.same create allowed within (Nat.le_trans first.shorter within)).trans
      (second.same create allowed _ within')

/-- Reading advances by what begins with a character. -/
theorem advances_of_lexeme (goes : CharClass.of c ≠ .stop) (shorter : cs.length ≤ rest.length)
    (made : ∀ {limit : Nat} (create : Method → Shorter limit → SessionM Nat) (allowed : Bool)
      (within : rest.length < limit), ∃ t : Shorter (rest.length + 1), t.1 = cs ∧
        outcome (a.lexeme limit create allowed c rest within) s = (.ok (b, t), s)) :
    Advances s a (c :: rest) b cs where
  shorter := Nat.le_succ_of_le shorter
  same create allowed within within' := by
    obtain ⟨t, same, made⟩ := made create allowed (Nat.lt_of_succ_le within)
    exact run_next goes made same within'

/-- What was read with more tokens, and whether the last operator divides. -/
def adding (a : Scan) (ts : List Token) (isDividing : Bool) : Scan :=
  { a with reversed := ts.reverse ++ a.reversed, isDividing }

@[simp]
theorem adding_adding (a : Scan) (ts us : List Token) (divides divides' : Bool) :
    (a.adding ts divides).adding us divides' = a.adding (ts ++ us) divides' := by
  simp [adding]

theorem last?_adding (last : ts.getLast? = some t) : (a.adding ts divides).last? = some t := by
  obtain ⟨before, rfl⟩ := List.getLast?_eq_some_iff.1 last
  simp [adding, Scan.last?]

theorem expectsOperand_adding (last : ts.getLast? = some t) :
    (a.adding ts divides).expectsOperand = t.wantsOperand := by
  rw [expectsOperand, last?_adding last]
  cases t <;> rfl

theorem expects_adding (wants : t.wantsOperand = true) :
    (a.adding [t] divides).expectsOperand = true :=
  (expectsOperand_adding rfl).trans wants

theorem complete_adding (last : ts.getLast? = some t) (ends : t.endsOperand = true) :
    (a.adding ts divides).expectsOperand = false :=
  (expectsOperand_adding last).trans (Token.wantsOperand_of_endsOperand ends)

/-- No unit follows where an operand is expected. -/
theorem not_takesUnit (expects : a.expectsOperand = true) : a.takesUnit = false := by
  unfold expectsOperand at expects
  unfold takesUnit
  split at expects <;> simp_all

theorem advances_blank (s : Session) (a : Scan) (cs : List Char) : Advances s a (' ' :: cs) a cs :=
  advances_of_lexeme (by decide) (Nat.le_refl _) fun _ _ _ => ⟨Shorter.all cs, rfl, rfl⟩

theorem advances_openBracket (s : Session) (a : Scan) (cs : List Char) :
    Advances s a ('(' :: cs) (a.adding [.openBracket] false) cs :=
  advances_of_lexeme (by decide) (Nat.le_refl _) fun _ _ _ => ⟨Shorter.all cs, rfl, rfl⟩

theorem endOperand_eq (closed : a.inDivisor = false) (t : Token) :
    a.endOperand t = a.adding [t] false := by
  simp [endOperand, closeDivisor, closed, adding, push]

theorem advances_closeBracket (closed : a.inDivisor = false) (cs : List Char) :
    Advances s a (')' :: cs) (a.adding [.closeBracket] false) cs := by
  rw [← endOperand_eq closed]
  exact advances_of_lexeme (by decide) (Nat.le_refl _) fun _ _ _ => ⟨Shorter.all cs, rfl, rfl⟩

theorem advances_separator (closed : a.inDivisor = false) (cs : List Char) :
    Advances s a (';' :: cs) (a.adding [.separator] false) cs := by
  rw [← endOperand_eq closed]
  exact advances_of_lexeme (by decide) (Nat.le_refl _) fun _ _ _ => ⟨Shorter.all cs, rfl, rfl⟩

theorem advances_factorial (last : a.last? = some t) (ends : t.endsOperand = true)
    (other : t ≠ .factorial) (behind : cs.head? ≠ some '=') :
    Advances s a ('!' :: cs) (a.adding [.factorial] a.isDividing) cs := by
  have made : a.factorial = .ok (a.adding [.factorial] a.isDividing) := by
    unfold Scan.factorial
    rw [last]
    cases t <;> first | exact absurd rfl other | rfl | cases ends
  refine advances_of_lexeme (by decide) (Nat.le_refl _) fun _ allowed _ => ⟨Shorter.all cs, rfl, ?_⟩
  have read : a.exclamation allowed cs =
      .ok (a.adding [.factorial] a.isDividing, Shorter.all cs) := by
    unfold exclamation
    split
    · next same => exact absurd same behind
    · rw [made]
      rfl
  rw [lexeme, if_neg (by decide), show CharClass.of '!' = .exclamation by decide]
  simp only [read, outcome_ofExcept]

/-- The symbols of the operators of expressions. -/
def expressionSymbols : List Char :=
  ['^', '*', '/', '÷', '\\', '⦼', '-', '+', '<', '>', '≤', '≥', '≡', '≠', '∧', '∨', '⊕']

theorem advances_operator (known : symbol ∈ expressionSymbols) (closed : a.inDivisor = false)
    (operand : a.expectsOperand = false)
    (behind : cs.head? ≠ some '=' ∨ longOperators.lookup symbol = none) :
    Advances s a (symbol :: cs) (a.adding [.ofSymbol symbol] (isDivision symbol)) cs := by
  have classes : ∀ c ∈ expressionSymbols, CharClass.of c = .operator ∧ Text.isBlank c = false ∧
      (c == '=') = false ∧ (c == middleDot) = false := by
    simp only [CharClass.of, isUnitChar, Text.isAlphabetic, Text.inSpans_eq]
    decide +kernel
  obtain ⟨begins, noBlank, noAssignment, noDot⟩ := classes symbol known
  -- The sign is not the beginning of a longer one.
  have short : operatorAt symbol cs = (symbol, Shorter.all cs) := by
    unfold operatorAt
    split
    · next long first => simp_all
    · rw [noDot]
      rfl
  have made (allowed : Bool) :
      a.operator allowed symbol = .ok (a.adding [.ofSymbol symbol] (isDivision symbol)) := by
    simp [operator, operand, noAssignment, closeDivisor, closed, adding, push]
  refine advances_of_lexeme (by rw [begins]; decide) (Nat.le_refl _) fun _ allowed _ =>
    ⟨Shorter.all cs, rfl, ?_⟩
  rw [lexeme, noBlank, if_neg (by decide), begins]
  simp only [short, made]
  rfl

theorem advances_negation (operand : a.expectsOperand = true) (cs : List Char) :
    Advances s a ('-' :: cs) (a.adding [.negation Token.unordered] a.isDividing) cs := by
  have made (allowed : Bool) : a.operator allowed '-' =
      .ok (a.adding [.negation Token.unordered] a.isDividing) := by
    simp [operator, operand, adding, push]
  have short : operatorAt '-' cs = ('-', Shorter.all cs) := by
    unfold operatorAt
    split
    · next same _ => cases same
    · rfl
  refine advances_of_lexeme (by decide) (Nat.le_refl _) fun _ allowed _ => ⟨Shorter.all cs, rfl, ?_⟩
  rw [lexeme, if_neg (by decide), show CharClass.of '-' = .operator by decide]
  simp only [short, made]
  rfl

/-! ## Parts of expressions -/

/-- Characters that may stand behind an operand: none of them goes on with it. -/
def Ends (cs : List Char) : Prop :=
  ∀ c ∈ cs.head?, c ∈ [' ', ')', ';', '!', '^']

theorem Ends.ne_some (ends : Ends after) (other : c ∉ [' ', ')', ';', '!', '^']) :
    after.head? ≠ some c :=
  fun same => other (ends c same)

/-- A text is read into some tokens wherever an operand may stand. -/
def Lexes (s : Session) (text : List Char) (ts : List Token) : Prop :=
  ∀ (a : Scan) (after : List Char), a.inDivisor = false → a.expectsOperand = true → Ends after →
    ∃ divides, Advances s a (text ++ after) (a.adding ts divides) after

theorem isBlank_of_isNumberChar (digit : isNumberChar c = true) : Text.isBlank c = false :=
  Text.isBlank_of_class digit (by decide +kernel)

/-- A text without blanks is not trimmed. -/
theorem trimList_of_noBlank (noBlank : ∀ c ∈ cs, Text.isBlank c = false) :
    Text.trimList cs = cs := by
  have kept (cs : List Char) (noBlank : ∀ c ∈ cs, Text.isBlank c = false) :
      Text.trimStart cs = cs := by
    cases cs with
    | nil => rfl
    | cons c cs => exact List.dropWhile_cons_of_neg (by simp [noBlank c List.mem_cons_self])
  rw [Text.trimList, kept cs noBlank, Text.trimEnd, kept cs.reverse, List.reverse_reverse]
  exact fun c within => noBlank c (List.mem_reverse.1 within)

/-- A number is read as it is written. -/
theorem lexes_number {digits : String} {x : Float} (read : Scalar.read digits = some x)
    (areDigits : ∀ c ∈ digits.toList, isNumberChar c = true) (written : digits.toList ≠ []) :
    Lexes s digits.toList [.constant (some (.real x)) digits] := by
  intro a after _ _ ends
  refine ⟨a.isDividing, ?_⟩
  obtain ⟨c, w, same⟩ := List.exists_cons_of_ne_nil written
  obtain rfl : digits = String.ofList (c :: w) := by rw [← same, String.ofList_toList]
  rw [same, List.forall_mem_cons] at areDigits
  rw [same, List.cons_append]
  have others : ∀ d ∈ [' ', ')', ';', '!', '^'], isNumberChar d = false ∧ d ≠ 'i' := by decide
  obtain ⟨taken, dropped⟩ := span_append areDigits.2 fun d first => (others d (ends d first)).1
  have value : readNumber (c :: w) = .ok x := by
    have trimmed : Text.trimList (c :: w) = c :: w := trimList_of_noBlank fun d within =>
      isBlank_of_isNumberChar <|
        List.forall_mem_cons (p := (isNumberChar · = true)).2 areDigits d within
    simp only [readNumber, trimmed, read]
  -- Nothing behind the digits makes the number imaginary.
  have unmarked : isImaginaryMark after = false := by
    cases after with
    | nil => rfl
    | cons d after =>
      have other := (others d (ends d rfl)).2
      unfold isImaginaryMark
      split <;> simp_all
  have made (complex : Bool) : a.number complex c (w ++ after) =
      .ok (a.adding [.constant (some (.real x)) (String.ofList (c :: w))] a.isDividing,
        Shorter.skip isNumberChar (w ++ after)) := by
    have behind : (Shorter.skip isNumberChar (w ++ after)).1 = after := dropped
    simp only [number, taken, value, behind, unmarked, Bool.and_false]
    rfl
  have begins : CharClass.of c = .digit := by
    have digit : (c.isDigit || c == '.') = true := areDigits.1
    simp [CharClass.of, digit]
  refine advances_of_lexeme (by rw [begins]; decide) (by simp) fun _ _ _ =>
    ⟨Shorter.skip isNumberChar (w ++ after), dropped, ?_⟩
  rw [lexeme, isBlank_of_isNumberChar areDigits.1, if_neg (by decide), begins]
  simp only [outcome_read, made]

/-- Words are read up to a character that does not go on with them. -/
theorem advances_word {name : String} (isWord : isWord name = true)
    (ends : ∀ d ∈ after.head?, isWordChar d = false)
    (named : ∀ c, name.toList.head? = some c → outcome (a.name c name after) s = (.ok b, s)) :
    Advances s a (name.toList ++ after) b after where
  shorter := by simp
  same create allowed within within' := by
    obtain ⟨c, w, rfl, begins, first, inside⟩ := exists_of_isWord isWord
    have chars : (String.ofList (c :: w)).toList ++ after = c :: (w ++ after) := by simp
    rw [run_chars chars within (chars ▸ within)]
    exact run_word begins first inside ends (named c (by simp)) _ within'

/-- A variable is read as the cell that it has. -/
theorem lexes_variable {name : String} {id : CellId} (isName : isName name = true)
    (known : s.cellNames.lookup name = some id) :
    Lexes s name.toList [.variable (some id) name] := by
  intro a after _ expects ends
  refine ⟨a.isDividing, advances_word (isWord_of_isName isName) ?_ ?_⟩
  · have others : ∀ d ∈ [' ', ')', ';', '!', '^'], isWordChar d = false := by decide +kernel
    exact fun d first => others d (ends d first)
  · intro c first
    obtain ⟨d, w, rfl, letter, -⟩ := exists_of_isName isName
    obtain rfl : d = c := by simpa using first
    have cell : s.cellOf (String.ofList (d :: w)) = (id, s) := by
      unfold Session.cellOf
      rw [known]
    -- No bracket follows, so the word is no function, and no number stands before it.
    have plain : a.name d (String.ofList (d :: w)) after =
        a.variableName (String.ofList (d :: w)) := by
      unfold Scan.name
      split
      · next same => exact absurd same (ends.ne_some (by decide))
      · next same => exact absurd same (ends.ne_some (by decide))
      · simp [not_takesUnit expects, letter]
    rw [plain, variableName, outcome_bind_ok (outcome_get s), cell]
    rfl

namespace Lexes

variable (lexes : Lexes s text ts) (lexes' : Lexes s text' ts')

include lexes

/-- A minus where an operand may stand is a sign. -/
theorem negation : Lexes s ('-' :: text) (.negation Token.unordered :: ts) := by
  intro a after closed expects ends
  have sign := advances_negation (s := s) expects (text ++ after)
  obtain ⟨divides, operand⟩ := lexes (a.adding [.negation Token.unordered] a.isDividing) after
    closed (expects_adding rfl) ends
  refine ⟨divides, ?_⟩
  rw [adding_adding] at operand
  exact sign.trans operand

theorem factorial (last : ts.getLast? = some t) (operand : t.endsOperand = true)
    (other : t ≠ .factorial) : Lexes s (text ++ ['!']) (ts ++ [.factorial]) := by
  intro a after closed expects ends
  obtain ⟨divides, front⟩ := lexes a ('!' :: after) closed expects (by simp [Ends])
  -- What was read last decides whether the sign is a factorial.
  have before : (a.adding ts divides).last? = some t := last?_adding last
  have sign := advances_factorial (s := s) before operand other (ends.ne_some (by decide))
  refine ⟨(a.adding ts divides).isDividing, ?_⟩
  have both := front.trans sign
  rw [adding_adding] at both
  simpa using both

/-- A text between brackets. -/
theorem bracket : Lexes s ('(' :: (text ++ [')'])) (.openBracket :: (ts ++ [.closeBracket])) := by
  intro a after closed expects ends
  have opens := advances_openBracket s a (text ++ ')' :: after)
  obtain ⟨divides, inside⟩ := lexes (a.adding [.openBracket] false) (')' :: after) closed
    (expects_adding rfl) (by simp [Ends])
  have closes := advances_closeBracket (s := s)
    (a := (a.adding [.openBracket] false).adding ts divides) closed after
  refine ⟨false, ?_⟩
  simp only [adding_adding] at inside closes
  simpa using (opens.trans inside).trans closes

/-- A text between the brackets of a call. -/
theorem call {name : String} (isWord : isWord name = true)
    (known : functionToken? s name = some t) :
    Lexes s (name.toList ++ '(' :: (text ++ [')']))
      (t :: .openBracket :: (ts ++ [.closeBracket])) := by
  intro a after closed expects ends
  have calls : Advances s a (name.toList ++ '(' :: (text ++ ')' :: after))
      (a.adding [t] a.isDividing) ('(' :: (text ++ ')' :: after)) := by
    refine advances_word isWord ?_ fun c _ => ?_
    · rintro d first
      cases first
      decide +kernel
    · have called : a.function s name = .ok (a.adding [t] a.isDividing) := by
        unfold Scan.function
        rw [known]
        rfl
      simp only [Scan.name, List.head?_cons, outcome_read, called]
  have opens := advances_openBracket s (a.adding [t] a.isDividing) (text ++ ')' :: after)
  obtain ⟨divides, inside⟩ := lexes ((a.adding [t] a.isDividing).adding [.openBracket] false)
    (')' :: after) closed (expects_adding rfl) (by simp [Ends])
  have closes := advances_closeBracket (s := s)
    (a := ((a.adding [t] a.isDividing).adding [.openBracket] false).adding ts divides) closed after
  refine ⟨false, ?_⟩
  simp only [adding_adding] at opens inside closes
  simpa using ((calls.trans opens).trans inside).trans closes

include lexes'

/-- Arguments with a separator between them. -/
theorem arguments : Lexes s (text ++ ';' :: ' ' :: text') (ts ++ .separator :: ts') := by
  intro a after closed expects ends
  obtain ⟨divides, first⟩ := lexes a (';' :: ' ' :: (text' ++ after)) closed expects
    (by simp [Ends])
  have separates := advances_separator (s := s) (a := a.adding ts divides) closed
    (' ' :: (text' ++ after))
  have blank := advances_blank s ((a.adding ts divides).adding [.separator] false) (text' ++ after)
  obtain ⟨divides', others⟩ := lexes' ((a.adding ts divides).adding [.separator] false) after closed
    (expects_adding rfl) ends
  refine ⟨divides', ?_⟩
  simp only [adding_adding] at first separates blank others
  simpa using ((first.trans separates).trans blank).trans others

/-- A power is written without blanks. -/
theorem power (last : ts.getLast? = some t) (operand : t.endsOperand = true) :
    Lexes s (text ++ '^' :: text') (ts ++ .ofSymbol '^' :: ts') := by
  intro a after closed expects ends
  obtain ⟨divides, base⟩ := lexes a ('^' :: (text' ++ after)) closed expects (by simp [Ends])
  have sign : Advances s (a.adding ts divides) ('^' :: (text' ++ after)) _ (text' ++ after) :=
    advances_operator (by decide) closed (complete_adding last operand) (.inr (by decide))
  obtain ⟨divides', exponent⟩ :=
    lexes' ((a.adding ts divides).adding [.ofSymbol '^'] (isDivision '^')) after closed
      (expects_adding rfl) ends
  refine ⟨divides', ?_⟩
  simp only [adding_adding] at sign exponent
  simpa using (base.trans sign).trans exponent

/-- Operands with an operator between them. -/
theorem binary (known : symbol ∈ expressionSymbols) (last : ts.getLast? = some t)
    (operand : t.endsOperand = true) :
    Lexes s (text ++ ' ' :: symbol :: ' ' :: text') (ts ++ .ofSymbol symbol :: ts') := by
  intro a after closed expects ends
  obtain ⟨divides, left⟩ := lexes a (' ' :: symbol :: ' ' :: (text' ++ after)) closed expects
    (by simp [Ends])
  have blank := advances_blank s (a.adding ts divides) (symbol :: ' ' :: (text' ++ after))
  have sign : Advances s (a.adding ts divides) (symbol :: ' ' :: (text' ++ after)) _
      (' ' :: (text' ++ after)) :=
    advances_operator known closed (complete_adding last operand) (.inl (by simp))
  have blank' := advances_blank s
    ((a.adding ts divides).adding [.ofSymbol symbol] (isDivision symbol)) (text' ++ after)
  obtain ⟨divides', right⟩ :=
    lexes' ((a.adding ts divides).adding [.ofSymbol symbol] (isDivision symbol)) after closed
      (expects_adding rfl) ends
  refine ⟨divides', ?_⟩
  simp only [adding_adding] at sign blank' right
  simpa using (((left.trans blank).trans sign).trans blank').trans right

end Lexes

end Scan

end UnitCalc

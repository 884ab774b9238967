/-
# Evaluating respelled statements

Statements whose operators are written differently are read into the same tokens, and evaluating
them is the same. A unit with a sign that begins a statement is left out: it may be about to be
defined, which the next sign tells.

## Main definitions

* `Statement.beginsWithSign`: the text begins with a unit that is no word.
* `Scan.Follows`: two scans have read the same in front of respelled texts.

## Main results

* `Scan.run_respelled`: respelled texts are scanned to the same tokens.
* `SessionM.evaluate_respelled`: respelled statements are evaluated in the same way.
-/

import UnitCalc.Proofs.Session.Parallel
import UnitCalc.Proofs.Statement.Respelled
import UnitCalc.Proofs.Statement.Scan
import UnitCalc.Proofs.Statement.Widening
import UnitCalc.Session.Evaluation

namespace UnitCalc

open SessionM

/-- The text begins with a unit whose first character is no letter. -/
def Statement.beginsWithSign (text : List Char) : Bool :=
  (Text.trimStart text).head?.any fun c => CharClass.of c = .letter && !Text.isAlphabetic c

namespace Scan

variable {a a' : Scan} {allowed : Bool} {c : Char} {rest rest' : List Char}

/-- Two scans have read the same, and something. -/
def SameRead (b b' : Scan) : Prop :=
  b = b' ∧ b.reversed ≠ []

/-- Two scans have read the same, and something, in front of respelled texts. -/
def Follows {n n' : Nat} (r : Scan × Shorter n) (r' : Scan × Shorter n') : Prop :=
  SameRead r.1 r'.1 ∧ Respelled r.2.1 r'.2.1

/-! ## What is added -/

theorem ne_nil_of_assign (made : a.assign allowed = .ok a') : a'.reversed ≠ [] := by
  unfold assign at made
  split at made <;> cases made
  exact List.cons_ne_nil _ _

theorem sameRead_push (a : Scan) (t : Token) : SameRead (a.push t) (a.push t) :=
  ⟨rfl, List.cons_ne_nil _ _⟩

theorem sameRead_operator (a : Scan) (allowed : Bool) (symbol : Char) :
    Agree SameRead (a.operator allowed symbol) (a.operator allowed symbol) := by
  refine .self _ fun b made => ⟨rfl, ?_⟩
  unfold operator at made
  split at made
  · cases made
    exact List.cons_ne_nil _ _
  · dsimp only at made
    split at made
    · exact ne_nil_of_assign made
    · cases made
      exact List.cons_ne_nil _ _

theorem sameRead_factorial (a : Scan) : Agree SameRead a.factorial a.factorial := by
  refine .self _ fun b made => ⟨rfl, ?_⟩
  unfold factorial at made
  split at made <;> cases made <;> exact List.cons_ne_nil _ _

theorem sameRead_function (a : Scan) (session : Session) (name : String) :
    Agree SameRead (a.function session name) (a.function session name) := by
  refine .self _ fun b made => ⟨rfl, ?_⟩
  unfold function at made
  split at made
  · cases made
    exact List.cons_ne_nil _ _
  · split at made <;> cases made
    exact List.cons_ne_nil _ _

/-! ## Lexemes -/

theorem isImaginaryMark_cons (c : Char) (cs : List Char) :
    isImaginaryMark (c :: cs) = decide (c = 'i' ∧ cs.head? ≠ some 'n') := by
  rcases Decidable.em (c = 'i') with rfl | other
  · cases cs with
    | nil => rfl
    | cons d cs =>
      rcases Decidable.em (d = 'n') with rfl | letter
      · rfl
      · simp [isImaginaryMark, letter]
  · simp [isImaginaryMark, other]

theorem not_isImaginaryMark (other : c ≠ 'i') (cs : List Char) :
    isImaginaryMark (c :: cs) = false := by
  rw [isImaginaryMark_cons, decide_eq_false_iff_not]
  exact fun imaginary => other imaginary.1

theorem isImaginaryMark_respelled (respelled : Respelled rest rest') :
    isImaginaryMark rest = isImaginaryMark rest' ∧
      (isImaginaryMark rest = true → Respelled rest.tail rest'.tail) := by
  cases respelled with
  | refl => exact ⟨rfl, fun _ => .refl _⟩
  | char plain question joins rest =>
    have next := rest.head?_iff (c := 'n') (by decide)
    rw [isImaginaryMark_cons, isImaginaryMark_cons]
    exact ⟨by simp only [ne_eq, next], fun _ => rest⟩
  | enclosed enclosed =>
    obtain ⟨d, front, rfl, within⟩ := enclosed.exists_cons
    have other : d ≠ 'i' := by
      rintro rfl
      exact absurd within (by decide)
    rw [List.cons_append, List.cons_append, not_isImaginaryMark other, not_isImaginaryMark other]
    exact ⟨rfl, nofun⟩
  | operator spelled =>
    obtain ⟨d, rest, rfl, within, within'⟩ := exists_cons_of_spelled spelled
    have other {sign : Char} (within : sign ∈ spelledSigns) : sign ≠ 'i' := by
      rintro rfl
      exact absurd within (by decide)
    rw [List.cons_append, not_isImaginaryMark (other within), not_isImaginaryMark (other within')]
    exact ⟨rfl, nofun⟩

theorem number_respelled (complex : Bool) (respelled : Respelled rest rest') (c : Char)
    (a : Scan) : Agree Follows (a.number complex c rest) (a.number complex c rest') := by
  obtain ⟨digits, after⟩ := respelled.dropWhile (p := isNumberChar) (by decide +kernel)
  obtain ⟨mark, tail⟩ := isImaginaryMark_respelled after
  unfold number
  dsimp only [Shorter.skip]
  rw [digits, mark]
  refine .bind (.self (R := Eq) _ fun _ _ => rfl) ?_
  rintro x - rfl
  split
  · next imaginary =>
    exact .ok ⟨sameRead_push _ _, tail (mark.trans (Bool.and_eq_true_iff.1 imaginary).2)⟩
  · exact .ok ⟨sameRead_push _ _, after⟩

theorem name_respelled (respelled : Respelled rest rest')
    (read : a.reversed ≠ [] ∨ Text.isAlphabetic c = true) (text : String) :
    Parallel Eq SameRead (a.name c text rest) (a.name c text rest') := by
  have dollar := respelled.head?_iff (c := '$') (by decide)
  have bracket := respelled.head?_iff (c := '(') (by decide)
  rw [name_eq, name_eq]
  simp only [dollar, bracket]
  split
  · exact .throw _
  · split
    · exact .readHere fun session => a.sameRead_function session text
    · split
      · refine .bind (.refl _) ?_
        rintro u - rfl
        exact .pure (sameRead_push _ _)
      · split
        · refine .bind (.refl _) ?_
          rintro session - rfl
          refine .bind (.refl _) fun _ _ _ => .pure (sameRead_push _ _)
        · next letter =>
          have empty : a.reversed.isEmpty = false := by
            rw [← Bool.not_eq_true, List.isEmpty_iff]
            exact read.resolve_right letter
          have signed (session : Session) (rest : List Char) :
              a.signedUnit session text rest = (unitToken session text).map a.push := by
            unfold signedUnit
            rw [empty]
            rfl
          refine .readHere fun session => ?_
          rw [signed, signed]
          cases unitToken session text with
          | error e => exact .error e
          | ok u => exact .ok (sameRead_push _ _)

theorem word_respelled (respelled : Respelled rest rest')
    (read : a.reversed ≠ [] ∨ Text.isAlphabetic c = true) :
    Parallel Eq Follows (a.word c rest) (a.word c rest') := by
  obtain ⟨letters, after⟩ := respelled.dropWhile (p := isWordChar) (by decide +kernel)
  unfold word
  dsimp only [Shorter.skip]
  rw [letters]
  split
  · exact .throw _
  · exact .bind (name_respelled after read _) fun _ _ same => .pure ⟨same, after⟩

theorem operatorAt_joined {long : Char} (found : longOperators.lookup c = some long)
    (equality : rest.head? = some '=') :
    operatorAt c rest = (long, (Shorter.all rest).tail) := by
  rw [operatorAt, found, equality]
  rfl

theorem operatorAt_alone (alone : longOperators.lookup c = none ∨ rest.head? ≠ some '=') :
    operatorAt c rest = (if c == middleDot then '*' else c, .all rest) := by
  unfold operatorAt
  split
  · next found equality =>
    simp [found, equality] at alone
  · rfl

theorem operatorAt_respelled (respelled : Respelled rest rest')
    (joins : c ∈ joiningSigns → (rest.head? = some '=' ↔ rest'.head? = some '=')) :
    (operatorAt c rest).1 = (operatorAt c rest').1 ∧
      Respelled (operatorAt c rest).2.1 (operatorAt c rest').2.1 := by
  cases found : longOperators.lookup c with
  | none =>
    rw [operatorAt_alone (.inl found), operatorAt_alone (.inl found)]
    exact ⟨rfl, respelled⟩
  | some long =>
    have within : c ∈ joiningSigns := by
      obtain ⟨before, behind, listed, -⟩ := List.lookup_eq_some_iff.1 found
      have all : ∀ p ∈ longOperators, p.1 ∈ joiningSigns := by decide
      exact all (c, long) (listed ▸ List.mem_append_right _ List.mem_cons_self)
    rcases Decidable.em (rest'.head? = some '=') with equality | alone
    · rw [operatorAt_joined found equality, operatorAt_joined found ((joins within).2 equality)]
      exact ⟨rfl, respelled.tail equality⟩
    · have alone' := fun equality => alone ((joins within).1 equality)
      rw [operatorAt_alone (.inr alone), operatorAt_alone (.inr alone')]
      exact ⟨rfl, respelled⟩

theorem exclamation_respelled (respelled : Respelled rest rest')
    (joins : rest.head? = some '=' ↔ rest'.head? = some '=') (a : Scan) :
    Agree Follows (a.exclamation allowed rest) (a.exclamation allowed rest') := by
  have joined {rest : List Char} (equality : rest.head? = some '=') :
      a.exclamation allowed rest = do
        return (← a.operator allowed '≠', (Shorter.all rest).tail) := by
    unfold exclamation
    rw [equality]
    rfl
  have alone {rest : List Char} (other : rest.head? ≠ some '=') :
      a.exclamation allowed rest = do return (← a.factorial, .all rest) := by
    unfold exclamation
    split
    · next equality => exact absurd equality other
    · rfl
  rcases Decidable.em (rest'.head? = some '=') with equality | other
  · rw [joined equality, joined (joins.2 equality)]
    exact .bind (a.sameRead_operator _ _) fun _ _ same => .ok ⟨same, respelled.tail equality⟩
  · rw [alone other, alone fun h => other (joins.1 h)]
    exact .bind a.sameRead_factorial fun _ _ same => .ok ⟨same, respelled⟩

theorem input_respelled (respelled : Respelled rest rest') (line : rest.head? ≠ some '{')
    (a : Scan) : Parallel Eq Follows (a.input rest) (a.input rest') := by
  have line' : rest'.head? ≠ some '{' := fun brace =>
    line ((respelled.head?_iff (by decide)).2 brace)
  unfold input
  split
  · exact absurd rfl line
  · split
    · exact absurd rfl line'
    · refine .bind (.refl _) ?_
      rintro session - rfl
      split
      · refine .bind (.refl _) fun _ _ _ => .bind (.refl _) ?_
        rintro x - rfl
        exact .pure ⟨sameRead_push _ _, respelled⟩
      · exact .pure ⟨sameRead_push _ _, respelled⟩

theorem eq_of_exclamation (class_ : CharClass.of c = .exclamation) : c = '!' := by
  unfold CharClass.of at class_
  split_ifs at class_ with digit mark
  exact beq_iff_eq.1 mark

variable {limit : Nat} {create : Method → Shorter limit → SessionM Nat}

theorem lexeme_char (visible : Text.isBlank c = false) (plain : c ≠ '$')
    (question : c = '?' → rest.head? ≠ some '{')
    (joins : c ∈ joiningSigns → (rest.head? = some '=' ↔ rest'.head? = some '='))
    (respelled : Respelled rest rest')
    (read : CharClass.of c = .letter → a.reversed ≠ [] ∨ Text.isAlphabetic c = true)
    (within : rest.length < limit) (within' : rest'.length < limit) :
    Parallel Eq Follows (a.lexeme limit create allowed c rest within)
      (a.lexeme limit create allowed c rest' within') := by
  unfold Scan.lexeme
  rw [if_neg (by rw [visible]; decide), if_neg (by rw [visible]; decide)]
  cases class_ : CharClass.of c with
  | digit => exact .readHere fun session => number_respelled session.settings.complex respelled c a
  | letter => exact word_respelled respelled (read class_)
  | operator =>
    obtain ⟨same, after⟩ := operatorAt_respelled respelled joins
    dsimp only
    rw [same]
    exact .bind (.result (a.sameRead_operator _ _)) fun _ _ same => .pure ⟨same, after⟩
  | exclamation =>
    have within : c ∈ joiningSigns := by
      rw [eq_of_exclamation class_]
      decide
    exact .result (exclamation_respelled respelled (joins within) a)
  | openBracket => exact .pure ⟨sameRead_push _ _, respelled⟩
  | closeBracket => exact .pure ⟨sameRead_push _ _, respelled⟩
  | separator => exact .pure ⟨sameRead_push _ _, respelled⟩
  | block => exact absurd ((eq_of_class c).1 class_) plain
  | input => exact input_respelled respelled (question ((eq_of_class c).2 class_)) a
  | stop | unknown => exact .throw _

theorem lexeme_operator (visible : Text.isBlank c = false) (class_ : CharClass.of c = .operator)
    (within : rest.length < limit) :
    a.lexeme limit create allowed c rest within = do
      return (← ofExcept (a.operator allowed (operatorAt c rest).1), (operatorAt c rest).2) := by
  unfold Scan.lexeme
  rw [if_neg (by rw [visible]; decide), class_]

theorem lexeme_exclamation (within : rest.length < limit) :
    a.lexeme limit create allowed '!' rest within = ofExcept (a.exclamation allowed rest) := by
  unfold Scan.lexeme
  rw [if_neg (by decide), show CharClass.of '!' = .exclamation by decide]

/-- The first lexeme of a text is an operator, in front of some characters. -/
structure BeginsWith (sign c : Char) (rest after : List Char) : Prop where
  goes : CharClass.of c ≠ .stop
  reads : ∃ left : Shorter (rest.length + 1), left.1 = after ∧ ∀ {limit : Nat}
    (create : Method → Shorter limit → SessionM Nat) (allowed : Bool) (a : Scan)
    (within : rest.length < limit), a.lexeme limit create allowed c rest within = do
      return (← ofExcept (a.operator allowed sign), left)

theorem beginsWith_joined {long : Char} (found : (c, long) ∈ longOperators) (cs : List Char) :
    BeginsWith long c ('=' :: cs) cs := by
  have facts : ∀ p ∈ longOperators, Text.isBlank p.1 = false ∧ CharClass.of p.1 = .operator ∧
    longOperators.lookup p.1 = some p.2 := by decide
  obtain ⟨visible, class_, found⟩ := facts _ found
  refine ⟨by rw [class_]; decide, (Shorter.all _).tail, rfl, fun create allowed a within => ?_⟩
  rw [lexeme_operator visible class_, operatorAt_joined found rfl]

theorem beginsWith_exclamation (cs : List Char) : BeginsWith '≠' '!' ('=' :: cs) cs := by
  refine ⟨by decide, (Shorter.all _).tail, rfl, fun create allowed a within => ?_⟩
  rw [lexeme_exclamation]
  unfold exclamation
  cases a.operator allowed '≠' <;> rfl

theorem beginsWith_alone (visible : Text.isBlank c = false) (class_ : CharClass.of c = .operator)
    (alone : longOperators.lookup c = none) (cs : List Char) :
    BeginsWith (if c == middleDot then '*' else c) c cs cs := by
  refine ⟨by rw [class_]; decide, Shorter.all _, rfl, fun create allowed a within => ?_⟩
  rw [lexeme_operator visible class_, operatorAt_alone (.inl alone)]

/-- However an operator is written, it is the same. -/
theorem beginsWith_of_spelled {front : List Char} {sign : Char}
    (spelled : (c :: front, sign) ∈ spellings) (cs cs' : List Char) :
    BeginsWith sign c (front ++ cs) cs ∧ BeginsWith sign sign cs' cs' := by
  have facts : ∀ p ∈ spellings, Text.isBlank p.2 = false ∧ CharClass.of p.2 = .operator ∧
    longOperators.lookup p.2 = none ∧ (p.2 == middleDot) = false := by decide
  obtain ⟨visible, class_, alone, other⟩ := facts _ spelled
  have single := beginsWith_alone visible class_ alone cs'
  rw [if_neg (by rw [other]; decide)] at single
  refine ⟨?_, single⟩
  simp only [spellings, List.mem_cons, List.not_mem_nil, or_false, Prod.mk.injEq,
    List.cons.injEq] at spelled
  rcases spelled with ⟨⟨rfl, rfl⟩, rfl⟩ | ⟨⟨rfl, rfl⟩, rfl⟩ | ⟨⟨rfl, rfl⟩, rfl⟩ |
    ⟨⟨rfl, rfl⟩, rfl⟩ | ⟨⟨rfl, rfl⟩, rfl⟩
  · exact beginsWith_joined (by decide) cs
  · exact beginsWith_joined (by decide) cs
  · exact beginsWith_joined (by decide) cs
  · exact beginsWith_exclamation cs
  · exact beginsWith_alone (c := middleDot) (by decide) (by decide) (by decide) cs

theorem BeginsWith.parallel {sign c' : Char} {after after' : List Char}
    (begins : BeginsWith sign c rest after) (begins' : BeginsWith sign c' rest' after')
    (respelled : Respelled after after') (within : rest.length < limit)
    (within' : rest'.length < limit) :
    Parallel Eq Follows (a.lexeme limit create allowed c rest within)
      (a.lexeme limit create allowed c' rest' within') := by
  obtain ⟨left, rfl, same⟩ := begins.reads
  obtain ⟨left', rfl, same'⟩ := begins'.reads
  rw [same, same']
  exact .bind (.result (a.sameRead_operator _ _)) fun _ _ same => .pure ⟨same, respelled⟩

theorem block_eq (create : Method → Shorter limit → SessionM Nat)
    {key body inside after : List Char} (opened : Text.cutAt '{' rest = (key, some body))
    (closed : Text.braced 0 body = some (inside, after)) (within : rest.length < limit)
    (a : Scan) : ∃ (shorter : inside.length < limit) (fits : after.length < rest.length + 1),
      a.block limit create rest within =
        (Method.ofKeyword? (Text.trim (String.ofList key))).elim
          (throw (.unknownMethod ("$" ++ Text.trim (String.ofList key)))) fun method => do
            let index ← create method ⟨inside, shorter⟩
            return (a.push (.block index method.name), ⟨after, fits⟩) := by
  have shorter := (Text.length_cutAt '{' rest).2 body (by rw [opened]; rfl)
  have parts := Text.length_braced closed
  refine ⟨by omega, by omega, ?_⟩
  unfold block
  split
  · next unopened =>
    rw [opened] at unopened
    cases unopened
  · next body' opened' =>
    obtain rfl : body = body' := by
      rw [opened] at opened'
      exact Option.some.inj opened'
    dsimp only
    rw [show (Text.cutAt '{' rest).1 = key from congrArg Prod.fst opened]
    cases Method.ofKeyword? (Text.trim (String.ofList key)) with
    | none => rfl
    | some method =>
      dsimp only [Option.elim_some]
      split
      · next unclosed =>
        rw [closed] at unclosed
        cases unclosed
      · next inside' after' closed' =>
        rw [closed] at closed'
        cases closed'
        rfl

theorem input_eq {body inside after : List Char}
    (closed : Text.braced 0 body = some (inside, after)) (a : Scan) :
    ∃ fits : after.length < ('{' :: body).length + 1, a.input ('{' :: body) = do
      let x ← ofExcept (readNumber inside)
      return (a.push (.input (some (.real x))), ⟨after, fits⟩) := by
  have parts := Text.length_braced closed
  refine ⟨by rw [List.length_cons]; omega, ?_⟩
  rw [input]
  split
  · next unclosed =>
    rw [closed] at unclosed
    cases unclosed
  · next inside' after' closed' =>
    rw [closed] at closed'
    cases closed'
    rfl

theorem enclosed_parallel {front cs cs' : List Char} (enclosed : IsEnclosed (c :: front))
    (respelled : Respelled cs cs') (within : (front ++ cs).length < limit)
    (within' : (front ++ cs').length < limit) :
    CharClass.of c ≠ .stop ∧
      Parallel Eq Follows (a.lexeme limit create allowed c (front ++ cs) within)
        (a.lexeme limit create allowed c (front ++ cs') within') := by
  generalize same : c :: front = text at enclosed
  unfold Scan.lexeme
  cases enclosed with
  | @block key body inside keyword closed =>
    obtain ⟨rfl, rfl⟩ := List.cons.inj same
    refine ⟨by decide, ?_⟩
    rw [if_neg (by decide), if_neg (by decide), show CharClass.of '$' = .block by decide]
    dsimp only
    have opened (cs : List Char) :
        Text.cutAt '{' (key ++ '{' :: body ++ cs) = (key, some (body ++ cs)) := by
      rw [List.append_assoc, Text.cutAt_append_of_not_mem keyword]
      simp [Text.cutAt]
    obtain ⟨shorter, fits, made⟩ := block_eq create (opened cs)
      (Text.braced_append closed cs) within a
    obtain ⟨shorter', fits', made'⟩ := block_eq create (opened cs')
      (Text.braced_append closed cs') within' a
    rw [made, made']
    cases Method.ofKeyword? (Text.trim (String.ofList key)) with
    | none => exact .throw _
    | some method =>
      refine .bind (.refl _) ?_
      rintro index - rfl
      exact .pure ⟨sameRead_push _ _, respelled⟩
  | @input body inside closed =>
    obtain ⟨rfl, rfl⟩ := List.cons.inj same
    refine ⟨by decide, ?_⟩
    rw [if_neg (by decide), if_neg (by decide), show CharClass.of '?' = .input by decide]
    dsimp only
    obtain ⟨fits, made⟩ := input_eq (Text.braced_append closed cs) a
    obtain ⟨fits', made'⟩ := input_eq (Text.braced_append closed cs') a
    rw [List.cons_append, List.cons_append, made, made']
    refine .bind (.refl _) ?_
    rintro x - rfl
    exact .pure ⟨sameRead_push _ _, respelled⟩

theorem run_blank (goes : CharClass.of c ≠ .stop) (blank : Text.isBlank c = true)
    (within : (c :: rest).length ≤ limit) :
    run limit create allowed (c :: rest) within a =
      run limit create allowed rest (Nat.le_of_succ_le within) a := by
  rw [run, if_neg goes]
  unfold Scan.lexeme
  rw [if_pos blank]
  rfl

theorem beginsWithSign_blank (blank : Text.isBlank c = true) (rest : List Char) :
    Statement.beginsWithSign (c :: rest) = Statement.beginsWithSign rest := by
  rw [Statement.beginsWithSign, Text.trimStart, List.dropWhile_cons_of_pos blank]
  rfl

theorem beginsWithSign_visible (visible : Text.isBlank c = false) (rest : List Char) :
    Statement.beginsWithSign (c :: rest) =
      (decide (CharClass.of c = .letter) && !Text.isAlphabetic c) := by
  rw [Statement.beginsWithSign, Text.trimStart,
    List.dropWhile_cons_of_neg (by rw [visible]; decide)]
  rfl

/-- Respelled texts are scanned to the same tokens. -/
theorem run_respelled {cs cs' : List Char} (respelled : Respelled cs cs')
    (begins : a.reversed = [] → Statement.beginsWithSign cs = false) (within : cs.length ≤ limit)
    (within' : cs'.length ≤ limit) :
    Parallel Eq Eq (run limit create allowed cs within a)
      (run limit create allowed cs' within' a) := by
  -- Strong induction: a lexeme may take more than one character.
  induction length : cs.length using Nat.strongRecOn generalizing cs cs' a with
  | ind n ih =>
    have step {c c' : Char} {rest rest' : List Char} (length : rest.length + 1 = n)
        (goes : CharClass.of c ≠ .stop) (goes' : CharClass.of c' ≠ .stop)
        (within : (c :: rest).length ≤ limit) (within' : (c' :: rest').length ≤ limit)
        (reads : Parallel Eq Follows (a.lexeme limit create allowed c rest within)
          (a.lexeme limit create allowed c' rest' within')) :
        Parallel Eq Eq (run limit create allowed (c :: rest) within a)
          (run limit create allowed (c' :: rest') within' a) := by
      rw [run, run, if_neg goes, if_neg goes']
      refine .bind reads ?_
      rintro ⟨b, after⟩ ⟨b', after'⟩ ⟨⟨same, read⟩, respelled⟩
      obtain rfl : b = b' := same
      exact ih after.1.length (length ▸ after.2) respelled (fun none => absurd none read) _ _ rfl
    cases respelled with
    | refl => exact .refl _
    | @char c rest rest' plain question joins respelled =>
      rcases Decidable.em (CharClass.of c = .stop) with stops | goes
      · rw [run, run, if_pos stops, if_pos stops]
        exact .refl _
      · rcases Bool.eq_false_or_eq_true (Text.isBlank c) with blank | visible
        · rw [run_blank goes blank, run_blank goes blank]
          refine ih rest.length (length ▸ Nat.lt_succ_self _) respelled (fun empty => ?_) _ _ rfl
          rw [← beginsWithSign_blank blank]
          exact begins empty
        · refine step length goes goes within within'
            (lexeme_char visible plain.1 question joins respelled (fun class_ => ?_) within within')
          rw [or_iff_not_imp_left, not_not]
          intro empty
          have letter := begins empty
          rw [beginsWithSign_visible visible, class_] at letter
          simpa using letter
    | @enclosed front rest rest' enclosed bar respelled =>
      obtain ⟨d, front, rfl, -⟩ := enclosed.exists_cons
      obtain ⟨goes, reads⟩ := enclosed_parallel enclosed respelled within within'
      exact step length goes goes within within' reads
    | @operator long rest rest' sign spelled respelled =>
      obtain ⟨d, front, rfl, -⟩ := exists_cons_of_spelled spelled
      obtain ⟨begins, begins'⟩ := beginsWith_of_spelled spelled rest rest'
      exact step length begins.goes begins'.goes within within'
        (begins.parallel begins' respelled _ _)

end Scan

/-! ## Statements -/

namespace Text

theorem withoutComment_prefix (depth : Int) (cs : List Char) : withoutComment depth cs <+: cs := by
  induction cs generalizing depth with
  | nil => exact List.prefix_rfl
  | cons c cs ih =>
    rw [withoutComment]
    split
    · exact List.nil_prefix
    · exact (List.prefix_cons_inj c).2 (ih _)

theorem cutAt_prefix (mark : Char) (cs : List Char) : (cutAt mark cs).1 <+: cs := by
  induction cs with
  | nil => exact List.prefix_rfl
  | cons c cs ih =>
    rw [cutAt]
    split
    · exact List.nil_prefix
    · exact (List.prefix_cons_inj c).2 ih

end Text

namespace Statement

theorem split_prefix (text : List Char) : (split text).1 <+: text :=
  (Text.cutAt_prefix '|' _).trans (Text.withoutComment_prefix 0 text)

theorem beginsWithSign_prefix {front text : List Char} (within : front <+: text)
    (begins : beginsWithSign text = false) : beginsWithSign front = false := by
  obtain ⟨back, rfl⟩ := within
  induction front with
  | nil => rfl
  | cons c front ih =>
    rcases Bool.eq_false_or_eq_true (Text.isBlank c) with blank | visible
    · rw [List.cons_append, Scan.beginsWithSign_blank blank] at begins
      rw [Scan.beginsWithSign_blank blank]
      exact ih begins
    · rwa [List.cons_append, Scan.beginsWithSign_visible visible,
        ← Scan.beginsWithSign_visible visible front] at begins

end Statement

namespace SessionM

/-- Two statements that differ at most in their characters. -/
def SameStatement (a b : Statement) : Prop :=
  a.program = b.program ∧ a.unit = b.unit ∧ a.function = b.function

theorem ofScan_parallel (source source' : List Char) (unit : Option ValueUnit) (scan : Scan) :
    Parallel Eq SameStatement (ofScan source unit scan) (ofScan source' unit scan) := by
  unfold ofScan
  split
  · exact .throw _
  · refine .bind (.refl _) ?_
    rintro ⟨tokens, isDefinition⟩ - rfl
    refine .bind (.refl _) ?_
    rintro session - rfl
    dsimp only
    split
    · exact .throw _
    · refine .bind (.refl _) ?_
      rintro names - rfl
      refine .bind (.refl _) ?_
      rintro session - rfl
      split
      · refine .bind (.refl _) ?_
        rintro index - rfl
        exact .pure ⟨rfl, rfl, rfl⟩
      · refine .bind (.refl _) ?_
        rintro program - rfl
        exact .pure ⟨rfl, rfl, rfl⟩

theorem parseStatement_respelled {text text' : List Char} (respelled : Respelled text text')
    (begins : Statement.beginsWithSign text = false) (allowed : Bool) :
    Parallel Eq SameStatement (parseStatement text allowed) (parseStatement text' allowed) := by
  obtain ⟨expression, unit⟩ := respelled.split
  rw [parseStatement, parseStatement, unit]
  refine .bind (.refl _) ?_
  rintro unit - rfl
  dsimp only
  have le := respelled.length_le
  let parse (n : Nat) (part : Shorter n) (allowed : Bool) : SessionM (List Token) := do
    return (← parseStatement part.1 allowed).program
  have widened : Scan.run _ _ allowed _ _ {} = Scan.run _ _ allowed _ _ {} :=
    Scan.run_widen le (createBlock (parse text.length)) (Statement.length_split text')
      (Nat.le_trans (Statement.length_split text') le) {}
  have same : (fun method script => createBlock (parse text.length) method (script.widen le)) =
      fun method script => createBlock (parse text'.length) method script := by
    funext method script
    rw [createBlock_widen]
    rfl
  rw [same] at widened
  refine .bind (R := Eq) ?_ ?_
  · show Parallel Eq Eq (Scan.run text.length (createBlock (parse text.length)) allowed _ _ {})
      (Scan.run text'.length (fun method script => createBlock (parse text'.length) method script)
        allowed _ _ {})
    rw [widened]
    exact Scan.run_respelled expression
      (fun _ => Statement.beginsWithSign_prefix (Statement.split_prefix text) begins) _ _
  · rintro scan - rfl
    exact ofScan_parallel text text' unit scan

/-- Respelled statements are evaluated in the same way. -/
theorem evaluate_respelled {text text' : String} (respelled : Respelled text.toList text'.toList)
    (begins : Statement.beginsWithSign text.toList = false) : evaluate text = evaluate text' := by
  refine Parallel.eq ?_
  unfold evaluate parse
  refine .bind (.bind (.refl _) fun _ _ _ => parseStatement_respelled respelled begins true) ?_
  rintro ⟨program, unit, function, source⟩ ⟨_, _, _, source'⟩ ⟨rfl, rfl, rfl⟩
  exact .refl _

/-- A block stays as it is, and the operators behind it are written otherwise. -/
theorem evaluate_respelled_sum :
    Respelled "$sum{k @ k = 1 : 3} >= 2·3".toList "$sum{k @ k = 1 : 3} ≥ 2*3".toList ∧
      Statement.beginsWithSign "$sum{k @ k = 1 : 3} >= 2·3".toList = false ∧
      evaluate "$sum{k @ k = 1 : 3} >= 2·3" = evaluate "$sum{k @ k = 1 : 3} ≥ 2*3" := by
  have block : IsEnclosed ('$' :: ("sum".toList ++ '{' :: ("k @ k = 1 : 3".toList ++ ['\x7d']))) :=
    .block (by decide) (by rfl : _ = some ("k @ k = 1 : 3".toList, []))
  have product : Respelled (" 2".toList ++ ([middleDot] ++ ['3'])) (" 2".toList ++ '*' :: ['3']) :=
    .append_left (by decide) (.operator (by decide) (.refl _))
  have compared : Respelled (" ".toList ++ (['>', '='] ++ _)) (" ".toList ++ '≥' :: _) :=
    .append_left (by decide) (.operator (by decide) product)
  have respelled : Respelled "$sum{k @ k = 1 : 3} >= 2·3".toList
      "$sum{k @ k = 1 : 3} ≥ 2*3".toList :=
    .enclosed block (by decide) compared
  exact ⟨respelled, by decide +kernel, evaluate_respelled respelled (by decide +kernel)⟩

end SessionM

end UnitCalc

import Mathlib.Tactic.MkIffOfInductiveProp
import BranchingDialogue.Proofs.Script.Comparison
import BranchingDialogue.Proofs.Script.Literal

/-! A list of conditions is read back from its expression. The terms of the expression are whole: no
conjunction is found inside them, as quoted literals are passed over in one step. -/

namespace BranchingDialogue

open Script

/-- Whether a condition has a written form that keeps all of it. -/
@[mk_iff]
structure Condition.Scriptable (condition : Condition) : Prop where
  flag : isScriptable condition.flag = true
  compared : condition.operator.comparesValue = true →
    ∃ value ∈ condition.value, value.Defined ∧ value.OneLine
  plain : condition.operator.comparesValue = false → condition.value = none

instance : DecidablePred Condition.Scriptable := fun condition =>
  decidable_of_iff' _ (Condition.scriptable_iff condition)

namespace Script

open Text

/-! ## Signs -/

/-- Whether a character can begin neither a quoted literal nor a conjunction. -/
def isPlain (character : Char) : Bool :=
  !isBlank character && character != '"' && character != '&'

private theorem shown_of_isPlain {character : Char} (plain : isPlain character = true) :
    isBlank character = false := by
  simp only [isPlain, Bool.and_eq_true, Bool.not_eq_true'] at plain
  exact plain.1.1

private theorem exists_symbol_cons {symbol : String}
    (listed : symbol ∈ comparisonSigns ++ comparisonWords) :
    ∃ first rest, symbol.toList = first :: rest ∧ first ≠ 'a' ∧ first ≠ '&' ∧
      ∀ character ∈ first :: rest, isPlain character = true := by
  have shapes : ∀ symbol ∈ comparisonSigns ++ comparisonWords, symbol.toList ≠ [] ∧
      'a' ∉ symbol.toList ∧ '&' ∉ symbol.toList ∧
      ∀ character ∈ symbol.toList, isPlain character = true := by
    decide
  obtain ⟨filled, noWord, noSign, plain⟩ := shapes symbol listed
  obtain ⟨first, rest, equality⟩ := List.exists_cons_of_ne_nil filled
  rw [equality] at noWord noSign plain
  exact ⟨first, rest, equality, fun same => noWord (by simp [same]),
    fun same => noSign (by simp [same]), plain⟩

private theorem exists_symbol {operator : Operator} (compares : operator.comparesValue = true) :
    ∃ symbol ∈ comparisonSigns, operator.symbol? = some symbol ∧
      Operator.ofSymbol? symbol = some operator := by
  cases operator with
  | isSet | isNotSet => cases compares
  | equals | notEquals | greaterThan | lessThan | greaterEqual | lessEqual =>
      exact ⟨_, by decide, rfl, by decide⟩

/-! ## Terms -/

private theorem readTerm_isSet {flag : String} (scriptable : isScriptable flag = true) :
    readTerm ('$' :: flag.toList) = some (.isSet flag) := by
  have trimmed := trimmed_dollar_flag scriptable
  unfold readTerm
  rw [trimmed]
  simp [List.isPrefixOf?, readFlag_cons scriptable]

private theorem readTerm_isNotSet {flag : String} (scriptable : isScriptable flag = true) :
    readTerm ("not ".toList ++ '$' :: flag.toList) = some (.isNotSet flag) := by
  have trimmed : Trimmed ("not ".toList ++ '$' :: flag.toList) :=
    Trimmed.append (show Trimmed "not".toList from rfl) (by simp)
      (trimmed_dollar_flag scriptable) (by simp) [' ']
  have lead : List.isPrefixOf? "not ".toList ("not ".toList ++ '$' :: flag.toList) =
      some ('$' :: flag.toList) := isPrefixOf?_append_self _ _
  have name := readFlag_cons scriptable
  unfold readTerm
  rw [trimmed]
  simp only [lead]
  show (readFlag (trim ('$' :: flag.toList))).map _ = _
  rw [trimmed_dollar_flag scriptable, name, String.ofList_toList]
  rfl

theorem readTerm_spaced {name literal : List Char} {symbol : String} {operator : Operator}
    {value : Value} (isName : isFlagName name = true)
    (listed : symbol ∈ comparisonSigns ++ comparisonWords)
    (meaning : Operator.ofSymbol? symbol = some operator) (filled : literal ≠ [])
    (oneLine : OneLine literal) (trimmed : Trimmed literal)
    (read : readLiteral literal = some value) :
    readTerm ('$' :: (name ++ ' ' :: (symbol.toList ++ ' ' :: literal))) =
      some (.compare (String.ofList name) operator value) := by
  have wholeTrimmed : Trimmed ('$' :: (name ++ ' ' :: (symbol.toList ++ ' ' :: literal))) := by
    have ends := Trimmed.append (show Trimmed ['$'] from rfl) (by simp) trimmed filled
      (name ++ ' ' :: (symbol.toList ++ [' ']))
    simpa using ends
  have compares : Compares name [' '] ([' '] ++ literal) symbol := by
    rcases List.mem_append.mp listed with sign | word
    · exact .sign sign
    · exact .word word ⟨fun empty => absurd empty (by simp), rfl⟩
  have split : splitComparison (name ++ ' ' :: (symbol.toList ++ ' ' :: literal)) =
      some (name, symbol, literal) := by
    obtain ⟨others, splits⟩ := @nameSplits_append name
      (' ' :: (symbol.toList ++ ' ' :: literal)) isName (by rintro _ ⟨⟩; rfl)
    have here := comparisonBehind_append allBlank_space allBlank_space compares
      ⟨filled, fun _ => trimmed.head_shown, oneLine⟩ (by simp)
    simp only [List.singleton_append] at here
    rw [splitComparison_eq, splits, List.findSome?_cons]
    dsimp only
    rw [here]
  have notFlag : readFlag ('$' :: (name ++ ' ' :: (symbol.toList ++ ' ' :: literal))) = none := by
    simp [readFlag, isFlagName, isFlagCharacter, isBlank]
  unfold readTerm
  rw [wholeTrimmed]
  simp only [notFlag]
  simp [List.isPrefixOf?, split, meaning, read]

def comparisonText (flag symbol : String) (value : Value) : List Char :=
  '$' :: (flag.toList ++ ' ' :: (symbol.toList ++ ' ' :: writeLiteral value))

private theorem trimmed_comparisonText (flag symbol : String) {value : Value}
    (defined : value.Defined) : Trimmed (comparisonText flag symbol value) := by
  have ends : Trimmed (['$'] ++ (flag.toList ++ ' ' :: (symbol.toList ++ [' '])) ++
      writeLiteral value) :=
    Trimmed.append (show Trimmed ['$'] from rfl) (by simp) (trimmed_writeLiteral defined)
      (writeLiteral_ne_nil defined) _
  simpa [comparisonText] using ends

private theorem readTerm_comparison {flag symbol : String} {operator : Operator} {value : Value}
    (scriptable : isScriptable flag = true) (defined : value.Defined) (oneLine : value.OneLine)
    (compares : operator.comparesValue = true) (symbolEq : operator.symbol? = some symbol) :
    readTerm (comparisonText flag symbol value) = some (.compare flag operator value) := by
  obtain ⟨other, listed, otherEq, meaning⟩ := exists_symbol compares
  obtain rfl : symbol = other := Option.some.inj (symbolEq.symm.trans otherEq)
  have read := readTerm_spaced scriptable (List.mem_append_left _ listed) meaning
    (writeLiteral_ne_nil defined) (oneLine_writeLiteral defined oneLine)
    (trimmed_writeLiteral defined) (readLiteral_writeLiteral defined)
  rwa [String.ofList_toList] at read

/-! ## Whole terms -/

/-- Whether a text that stands before others stays in one piece when terms are divided. -/
def Whole (text : List Char) : Prop :=
  ∀ rest first others, splitTermsFrom 0 0 rest = first :: others →
    splitTermsFrom 0 0 (text ++ rest) = (text ++ first) :: others

private theorem whole_nil : Whole [] :=
  fun _ _ _ split => split

theorem Whole.append {front back : List Char} (frontWhole : Whole front) (backWhole : Whole back) :
    Whole (front ++ back) := by
  intro rest first others split
  have joined := frontWhole _ _ _ (backWhole _ _ _ split)
  rw [List.append_assoc, joined, List.append_assoc]

theorem quotedSize_cons {character : Char} (noQuote : character ≠ '"') (rest : List Char) :
    quotedSize (character :: rest) = 0 := by
  unfold quotedSize
  split
  · rename_i equality
    exact absurd (List.cons.inj equality).1 noQuote
  · rfl

private theorem whole_of_sizes {character : Char} {text : List Char}
    (noQuote : character ≠ '"')
    (noConjunction : ∀ rest, conjunctionSize (character :: (text ++ rest)) = 0)
    (whole : Whole text) : Whole (character :: text) := by
  intro rest first others split
  rw [List.cons_append, splitTermsFrom, quotedSize_cons noQuote, noConjunction,
    whole _ _ _ split]
  rfl

theorem Whole.cons {character : Char} {text : List Char} (plain : isPlain character = true)
    (whole : Whole text) : Whole (character :: text) := by
  simp only [isPlain, Bool.and_eq_true, Bool.not_eq_true', bne_iff_ne] at plain
  obtain ⟨⟨shown, noQuote⟩, noSign⟩ := plain
  refine whole_of_sizes noQuote (fun rest => ?_) whole
  have noBlanks : (character :: (text ++ rest)).takeWhile isBlank = [] := by
    simp [shown]
  unfold conjunctionSize
  simp only [noBlanks, List.length_nil, List.drop_zero]
  split
  · rfl
  · rename_i equality
    exact absurd (List.cons.inj equality).1 noSign
  · rfl

theorem whole_of_forall {text : List Char}
    (plain : ∀ character ∈ text, isPlain character = true) : Whole text := by
  induction text with
  | nil => exact whole_nil
  | cons character text inductionHypothesis =>
      obtain ⟨plainHere, plainInRest⟩ := List.forall_mem_cons.mp plain
      exact (inductionHypothesis plainInRest).cons plainHere

/-- A space before a text that begins no conjunction. -/
theorem Whole.space {character : Char} {text : List Char} (shown : isBlank character = false)
    (noWord : character ≠ 'a') (noSign : character ≠ '&') (whole : Whole (character :: text)) :
    Whole (' ' :: character :: text) := by
  refine whole_of_sizes (by decide) (fun rest => ?_) whole
  have oneBlank : (' ' :: character :: text ++ rest).takeWhile isBlank = [' '] := by
    simp [shown, show isBlank ' ' = true from rfl]
  unfold conjunctionSize
  rw [← List.cons_append, oneBlank]
  simp only [List.length_singleton, List.cons_append, List.drop_succ_cons, List.drop_zero]
  split
  · rename_i equality
    exact absurd (List.cons.inj equality).1 noWord
  · rename_i equality
    exact absurd (List.cons.inj equality).1 noSign
  · rfl

/-! ## Quoted literals in terms -/

theorem quotedTail_backslash {character : Char} (notFeed : character ≠ '\n') (rest : List Char) :
    quotedTail ('\\' :: character :: rest) = (quotedTail rest).map (· + 2) := by
  simp [quotedTail, notFeed]

theorem quotedTail_cons {character : Char} (noBackslash : character ≠ '\\')
    (noQuote : character ≠ '"') (rest : List Char) :
    quotedTail (character :: rest) = (quotedTail rest).map (· + 1) := by
  simp [quotedTail, noBackslash]

/-- The texts that can stand between double quotes: every quote and every backslash in them belongs
to an escape, which hides one character that is no line feed. -/
inductive QuotedText : List Char → Prop
  | empty : QuotedText []
  | escaped {character rest} (notFeed : character ≠ '\n') (closed : QuotedText rest) :
      QuotedText ('\\' :: character :: rest)
  | plain {character rest} (noBackslash : character ≠ '\\') (noQuote : character ≠ '"')
      (closed : QuotedText rest) : QuotedText (character :: rest)

theorem QuotedText.quotedTail_append {inner : List Char} (quoted : QuotedText inner)
    (rest : List Char) : quotedTail (inner ++ '"' :: rest) = some (inner.length + 1) := by
  induction quoted with
  | empty => rfl
  | escaped notFeed _ inductionHypothesis =>
      simp [quotedTail_backslash notFeed, inductionHypothesis]
  | plain noBackslash noQuote _ inductionHypothesis =>
      simp [quotedTail_cons noBackslash noQuote, inductionHypothesis]

theorem quotedText_escape (content : List Char) : QuotedText (escape quotedMarks content) := by
  induction content with
  | nil => exact .empty
  | cons character content inductionHypothesis =>
      rw [escape_cons]
      by_cases marked : character ∈ quotedMarks
      · have notFeed : character ≠ '\n' := by
          rintro rfl
          revert marked
          decide
        rw [if_pos marked]
        exact .escaped notFeed inductionHypothesis
      · obtain ⟨noBackslash, noQuote⟩ : character ≠ '\\' ∧ character ≠ '"' := by
          simpa [quotedMarks] using marked
        rw [if_neg marked]
        exact .plain noBackslash noQuote inductionHypothesis

/-- The characters that belong to a quoted literal are taken over. -/
theorem splitTermsFrom_length (kept rest : List Char) {first : List Char}
    {others : List (List Char)} (split : splitTermsFrom 0 0 rest = first :: others) :
    splitTermsFrom kept.length 0 (kept ++ rest) = (kept ++ first) :: others := by
  induction kept with
  | nil => exact split
  | cons character kept inductionHypothesis =>
      rw [List.length_cons, List.cons_append, splitTermsFrom, inductionHypothesis]
      rfl

theorem QuotedText.whole {inner : List Char} (quoted : QuotedText inner) :
    Whole ('"' :: inner ++ ['"']) := by
  intro rest first others split
  have size : quotedSize ('"' :: (inner ++ '"' :: rest)) = (inner ++ ['"']).length + 1 := by
    simp [quotedSize, quoted.quotedTail_append]
  have taken := splitTermsFrom_length (inner ++ ['"']) rest split
  rw [List.append_assoc, List.singleton_append] at taken
  rw [List.cons_append, List.cons_append, List.append_assoc, List.singleton_append,
    splitTermsFrom, size]
  simp only [taken]
  simp [extendFirst]

/-! ## Written terms -/

private theorem isPlain_of_isFlagCharacter {character : Char}
    (allowed : isFlagCharacter character = true) : isPlain character = true := by
  have shown := shown_of_isFlagCharacter allowed
  simp only [isFlagCharacter, flagDelimiters, Bool.and_eq_true, Bool.not_eq_true',
    List.contains_eq_mem, decide_eq_false_iff_not, List.mem_cons, not_or] at allowed
  simp [isPlain, shown, allowed]

private theorem whole_dollar_flag {name : List Char} (isName : isFlagName name = true) :
    Whole ('$' :: name) := by
  refine whole_of_forall fun character member => ?_
  rcases List.mem_cons.mp member with rfl | inName
  · rfl
  · exact isPlain_of_isFlagCharacter (isFlagCharacter_of_mem isName inName)

private theorem whole_writeLiteral {value : Value} (defined : value.Defined) :
    Whole (writeLiteral value) := by
  cases value with
  | bool truth => exact whole_of_forall (by cases truth <;> decide)
  | number amount =>
      refine whole_of_forall fun character member => ?_
      have noQuote : '"' ∉ numberText amount := not_mem_numberText defined rfl (by decide)
      have noSign : '&' ∉ numberText amount := not_mem_numberText defined rfl (by decide)
      simp only [isPlain, shown_numberText defined character member, Bool.not_false,
        Bool.true_and, Bool.and_eq_true, bne_iff_ne]
      exact ⟨fun equality => noQuote (equality ▸ member),
        fun equality => noSign (equality ▸ member)⟩
  | text content => exact (quotedText_escape _).whole

/-- No literal begins like a conjunction. -/
theorem exists_writeLiteral_cons {value : Value} (defined : value.Defined) :
    ∃ character rest, writeLiteral value = character :: rest ∧ isBlank character = false ∧
      character ≠ 'a' ∧ character ≠ '&' := by
  obtain ⟨character, rest, equality⟩ := List.exists_cons_of_ne_nil (writeLiteral_ne_nil defined)
  refine ⟨character, rest, equality, ?_⟩
  have shown : isBlank character = false :=
    (trimmed_writeLiteral defined).head_shown (by rw [equality]; rfl)
  cases value with
  | bool truth => cases truth <;> cases equality <;> decide
  | number amount =>
      have member : character ∈ numberText amount := by
        rw [show numberText amount = character :: rest from equality]
        exact List.mem_cons_self
      have noWord : 'a' ∉ numberText amount := not_mem_numberText defined rfl (by decide)
      have noSign : '&' ∉ numberText amount := not_mem_numberText defined rfl (by decide)
      exact ⟨shown, fun same => noWord (same ▸ member), fun same => noSign (same ▸ member)⟩
  | text content =>
      cases equality
      decide

/-- A comparison with single spaces between its parts stays in one piece up to the end of a text
that does and that its literal begins with. -/
theorem whole_spaced {name rest : List Char} {symbol : String} {character : Char}
    (isName : isFlagName name = true) (listed : symbol ∈ comparisonSigns ++ comparisonWords)
    (shown : isBlank character = false) (noWord : character ≠ 'a') (noSign : character ≠ '&')
    (whole : Whole (character :: rest)) :
    Whole ('$' :: (name ++ ' ' :: (symbol.toList ++ ' ' :: character :: rest))) := by
  have symbolWhole : Whole (' ' :: (symbol.toList ++ ' ' :: character :: rest)) := by
    obtain ⟨first, others, symbolEq, notWord, notSign, plain⟩ := exists_symbol_cons listed
    have behind := (whole_of_forall plain).append (whole.space shown noWord noSign)
    rw [symbolEq]
    exact behind.space (shown_of_isPlain (plain first List.mem_cons_self)) notWord notSign
  exact (whole_dollar_flag isName).append symbolWhole

private theorem whole_comparisonText {flag symbol : String} {value : Value}
    (scriptable : isScriptable flag = true) (defined : value.Defined)
    (listed : symbol ∈ comparisonSigns) : Whole (comparisonText flag symbol value) := by
  obtain ⟨character, rest, equality, shown, noWord, noSign⟩ := exists_writeLiteral_cons defined
  have literal := whole_writeLiteral defined
  rw [equality] at literal
  rw [comparisonText, equality]
  exact whole_spaced scriptable (List.mem_append_left _ listed) shown noWord noSign literal

/-- What makes a text the term of a condition. -/
structure IsTerm (condition : Condition) (text : List Char) : Prop where
  written : writeCondition condition = some text
  read : readTerm text = some condition
  whole : Whole text
  trimmed : Trimmed text
  filled : text ≠ []
  oneLine : OneLine text

theorem oneLine_dollar_flag {name : List Char} (isName : isFlagName name = true) :
    OneLine ('$' :: name) := by
  have absent : '\n' ∉ name := not_mem_flag isName rfl
  exact OneLine.cons (by decide) absent

/-- Every condition with a written form has a term. -/
theorem exists_term {condition : Condition} (scriptable : condition.Scriptable) :
    ∃ text, IsTerm condition text := by
  obtain ⟨flag, operator, value⟩ := condition
  obtain ⟨isFlag, compared, plain⟩ := scriptable
  dsimp only at isFlag compared plain
  cases compares : operator.comparesValue with
  | false =>
      obtain rfl : value = none := plain compares
      cases operator with
      | isSet =>
          exact ⟨'$' :: flag.toList, rfl, readTerm_isSet isFlag, whole_dollar_flag isFlag,
            trimmed_dollar_flag isFlag, by simp, oneLine_dollar_flag isFlag⟩
      | isNotSet =>
          have word : Whole "not".toList := whole_of_forall (by decide)
          have spaced := (whole_dollar_flag isFlag).space rfl (by decide) (by decide)
          have trimmed := Trimmed.append (show Trimmed "not".toList from rfl) (by simp)
            (trimmed_dollar_flag isFlag) (by simp) [' ']
          have oneLine : OneLine "not ".toList := by decide
          exact ⟨"not ".toList ++ '$' :: flag.toList, rfl, readTerm_isNotSet isFlag,
            word.append spaced, trimmed, by simp, oneLine.append (oneLine_dollar_flag isFlag)⟩
      | equals | notEquals | greaterThan | lessThan | greaterEqual | lessEqual => cases compares
  | true =>
      obtain ⟨value, rfl, defined, oneLine⟩ := compared compares
      obtain ⟨symbol, listed, symbolEq, -⟩ := exists_symbol compares
      have written : writeCondition ⟨flag, operator, some value⟩ =
          some (comparisonText flag symbol value) := by
        cases operator with
        | isSet | isNotSet => cases compares
        | equals | notEquals | greaterThan | lessThan | greaterEqual | lessEqual =>
            simp [writeCondition, symbolEq, comparisonText]
      have signLines : ∀ sign ∈ comparisonSigns, OneLine sign.toList := by decide
      have textLine : OneLine (comparisonText flag symbol value) := by
        have back := (oneLine_writeLiteral defined oneLine).cons (show ' ' ≠ '\n' by decide)
        have front := ((signLines symbol listed).append back).cons (show ' ' ≠ '\n' by decide)
        exact (oneLine_dollar_flag isFlag).append front
      exact ⟨comparisonText flag symbol value, written,
        readTerm_comparison isFlag defined oneLine compares symbolEq,
        whole_comparisonText isFlag defined listed, trimmed_comparisonText flag symbol defined,
        by simp [comparisonText], textLine⟩

/-! ## Expressions -/

/-- The word `and` between blanks divides terms. -/
theorem splitTermsFrom_and {rest : List Char} (filled : rest ≠ []) (trimmed : Trimmed rest) :
    splitTermsFrom 0 0 (" and ".toList ++ rest) = [] :: splitTermsFrom 0 0 rest := by
  obtain ⟨character, others, rfl⟩ := List.exists_cons_of_ne_nil filled
  have shown : isBlank character = false := trimmed.head_shown rfl
  have space : isBlank ' ' = true := rfl
  have word : isBlank 'a' = false := rfl
  have size : conjunctionSize (' ' :: 'a' :: 'n' :: 'd' :: ' ' :: character :: others) = 5 := by
    simp [conjunctionSize, shown, space, word]
  have noQuote : quotedSize (' ' :: 'a' :: 'n' :: 'd' :: ' ' :: character :: others) = 0 := rfl
  show splitTermsFrom 0 0 (' ' :: 'a' :: 'n' :: 'd' :: ' ' :: character :: others) = _
  rw [splitTermsFrom, size, noQuote]
  rfl

private theorem intercalate_ends {mark : List Char} {first : List Char} {others : List (List Char)}
    (filled : ∀ text ∈ first :: others, text ≠ [])
    (trimmed : ∀ text ∈ first :: others, Trimmed text) :
    mark.intercalate (first :: others) ≠ [] ∧ Trimmed (mark.intercalate (first :: others)) := by
  induction others generalizing first with
  | nil =>
      have only : mark.intercalate [first] = first := by simp [List.intercalate]
      rw [only]
      exact ⟨filled first (by simp), trimmed first (by simp)⟩
  | cons second others inductionHypothesis =>
      obtain ⟨firstFilled, othersFilled⟩ := List.forall_mem_cons.mp filled
      obtain ⟨firstTrimmed, othersTrimmed⟩ := List.forall_mem_cons.mp trimmed
      obtain ⟨restFilled, restTrimmed⟩ := inductionHypothesis othersFilled othersTrimmed
      rw [intercalate_cons_cons]
      exact ⟨by simp [firstFilled], firstTrimmed.append firstFilled restTrimmed restFilled mark⟩

/-- Whole texts that are joined with the word `and` are the terms of what comes out. -/
theorem splitTerms_intercalate {first : List Char} {others : List (List Char)}
    (whole : ∀ text ∈ first :: others, Whole text)
    (filled : ∀ text ∈ first :: others, text ≠ [])
    (trimmed : ∀ text ∈ first :: others, Trimmed text) :
    splitTerms (" and ".toList.intercalate (first :: others)) = first :: others := by
  unfold splitTerms
  induction others generalizing first with
  | nil =>
      have only := whole first (by simp) [] [] [] rfl
      simpa [List.intercalate] using only
  | cons second others inductionHypothesis =>
      obtain ⟨firstWhole, othersWhole⟩ := List.forall_mem_cons.mp whole
      obtain ⟨-, othersFilled⟩ := List.forall_mem_cons.mp filled
      obtain ⟨-, othersTrimmed⟩ := List.forall_mem_cons.mp trimmed
      obtain ⟨restFilled, restTrimmed⟩ :=
        @intercalate_ends " and ".toList second others othersFilled othersTrimmed
      have divided := splitTermsFrom_and restFilled restTrimmed
      rw [intercalate_cons_cons, List.append_assoc, firstWhole _ _ _ divided, List.append_nil,
        inductionHypothesis othersWhole othersFilled othersTrimmed]

/-- The terms of conditions that have written forms. -/
theorem exists_terms {conditions : List Condition}
    (scriptable : ∀ condition ∈ conditions, condition.Scriptable) :
    ∃ terms, conditions.filterMap writeCondition = terms ∧ terms.mapM readTerm = some conditions ∧
      terms.length = conditions.length ∧ (∀ text ∈ terms, Whole text) ∧
      (∀ text ∈ terms, Trimmed text) ∧ (∀ text ∈ terms, text ≠ []) ∧
      ∀ text ∈ terms, OneLine text := by
  induction conditions with
  | nil => exact ⟨[], rfl, rfl, rfl, by simp, by simp, by simp, by simp⟩
  | cons condition conditions inductionHypothesis =>
      obtain ⟨first, others⟩ := List.forall_mem_cons.mp scriptable
      obtain ⟨text, written, read, whole, trimmed, filled, oneLine⟩ := exists_term first
      obtain ⟨terms, writtenAll, readAll, size, wholeAll, trimmedAll, filledAll, oneLineAll⟩ :=
        inductionHypothesis others
      refine ⟨text :: terms, by simp [written, writtenAll], by simp [read, readAll], by simp [size],
        ?_, ?_, ?_, ?_⟩
      · exact List.forall_mem_cons.mpr ⟨whole, wholeAll⟩
      · exact List.forall_mem_cons.mpr ⟨trimmed, trimmedAll⟩
      · exact List.forall_mem_cons.mpr ⟨filled, filledAll⟩
      · exact List.forall_mem_cons.mpr ⟨oneLine, oneLineAll⟩

/-- A list of conditions that have written forms is read back from its expression. -/
theorem readExpression_writeExpression {conditions : List Condition}
    (scriptable : ∀ condition ∈ conditions, condition.Scriptable) :
    readExpression (writeExpression conditions) = some conditions := by
  obtain ⟨terms, written, read, size, whole, trimmed, filled, -⟩ := exists_terms scriptable
  unfold writeExpression readExpression
  rw [written]
  cases terms with
  | nil =>
      obtain rfl : conditions = [] := List.eq_nil_of_length_eq_zero size.symm
      rfl
  | cons first others =>
      obtain ⟨joinedFilled, joinedTrimmed⟩ :=
        @intercalate_ends " and ".toList first others filled trimmed
      rw [joinedTrimmed]
      dsimp only
      rw [if_neg (by simpa using joinedFilled), splitTerms_intercalate whole filled trimmed, read]

/-! ## The shape of expressions -/

theorem oneLine_writeExpression {conditions : List Condition}
    (scriptable : ∀ condition ∈ conditions, condition.Scriptable) :
    OneLine (writeExpression conditions) := by
  obtain ⟨terms, written, -, -, -, -, -, oneLine⟩ := exists_terms scriptable
  unfold writeExpression
  rw [written]
  exact oneLine_intercalate (by decide) oneLine

theorem trimmed_writeExpression {conditions : List Condition}
    (scriptable : ∀ condition ∈ conditions, condition.Scriptable) :
    Trimmed (writeExpression conditions) := by
  obtain ⟨terms, written, -, -, -, trimmed, filled, -⟩ := exists_terms scriptable
  unfold writeExpression
  rw [written]
  cases terms with
  | nil => rfl
  | cons first others => exact (intercalate_ends filled trimmed).2

theorem writeExpression_ne_nil {conditions : List Condition}
    (scriptable : ∀ condition ∈ conditions, condition.Scriptable) (filled : conditions ≠ []) :
    writeExpression conditions ≠ [] := by
  obtain ⟨terms, written, -, size, -, trimmed, filledAll, -⟩ := exists_terms scriptable
  unfold writeExpression
  rw [written]
  cases terms with
  | nil => exact absurd (List.eq_nil_of_length_eq_zero size.symm) filled
  | cons first others => exact (intercalate_ends filledAll trimmed).1

end Script

end BranchingDialogue

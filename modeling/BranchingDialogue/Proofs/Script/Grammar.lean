import BranchingDialogue.Proofs.Script.Comparison
import BranchingDialogue.Proofs.Script.Division

/-! A term asks for a flag or for its absence, or compares it with a literal. Which texts are
literals is left open at first: the reader takes every text on one line for one, while the language
has truth values, numbers, quoted texts and bare words only. The difference is seen in the literals
that the reader finds. -/

namespace BranchingDialogue.Script

open Text

/-! ## Texts of numbers -/

private theorem isFlagCharacter_of_isAlphanum {character : Char}
    (letter : character.isAlphanum = true) : isFlagCharacter character = true := by
  have other : ∀ mark ∈ flagDelimiters, mark.isAlphanum = false := by decide
  have free : character ∉ flagDelimiters := by
    intro member
    rw [other character member] at letter
    cases letter
  simp [isFlagCharacter, shown_of_isAlphanum letter, free]

private theorem isFlagCharacter_of_isDigit {character : Char} (digit : character.isDigit = true) :
    isFlagCharacter character = true :=
  isFlagCharacter_of_isAlphanum (by simp [Char.isAlphanum, digit])

private theorem isAlpha_of_isAlpha_toLower {character : Char}
    (letter : character.toLower.isAlpha = true) : character.isAlpha = true := by
  by_cases capital : character.val ≥ 'A'.val ∧ character.val ≤ 'Z'.val
  · have upper : character.isUpper = true := by
      simpa [Char.isUpper] using capital
    simp [Char.isAlpha, upper]
  · unfold Char.toLower at letter
    rwa [dif_neg capital] at letter

private theorem allNamed_of_name {text name : List Char}
    (letters : ∀ letter ∈ name, letter.isAlpha = true)
    (isName : text.map Char.toLower = name) : AllNamed text := by
  intro character member
  have letter := letters character.toLower (isName ▸ List.mem_map_of_mem member)
  exact isFlagCharacter_of_isAlphanum
    (by simp [Char.isAlphanum, isAlpha_of_isAlpha_toLower letter])

private theorem allNamed_digits (text : List Char) : AllNamed (Decimal.leadingDigits text).1 :=
  fun _ member => isFlagCharacter_of_isDigit (List.mem_takeWhile_imp member)

theorem leadingDigits_append (text : List Char) :
    text = (Decimal.leadingDigits text).1 ++ (Decimal.leadingDigits text).2 :=
  List.takeWhile_append_dropWhile.symm

private theorem allNamed_of_signAndRest {text : List Char}
    (restNamed : AllNamed (Decimal.signAndRest text).2) : AllNamed text := by
  unfold Decimal.signAndRest at restNamed
  split at restNamed
  · exact List.forall_mem_cons.mpr ⟨rfl, restNamed⟩
  · exact List.forall_mem_cons.mpr ⟨rfl, restNamed⟩
  · exact restNamed

private theorem allNamed_of_readExponent {text : List Char}
    (read : (Decimal.readExponent text).isSome = true) : AllNamed text := by
  unfold Decimal.readExponent at read
  split at read
  · exact List.forall_mem_nil _
  · rename_i mark text
    split at read
    · rename_i isMark
      dsimp only at read
      split at read
      · cases read
      · rename_i plain
        have ended : (Decimal.leadingDigits (Decimal.signAndRest text).2).2 = [] := by
          simpa using (show _ ∧ _ by simpa using plain).2
        have named : AllNamed (Decimal.signAndRest text).2 := by
          rw [leadingDigits_append (Decimal.signAndRest text).2, ended, List.append_nil]
          exact allNamed_digits _
        refine List.forall_mem_cons.mpr ⟨?_, allNamed_of_signAndRest named⟩
        rcases (by simpa using isMark : mark = 'e' ∨ mark = 'E') with rfl | rfl <;> rfl
    · cases read

private theorem allNamed_of_readDigits {text : List Char}
    (read : (Decimal.readDigits text).isSome = true) : AllNamed text ∧ text ≠ [] := by
  have filled : text ≠ [] := by
    rintro rfl
    cases read
  refine ⟨?_, filled⟩
  have split := leadingDigits_append text
  unfold Decimal.readDigits at read
  dsimp only at read
  generalize (Decimal.leadingDigits text).2 = afterWhole at split read
  have rest : AllNamed afterWhole := by
    split at read
    · rename_i afterPoint
      split at read
      · cases read
      · rw [Option.isSome_map] at read
        rw [leadingDigits_append afterPoint]
        exact List.forall_mem_cons.mpr
          ⟨rfl, (allNamed_digits afterPoint).append (allNamed_of_readExponent read)⟩
    · split at read
      · cases read
      · rw [Option.isSome_map] at read
        exact allNamed_of_readExponent read
  rw [split]
  exact (allNamed_digits text).append rest

private theorem isFlagName_of_read {text : List Char} (read : (Decimal.read text).isSome = true) :
    isFlagName text = true := by
  have letters {name : String} (isName : ∀ letter ∈ name.toList, letter.isAlpha = true)
      {rest : List Char} (same : String.ofList (rest.map Char.toLower) = name) : AllNamed rest := by
    refine allNamed_of_name isName ?_
    rw [← same, String.toList_ofList]
  have named : AllNamed (Decimal.signAndRest text).2 := by
    unfold Decimal.read at read
    rw [Option.isSome_map] at read
    unfold Decimal.readMagnitude at read
    dsimp only at read
    split at read
    · rename_i infinite
      rcases (by simpa using infinite) with short | long
      · exact letters (by decide) short
      · exact letters (by decide) long
    · split at read
      · rename_i undefined
        exact letters (by decide) undefined
      · exact (allNamed_of_readDigits read).1
  have filled : text ≠ [] := by
    rintro rfl
    revert read
    decide +kernel
  exact isFlagName_iff.mpr ⟨filled, allNamed_of_signAndRest named⟩

/-! ## Terms -/

/-- The terms of the grammar, with the texts that it allows for literals. -/
inductive TermText (allowed : List Char → Prop) : List Char → Prop
  | isSet {name} (isName : isFlagName name = true) : TermText allowed ('$' :: name)
  | isNotSetWord {blanks name} (allBlank : AllBlank blanks) (isName : isFlagName name = true) :
      TermText allowed ("not ".toList ++ (blanks ++ '$' :: name))
  | isNotSetSign {blanks name} (allBlank : AllBlank blanks) (isName : isFlagName name = true) :
      TermText allowed (['!'] ++ (blanks ++ '$' :: name))
  | comparison {name gap symbol space literal} (isName : isFlagName name = true)
      (gapBlank : AllBlank gap) (spaceBlank : AllBlank space)
      (compares : Compares name gap (space ++ literal) symbol) (isAllowed : allowed literal) :
      TermText allowed ('$' :: (name ++ (gap ++ (symbol.toList ++ (space ++ literal)))))

/-- The sentences of the grammar: texts without words, and terms with conjunctions between them. -/
def Sentence (allowed : List Char → Prop) (text : List Char) : Prop :=
  trim text = [] ∨ ∃ terms, Divided (trim text) terms ∧ ∀ term ∈ terms, TermText allowed (trim term)

/-- The literal that a term compares its flag with. -/
def comparedLiteral (term : List Char) : Option (List Char) :=
  if (readFlag term).isSome then
    none
  else
    ((List.isPrefixOf? ['$'] term).bind splitComparison).map fun (_, _, literal) => literal

/-- The literals that an expression compares flags with. -/
def comparedLiterals (text : List Char) : List (List Char) :=
  (splitTerms (trim text)).filterMap fun term => comparedLiteral (trim term)

private theorem exists_of_readFlag {text : List Char} (read : (readFlag text).isSome = true) :
    ∃ name, isFlagName name = true ∧ text = '$' :: name := by
  unfold readFlag at read
  split at read
  · rename_i name
    split at read
    · rename_i isName
      exact ⟨name, isName, rfl⟩
    · cases read
  · cases read

/-- A term that is read belongs to the grammar that allows its literal. -/
theorem termText_of_readTerm {allowed : List Char → Prop} {raw : List Char}
    (read : (readTerm raw).isSome = true)
    (each : ∀ literal ∈ comparedLiteral (trim raw), allowed literal) :
    TermText allowed (trim raw) := by
  have trimmed := trimmed_trim raw
  unfold readTerm at read
  generalize trim raw = term at read each trimmed
  dsimp only at read
  cases lead : (List.isPrefixOf? "not ".toList term <|> List.isPrefixOf? ['!'] term) with
  | some rest =>
      rw [lead, Option.isSome_map] at read
      obtain ⟨name, isName, restEq⟩ := exists_of_readFlag read
      obtain ⟨before, after, split, beforeBlank, afterBlank⟩ := exists_eq_append_trim rest
      rw [restEq] at split
      rcases Option.or_eq_some_iff.mp (Option.orElse_eq_or.symm.trans lead) with word | ⟨-, sign⟩
      · rw [List.isPrefixOf?_eq_some_iff_append_eq, split, ← List.append_assoc] at word
        rw [← word] at trimmed
        rw [← word, trimmed.eq_nil_of_append afterBlank, List.append_nil]
        exact .isNotSetWord beforeBlank isName
      · rw [List.isPrefixOf?_eq_some_iff_append_eq, split, ← List.append_assoc] at sign
        rw [← sign] at trimmed
        rw [← sign, trimmed.eq_nil_of_append afterBlank, List.append_nil]
        exact .isNotSetSign beforeBlank isName
  | none =>
      rw [lead] at read
      dsimp only at read
      cases flagRead : readFlag term with
      | some flag =>
          obtain ⟨name, isName, rfl⟩ := exists_of_readFlag (by rw [flagRead]; rfl)
          exact .isSet isName
      | none =>
          rw [flagRead] at read
          obtain ⟨condition, read⟩ := Option.isSome_iff_exists.mp read
          simp only [Option.bind_eq_bind, Option.bind_eq_some_iff] at read
          obtain ⟨⟨name, symbol, literal⟩, ⟨rest, dollar, split⟩, -⟩ := read
          have isAllowed : allowed literal := by
            apply each
            simp [comparedLiteral, flagRead, dollar, split]
          obtain ⟨tail, isName, rfl, here, -⟩ := exists_of_splitComparison split
          obtain ⟨-, -, gap, space, gapBlank, spaceBlank, compares, rfl⟩ :=
            comparisonTail_of_comparisonBehind here
          rw [← List.append_eq_of_isPrefixOf?_eq_some dollar]
          exact .comparison isName gapBlank spaceBlank compares isAllowed

private theorem isSome_readLiteral {raw : List Char} (filled : trim raw ≠ []) :
    (readLiteral raw).isSome = true := by
  unfold readLiteral
  dsimp only
  rw [if_neg (by simpa using filled)]
  split
  · rfl
  · split
    · rfl
    · split
      · rfl
      · split <;> rfl

private theorem IsPhrase.trim_ne_nil {literal : List Char} (phrase : IsPhrase literal) :
    trim literal ≠ [] := by
  obtain ⟨character, rest, rfl⟩ := List.exists_cons_of_ne_nil phrase.filled
  intro empty
  have blank := trim_eq_nil_iff.mp empty character List.mem_cons_self
  exact ne_of_blank blank (phrase.shown character rfl) rfl

private theorem readTerm_dollar {rest : List Char} (trimmed : Trimmed ('$' :: rest)) :
    readTerm ('$' :: rest) =
      match readFlag ('$' :: rest) with
      | some flag => some (.isSet flag)
      | none => do
          let (name, symbol, literal) ← splitComparison rest
          let operator ← Operator.ofSymbol? symbol
          let value ← readLiteral literal
          return .compare (String.ofList name) operator value := by
  have lead : List.isPrefixOf? ['$'] ('$' :: rest) = some rest := isPrefixOf?_append_self ['$'] rest
  unfold readTerm
  rw [trimmed]
  dsimp only
  rw [lead]
  rfl

private theorem isSome_readTerm {term : List Char} (isTerm : TermText IsPhrase term)
    (trimmed : Trimmed term) : (readTerm term).isSome = true := by
  cases isTerm with
  | isSet isName =>
      rw [readTerm_dollar trimmed, readFlag_cons isName]
      rfl
  | @isNotSetWord blanks name allBlank isName =>
      unfold readTerm
      rw [trimmed]
      dsimp only
      rw [isPrefixOf?_append_self]
      show (Option.map _ (readFlag (trim _))).isSome = true
      rw [trim_append_of_blank allBlank, trimmed_dollar_flag isName, readFlag_cons isName]
      rfl
  | @isNotSetSign blanks name allBlank isName =>
      have noWord : List.isPrefixOf? "not ".toList (['!'] ++ (blanks ++ '$' :: name)) = none := rfl
      unfold readTerm
      rw [trimmed]
      dsimp only
      rw [noWord, isPrefixOf?_append_self]
      show (Option.map _ (readFlag (trim _))).isSome = true
      rw [trim_append_of_blank allBlank, trimmed_dollar_flag isName, readFlag_cons isName]
      rfl
  | @comparison name gap symbol space literal isName gapBlank spaceBlank compares phrase =>
      have split := isSome_splitComparison isName
        ⟨phrase, gap, space, gapBlank, spaceBlank, compares, rfl⟩
      obtain ⟨⟨found, sign, text⟩, split⟩ := Option.isSome_iff_exists.mp split
      obtain ⟨rest, -, -, here, -⟩ := exists_of_splitComparison split
      obtain ⟨-, textPhrase, _, _, -, -, signCompares, -⟩ :=
        comparisonTail_of_comparisonBehind here
      obtain ⟨operator, operatorEq⟩ :=
        Option.isSome_iff_exists.mp (isSome_ofSymbol? signCompares.listed)
      obtain ⟨value, valueEq⟩ :=
        Option.isSome_iff_exists.mp (isSome_readLiteral textPhrase.trim_ne_nil)
      rw [readTerm_dollar trimmed]
      cases readFlag ('$' :: (name ++ (gap ++ (symbol.toList ++ (space ++ literal))))) with
      | some flag => rfl
      | none => simp [split, operatorEq, valueEq]

/-! ## Literals of the grammar -/

/-- The texts between quotes of either kind. Between double quotes a backslash hides the character
after it; between single quotes nothing is hidden. -/
inductive Quotation : List Char → Prop
  | double {inner} (quoted : QuotedText inner) : Quotation ('"' :: inner ++ ['"'])
  | single {inner} (plain : '\'' ∉ inner) : Quotation ('\'' :: inner ++ ['\''])

/-- The literals of the grammar. A bare word has no blank, no quote and no other character of the
syntax around it, just like a flag name. -/
inductive IsLiteral : List Char → Prop
  | truth (value : Bool) : IsLiteral (writeLiteral (.bool value))
  | number {text} (isNumber : (Decimal.read text).isSome = true) : IsLiteral text
  | quoted {text} (quotation : Quotation text) (oneLine : OneLine text) : IsLiteral text
  | bareWord {text} (isName : isFlagName text = true) : IsLiteral text

private theorem isLiteral_iff {text : List Char} :
    IsLiteral text ↔ isFlagName text = true ∨ Quotation text ∧ OneLine text := by
  constructor
  · rintro (⟨value⟩ | isNumber | ⟨quotation, oneLine⟩ | isName)
    · exact Or.inl (by cases value <;> rfl)
    · exact Or.inl (isFlagName_of_read isNumber)
    · exact Or.inr ⟨quotation, oneLine⟩
    · exact Or.inl isName
  · rintro (isName | ⟨quotation, oneLine⟩)
    · exact .bareWord isName
    · exact .quoted quotation oneLine

theorem Quotation.exists_cons {text : List Char} (quotation : Quotation text) :
    ∃ quote rest, text = quote :: rest ∧ (quote = '"' ∨ quote = '\'') := by
  cases quotation with
  | double _ => exact ⟨_, _, rfl, Or.inl rfl⟩
  | single _ => exact ⟨_, _, rfl, Or.inr rfl⟩

private theorem IsLiteral.isPhrase {text : List Char} (isLiteral : IsLiteral text) :
    IsPhrase text := by
  rcases isLiteral_iff.mp isLiteral with isName | ⟨quotation, oneLine⟩
  · refine ⟨flag_ne_nil isName, fun character first => ?_, not_mem_flag isName rfl⟩
    exact shown_of_isFlagCharacter (isFlagCharacter_of_mem isName (List.mem_of_head? first))
  · obtain ⟨quote, rest, rfl, isQuote⟩ := quotation.exists_cons
    refine ⟨List.cons_ne_nil _ _, ?_, oneLine⟩
    rcases isQuote with rfl | rfl <;> rintro _ ⟨⟩ <;> rfl

private theorem IsLiteral.head?_ne {text : List Char} (isLiteral : IsLiteral text) :
    text.head? ≠ some '=' := by
  rcases isLiteral_iff.mp isLiteral with isName | ⟨quotation, -⟩
  · exact fun first => not_mem_flag isName rfl (List.mem_of_head? first)
  · obtain ⟨quote, rest, rfl, isQuote⟩ := quotation.exists_cons
    rcases isQuote with rfl | rfl <;> rintro ⟨⟩

private theorem TermText.mono {allowed permitted : List Char → Prop}
    (weaker : ∀ literal, allowed literal → permitted literal) {term : List Char}
    (isTerm : TermText allowed term) : TermText permitted term := by
  cases isTerm with
  | isSet isName => exact .isSet isName
  | isNotSetWord allBlank isName => exact .isNotSetWord allBlank isName
  | isNotSetSign allBlank isName => exact .isNotSetSign allBlank isName
  | comparison isName gapBlank spaceBlank compares isAllowed =>
      exact .comparison isName gapBlank spaceBlank compares (weaker _ isAllowed)

/-! ## The literal that is found -/

private theorem gap_eq_nil {gap behind others : List Char} {first : Char} (gapBlank : AllBlank gap)
    (named : isFlagCharacter first = true) (split : gap ++ behind = first :: others) :
    gap = [] := by
  cases gap with
  | nil => rfl
  | cons blank blanks =>
      have same : blank = first := (List.cons.inj split).1
      have hidden := gapBlank blank List.mem_cons_self
      exact absurd same (ne_of_blank hidden (shown_of_isFlagCharacter named))

private theorem Compares.head?_ne {name gap rest after : List Char} {symbol : String}
    (compares : Compares name gap rest symbol) {quote : Char}
    (isQuote : quote = '"' ∨ quote = '\'') : (symbol.toList ++ after).head? ≠ some quote := by
  have shapes : ∀ symbol ∈ comparisonSigns ++ comparisonWords, ∃ first others,
      symbol.toList = first :: others ∧ first ≠ '"' ∧ first ≠ '\'' := by
    simp [comparisonSigns, comparisonWords]
  obtain ⟨first, others, equality, noDouble, noSingle⟩ := shapes symbol compares.listed
  rw [equality]
  rintro ⟨⟩
  rcases isQuote with same | same
  · exact noDouble same
  · exact noSingle same

/-- A suffix of a bare word behind blanks that begins with no blank is a suffix of the word. -/
theorem isFlagName_of_suffix {space word found : List Char} (spaceBlank : AllBlank space)
    (isName : isFlagName word = true) (phrase : IsPhrase found)
    (within : found <:+ space ++ word) : isFlagName found = true := by
  have inWord : found <:+ word := by
    rcases List.suffix_or_suffix_of_suffix within (List.suffix_append space word) with inWord |
      ⟨blanks, rfl⟩
    · exact inWord
    · obtain ⟨before, split⟩ := within
      rw [← List.append_assoc, List.append_left_inj] at split
      cases blanks with
      | nil => exact List.suffix_refl word
      | cons first others =>
          have blank := spaceBlank first (by simp [← split])
          exact absurd rfl (ne_of_blank blank (phrase.shown first rfl))
  exact isFlagName_iff.mpr ⟨phrase.filled,
    fun character member => isFlagCharacter_of_mem isName (inWord.mem member)⟩

/-- What is left of a literal behind the end of a longer name is a literal. -/
theorem ComparisonTail.isLiteral_of_split {name front space literal rest found : List Char}
    {symbol : String} (tail : ComparisonTail name symbol found rest) (frontNamed : AllNamed front)
    (spaceBlank : AllBlank space) (isLiteral : IsLiteral literal)
    (split : space ++ literal = front ++ rest) : IsLiteral found := by
  obtain ⟨phrase, gap, between, gapBlank, betweenBlank, compares, rfl⟩ := tail
  rcases isLiteral_iff.mp isLiteral with isName | ⟨quotation, -⟩
  · refine .bareWord (isFlagName_of_suffix spaceBlank isName phrase ?_)
    rw [split]
    exact ⟨front ++ (gap ++ (symbol.toList ++ between)), by simp⟩
  · -- A quoted literal can be cut neither behind the name nor behind the comparison.
    exfalso
    obtain ⟨quote, inside, rfl, isQuote⟩ := quotation.exists_cons
    cases front with
    | nil =>
        have start := congrArg trimStart split
        rw [trimStart_append_of_head? spaceBlank fun _ => isLiteral.isPhrase.shown _,
          List.nil_append, trimStart_append_of_head? gapBlank (compares.head_shown _)] at start
        exact compares.head?_ne isQuote (by rw [← start]; rfl)
    | cons first others =>
        have named := frontNamed first List.mem_cons_self
        obtain rfl := gap_eq_nil spaceBlank named split
        obtain rfl : quote = first := (List.cons.inj split).1
        rcases isQuote with rfl | rfl <;> cases named

/-- What begins with a character of names is a word of comparison. -/
theorem Compares.of_named {name gap rest after others : List Char} {symbol : String} {first : Char}
    (compares : Compares name gap rest symbol) (named : isFlagCharacter first = true)
    (start : symbol.toList ++ after = first :: others) :
    symbol ∈ comparisonWords ∧ StandsApart name gap rest := by
  have signs : ∀ sign ∈ comparisonSigns, ∃ mark marks,
      sign.toList = mark :: marks ∧ isFlagCharacter mark = false := by
    simp [comparisonSigns, isFlagCharacter, flagDelimiters]
  cases compares with
  | sign listed =>
      obtain ⟨mark, marks, equality, refused⟩ := signs symbol listed
      rw [equality] at start
      obtain rfl : mark = first := (List.cons.inj start).1
      rw [named] at refused
      cases refused
  | word listed apart => exact ⟨listed, apart⟩

/-- No comparison stands behind a name that ends inside a word, as the rest of the word would have
to be a word of its own. -/
theorem ComparisonTail.not_inside_word {name front back after found : List Char} {symbol : String}
    (letters : ∀ letter ∈ front ++ back,
      isFlagCharacter letter = true ∧ isWordCharacter letter = true)
    (frontFilled : front ≠ []) (backFilled : back ≠ []) :
    ¬ ComparisonTail (name ++ front) symbol found (back ++ after) := by
  rintro ⟨-, gap, space, gapBlank, -, compares, split⟩
  obtain ⟨first, others, rfl⟩ := List.exists_cons_of_ne_nil backFilled
  have named := (letters first (by simp)).1
  obtain rfl := gap_eq_nil gapBlank named split.symm
  obtain ⟨-, apart⟩ := compares.of_named named split.symm
  have last := List.getLast?_eq_some_getLast frontFilled
  have outside := apart.before rfl
  rw [List.getLast?_append_of_ne_nil _ frontFilled, last, Option.any_some,
    (letters _ (List.mem_append_left _ (List.getLast_mem frontFilled))).2] at outside
  cases outside

/-- Behind a comparison with a literal of the grammar, a comparison with a longer name also finds a
literal of the grammar. -/
theorem isLiteral_of_comparison {name gap space literal found rest other : List Char}
    {symbol sign : String} (gapBlank : AllBlank gap)
    (spaceBlank : AllBlank space) (compares : Compares name gap (space ++ literal) symbol)
    (isLiteral : IsLiteral literal) (otherName : isFlagName other = true)
    (split : name ++ (gap ++ (symbol.toList ++ (space ++ literal))) = other ++ rest)
    (longer : name.length ≤ other.length)
    (here : comparisonBehind other rest = some (other, sign, found)) : IsLiteral found := by
  have noEquals : (space ++ literal).head? ≠ some '=' := by
    cases space with
    | nil => exact isLiteral.head?_ne
    | cons first others =>
        rintro ⟨⟩
        cases spaceBlank '=' List.mem_cons_self
  have stands := comparisonBehind_append gapBlank spaceBlank compares isLiteral.isPhrase noEquals
  obtain ⟨front, rfl⟩ : name <+: other :=
    List.prefix_of_prefix_length_le ⟨_, split⟩ (List.prefix_append other rest) longer
  rw [List.append_assoc, List.append_right_inj] at split
  cases front with
  | nil =>
      rw [List.nil_append] at split
      rw [← split, List.append_nil, stands] at here
      cases here
      exact isLiteral
  | cons first others =>
      have frontNamed : AllNamed (first :: others) := fun character member =>
        isFlagCharacter_of_mem otherName (List.mem_append_right name member)
      have named := frontNamed first List.mem_cons_self
      have letters : ∀ word ∈ comparisonWords, ∀ letter ∈ word.toList,
          isFlagCharacter letter = true ∧ isWordCharacter letter = true := by decide
      obtain ⟨-, foundTail⟩ := comparisonTail_of_comparisonBehind here
      obtain rfl := gap_eq_nil gapBlank named split
      rw [List.nil_append] at split
      obtain ⟨listed, -⟩ := compares.of_named named split
      rcases List.append_eq_append_iff.mp split with ⟨back, frontEq, split⟩ | ⟨back, wordEq, restEq⟩
      · refine foundTail.isLiteral_of_split ?_ spaceBlank isLiteral split
        exact fun character member => frontNamed character (by simp [frontEq, member])
      · cases back with
        | nil => exact foundTail.isLiteral_of_split allNamed_nil spaceBlank isLiteral restEq.symm
        | cons second behind =>
            rw [restEq] at foundTail
            exact absurd foundTail (ComparisonTail.not_inside_word (wordEq ▸ letters symbol listed)
              (List.cons_ne_nil _ _) (List.cons_ne_nil _ _))

/-- The literal that is found in a term of the grammar is a literal of the grammar. -/
theorem isLiteral_of_comparedLiteral {term found : List Char} (isTerm : TermText IsLiteral term)
    (compared : comparedLiteral term = some found) : IsLiteral found := by
  unfold comparedLiteral at compared
  obtain ⟨noFlag, compared⟩ := Option.ite_none_left_eq_some.mp compared
  obtain ⟨⟨other, sign, _⟩, searched, rfl⟩ := Option.map_eq_some_iff.mp compared
  obtain ⟨text, dollar, searched⟩ := Option.bind_eq_some_iff.mp searched
  rw [List.isPrefixOf?_eq_some_iff_append_eq] at dollar
  cases isTerm with
  | isSet isName =>
      rw [readFlag_cons isName] at noFlag
      exact absurd rfl noFlag
  | isNotSetWord _ _ => cases dollar
  | isNotSetSign _ _ => cases dollar
  | @comparison name gap symbol space literal isName gapBlank spaceBlank compares isLiteral =>
      obtain rfl : text = _ := (List.cons.inj dollar).2
      obtain ⟨rest, otherName, split, here, longest⟩ := exists_of_splitComparison searched
      refine isLiteral_of_comparison gapBlank spaceBlank compares isLiteral otherName split ?_ here
      exact longest name _ isName rfl (ComparisonTail.isSome
        ⟨isLiteral.isPhrase, gap, space, gapBlank, spaceBlank, compares, rfl⟩)

/-! ## Expressions -/

private theorem isSome_mapM_iff {parts : List (List Char)} {read : List Char → Option Condition} :
    (parts.mapM read).isSome = true ↔ ∀ part ∈ parts, (read part).isSome = true := by
  induction parts with
  | nil => simp
  | cons part parts inductionHypothesis =>
      rw [List.forall_mem_cons, ← inductionHypothesis, List.mapM_cons]
      cases read part <;> cases parts.mapM read <;> simp

private theorem isSome_readExpression_iff {text : List Char} :
    (readExpression text).isSome = true ↔
      trim text = [] ∨ ∀ term ∈ splitTerms (trim text), (readTerm term).isSome = true := by
  unfold readExpression
  dsimp only
  by_cases empty : trim text = []
  · simp [empty]
  · rw [if_neg (by simpa using empty), isSome_mapM_iff]
    simp [empty]

private theorem sentence_iff {allowed : List Char → Prop} {text : List Char} :
    Sentence allowed text ↔
      trim text = [] ∨ ∀ term ∈ splitTerms (trim text), TermText allowed (trim term) := by
  unfold Sentence
  simp only [divided_iff, exists_eq_left']

private theorem readTerm_trim (raw : List Char) : readTerm (trim raw) = readTerm raw := by
  unfold readTerm
  rw [trimmed_trim raw]

private theorem isPhrase_of_comparedLiteral {term literal : List Char}
    (compared : comparedLiteral term = some literal) : IsPhrase literal := by
  unfold comparedLiteral at compared
  obtain ⟨-, compared⟩ := Option.ite_none_left_eq_some.mp compared
  obtain ⟨⟨name, sign, _⟩, searched, rfl⟩ := Option.map_eq_some_iff.mp compared
  obtain ⟨text, -, searched⟩ := Option.bind_eq_some_iff.mp searched
  obtain ⟨rest, -, -, here, -⟩ := exists_of_splitComparison searched
  exact (comparisonTail_of_comparisonBehind here).2.phrase

private theorem isSome_readExpression_iff_sentence {text : List Char} :
    (readExpression text).isSome = true ↔ Sentence IsPhrase text := by
  rw [isSome_readExpression_iff, sentence_iff]
  refine or_congr_right (forall₂_congr fun term _ => ⟨fun read => ?_, fun isTerm => ?_⟩)
  · exact termText_of_readTerm read fun literal => isPhrase_of_comparedLiteral
  · rw [← readTerm_trim]
    exact isSome_readTerm isTerm (trimmed_trim term)

private theorem Sentence.mono {allowed permitted : List Char → Prop}
    (weaker : ∀ literal, allowed literal → permitted literal) {text : List Char}
    (sentence : Sentence allowed text) : Sentence permitted text := by
  rw [sentence_iff] at sentence ⊢
  exact sentence.imp_right fun each term member => (each term member).mono weaker

/-- An expression is read exactly when it is empty or its terms, with conjunctions outside quoted
literals between them, ask for a flag or compare one with a text on one line. It is a sentence of
the documented grammar exactly when, besides, each of these texts is a literal. -/
theorem readExpression_grammar (text : List Char) :
    ((readExpression text).isSome = true ↔ Sentence IsPhrase text) ∧
      (Sentence IsLiteral text ↔ (readExpression text).isSome = true ∧
        ∀ literal ∈ comparedLiterals text, IsLiteral literal) := by
  refine ⟨isSome_readExpression_iff_sentence, fun sentence => ⟨?_, fun literal member => ?_⟩, ?_⟩
  · exact isSome_readExpression_iff_sentence.mpr (sentence.mono fun _ => IsLiteral.isPhrase)
  · obtain ⟨term, listed, compared⟩ := List.mem_filterMap.mp member
    rcases sentence_iff.mp sentence with empty | each
    · rw [empty] at listed
      obtain rfl : term = [] := by simpa [splitTerms, splitTermsFrom] using listed
      cases compared
    · exact isLiteral_of_comparedLiteral (each term listed) compared
  · rintro ⟨read, literals⟩
    rw [sentence_iff]
    refine (isSome_readExpression_iff.mp read).imp_right fun each term listed => ?_
    exact termText_of_readTerm (each term listed) fun literal compared =>
      literals literal (List.mem_filterMap.mpr ⟨term, listed, compared⟩)

/-- An expression with another connective is read as one comparison. -/
theorem disjunction_read :
    readExpression "$gold >= 5 or $met".toList =
        some [.compare "gold" .greaterEqual (.text "5 or $met")] ∧
      ¬ Sentence IsLiteral "$gold >= 5 or $met".toList := by
  refine ⟨by decide +kernel, fun sentence => ?_⟩
  have terms : splitTerms "$gold >= 5 or $met".toList = ["$gold >= 5 or $met".toList] := by
    decide +kernel
  have compared : comparedLiteral "$gold >= 5 or $met".toList = some "5 or $met".toList := by
    decide +kernel
  have isTerm : TermText IsLiteral "$gold >= 5 or $met".toList := by
    rcases sentence_iff.mp sentence with empty | each
    · exact absurd empty (by decide)
    · exact each "$gold >= 5 or $met".toList (terms ▸ List.mem_singleton_self _)
  rcases isLiteral_iff.mp (isLiteral_of_comparedLiteral isTerm compared) with isName |
    ⟨quotation, -⟩
  · exact absurd isName (by decide)
  · obtain ⟨quote, rest, start, rfl | rfl⟩ := quotation.exists_cons <;> cases start

end BranchingDialogue.Script

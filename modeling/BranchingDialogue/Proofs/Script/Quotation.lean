import BranchingDialogue.Proofs.Script.Command
import BranchingDialogue.Proofs.Script.Grammar

/-! The comparison and the assignment of a quoted literal have the literal as a whole when it is
between double quotes. Single quotes mean something to the reader of literals only: a conjunction
between them divides the comparison, and a closing bracket between them ends the command. -/

namespace BranchingDialogue.Script

open Text

/-! ## A single quote at the end -/

private theorem Conjunction.not_mem {mark : List Char} (conjunction : Conjunction mark) :
    '\'' ∉ mark := by
  cases conjunction with
  | word beforeBlank _ afterBlank _ =>
      simp [not_mem_of_blank beforeBlank (show isBlank '\'' = false from rfl),
        not_mem_of_blank afterBlank (show isBlank '\'' = false from rfl)]
  | sign beforeBlank afterBlank =>
      simp [not_mem_of_blank beforeBlank (show isBlank '\'' = false from rfl),
        not_mem_of_blank afterBlank (show isBlank '\'' = false from rfl)]

private theorem Conjunction.not_prefix_append {text : List Char}
    (none : ∀ mark, Conjunction mark → ¬ mark <+: text) :
    ∀ mark, Conjunction mark → ¬ mark <+: text ++ ['\''] :=
  fun mark conjunction begins =>
    none mark conjunction (isPrefix_of_append_cons conjunction.not_mem begins)

private theorem beginsQuoted_of_append {text : List Char} (begins : BeginsQuoted (text ++ ['\''])) :
    BeginsQuoted text := by
  obtain ⟨inner, rest, quoted, split⟩ := begins
  rcases List.eq_nil_or_concat rest with rfl | ⟨front, last, rfl⟩
  · -- The literal would end in a single quote.
    have last := congrArg List.getLast? split
    rw [List.getLast?_append_of_ne_nil _ (by simp), List.getLast?_append_of_ne_nil _ (by simp)]
      at last
    cases last
  · rw [List.concat_eq_append, ← List.cons_append, ← List.append_assoc] at split
    exact ⟨inner, front, quoted, (List.append_inj' split rfl).1⟩

/-- A single quote at the end of a text stays in the last term. -/
theorem Divided.append_quote {text : List Char} {terms : List (List Char)}
    (divided : Divided text terms) :
    ∃ before last, terms = before ++ [last] ∧
      Divided (text ++ ['\'']) (before ++ [last ++ ['\'']]) := by
  induction divided with
  | last =>
      refine ⟨[], [], rfl, .plain ?_ ?_ .last⟩
      · rintro ⟨inner, rest, -, equality⟩
        cases equality
      · exact @Conjunction.not_prefix_append [] fun mark conjunction begins =>
          conjunction.filled (List.prefix_nil.mp begins)
  | @quoted inner rest first others literal _ inductionHypothesis =>
      obtain ⟨before, last, split, extended⟩ := inductionHypothesis
      cases before with
      | nil =>
          cases split
          exact ⟨[], _, rfl, by simpa using Divided.quoted literal extended⟩
      | cons head before =>
          cases split
          exact ⟨_ :: before, last, rfl, by simpa using Divided.quoted literal extended⟩
  | @plain character rest first others noLiteral noConjunction _ inductionHypothesis =>
      obtain ⟨before, last, split, extended⟩ := inductionHypothesis
      have stillNone : ¬ BeginsQuoted (character :: (rest ++ ['\''])) :=
        fun begins => noLiteral (beginsQuoted_of_append begins)
      have noMark := Conjunction.not_prefix_append noConjunction
      cases before with
      | nil =>
          cases split
          exact ⟨[], _, rfl, Divided.plain stillNone noMark extended⟩
      | cons head before =>
          cases split
          exact ⟨_ :: before, last, rfl, Divided.plain stillNone noMark extended⟩
  | @conjunction mark rest terms conjunction shown _ inductionHypothesis =>
      obtain ⟨before, last, rfl, extended⟩ := inductionHypothesis
      refine ⟨[] :: before, last, rfl, ?_⟩
      rw [List.append_assoc]
      refine Divided.conjunction conjunction ?_ extended
      cases rest with
      | nil => rintro _ ⟨⟩; rfl
      | cons character others => exact shown

private theorem divided_append_quote_iff {text : List Char} :
    Divided (text ++ ['\'']) [text ++ ['\'']] ↔ Divided text [text] := by
  obtain ⟨first, others, divided⟩ := exists_divided text
  obtain ⟨before, last, split, extended⟩ := divided.append_quote
  rw [divided_iff, divided_iff, divided_iff.mp divided, divided_iff.mp extended, split]
  simp [List.append_eq_singleton_iff]

/-! ## Single terms -/

/-- A term that is read is the only one of an expression exactly when nothing divides it. -/
theorem readExpression_eq_singleton_iff {term : List Char} {condition : Condition}
    (read : readTerm term = some condition) (trimmed : Trimmed term) (filled : term ≠ []) :
    readExpression term = some [condition] ↔ Divided term [term] := by
  have terms : readExpression term = (splitTerms term).mapM readTerm := by
    unfold readExpression
    rw [trimmed]
    exact if_neg (by simpa using filled)
  rw [terms]
  constructor
  · intro found
    obtain ⟨first, others, divided⟩ := exists_divided term
    rw [splitTerms_of_divided divided, List.mapM_cons] at found
    simp only [Option.bind_eq_bind, Option.bind_eq_some_iff] at found
    obtain ⟨_, -, results, rest, equality⟩ := found
    cases equality
    cases others with
    | nil =>
        obtain rfl := divided.eq_of_singleton
        exact divided
    | cons second behind =>
        rw [List.mapM_cons] at rest
        simp [Option.bind_eq_some_iff] at rest
  · intro divided
    rw [splitTerms_of_divided divided, List.mapM_cons, read]
    rfl

/-! ## Quoted right-hand sides -/

private theorem QuotedText.sideText {inner : List Char} (quoted : QuotedText inner) :
    SideText false ('"' :: inner ++ ['"']) := by
  refine .unquoted (by decide) ?_
  show SideText true (inner ++ ['"'])
  induction quoted with
  | empty => exact .quoted (by decide) .empty
  | escaped notFeed _ inductionHypothesis => exact .escaped notFeed inductionHypothesis
  | @plain character rest noBackslash noQuote _ inductionHypothesis =>
      refine .quoted noBackslash ?_
      rw [bne_iff_ne.mpr noQuote]
      exact inductionHypothesis

/-- Single quotes hide nothing in a right-hand side. -/
theorem sideText_singleQuoted_iff {inner : List Char} :
    SideText false ('\'' :: inner ++ ['\'']) ↔ SideText false inner := by
  rw [sideText_append_plain_iff (by decide) (by decide)]
  constructor
  · rintro (_ | _ | _ | ⟨-, closed⟩)
    exact closed
  · exact fun closed => .unquoted (by decide) closed

/-! ## Quoted literals in their places -/

/-- The comparison of a flag with a literal, with single spaces between its parts. -/
def comparisonLine (flag symbol : String) (literal : List Char) : List Char :=
  '$' :: (flag.toList ++ ' ' :: (symbol.toList ++ ' ' :: literal))

section Places

variable {flag symbol : String} {operator : Operator} {literal : List Char} {content : String}

/-- A quoted literal is compared as a whole exactly when nothing divides the comparison. -/
theorem readExpression_comparisonLine_iff (scriptable : isScriptable flag = true)
    (meaning : Operator.ofSymbol? symbol = some operator) (filled : literal ≠ [])
    (oneLine : OneLine literal) (trimmed : Trimmed literal)
    (read : readLiteral literal = some (.text content)) :
    readExpression (comparisonLine flag symbol literal) =
        some [.compare flag operator (.text content)] ↔
      Divided (comparisonLine flag symbol literal) [comparisonLine flag symbol literal] := by
  have term := readTerm_spaced scriptable (listed_of_ofSymbol? meaning) meaning filled oneLine
    trimmed read
  rw [String.ofList_toList] at term
  have ends := Trimmed.append (show Trimmed ['$'] from rfl) (by simp) trimmed filled
    (flag.toList ++ ' ' :: (symbol.toList ++ [' ']))
  refine readExpression_eq_singleton_iff term ?_ (List.cons_ne_nil _ _)
  simpa [comparisonLine] using ends

private theorem readCommand_text_iff (scriptable : isScriptable flag = true) (filled : literal ≠ [])
    (trimmed : Trimmed literal) (noFlag : literal.head? ≠ some '$')
    (read : readLiteral literal = some (.text content)) :
    readCommand (assignmentLine flag.toList literal) =
        some ⟨flag, .literal (.text content)⟩ ↔ SideText false literal := by
  have value : readSetExpression literal = some (.literal (.text content)) := by
    unfold readSetExpression
    rw [trimmed]
    split
    · exact absurd rfl noFlag
    · rw [read]
      rfl
  rw [readCommand_assignmentLine_iff scriptable filled trimmed]
  exact and_iff_left value

/-- Between double quotes a literal is compared and assigned as a whole. -/
theorem doubleQuoted_read (scriptable : isScriptable flag = true)
    (meaning : Operator.ofSymbol? symbol = some operator) {inner : List Char}
    (quoted : QuotedText inner) (oneLine : OneLine inner)
    (read : readLiteral ('"' :: inner ++ ['"']) = some (.text content)) :
    readExpression (comparisonLine flag symbol ('"' :: inner ++ ['"'])) =
        some [.compare flag operator (.text content)] ∧
      readCommand (assignmentLine flag.toList ('"' :: inner ++ ['"'])) =
        some ⟨flag, .literal (.text content)⟩ := by
  have filled : '"' :: inner ++ ['"'] ≠ [] := by simp
  have trimmed := trimmed_quoted (Or.inl rfl) inner
  have lineEnd : OneLine ('"' :: inner ++ ['"']) :=
    (oneLine.append (by decide)).cons (by decide)
  constructor
  · rw [readExpression_comparisonLine_iff scriptable meaning filled lineEnd trimmed
      read]
    have whole : Whole (comparisonLine flag symbol ('"' :: inner ++ ['"'])) :=
      whole_spaced scriptable (listed_of_ofSymbol? meaning) rfl (by decide) (by decide) quoted.whole
    have only := whole.divided_iff.mpr Divided.last
    rwa [List.append_nil] at only
  · exact (readCommand_text_iff scriptable filled trimmed (by rintro ⟨⟩) read).mpr
      quoted.sideText

/-- Between single quotes a literal is compared as a whole exactly when its text is a single term,
and assigned as a whole exactly when its text is a right-hand side. -/
theorem singleQuoted_read_iff (scriptable : isScriptable flag = true)
    (meaning : Operator.ofSymbol? symbol = some operator) {inner : List Char}
    (oneLine : OneLine inner)
    (read : readLiteral ('\'' :: inner ++ ['\'']) = some (.text content)) :
    (readExpression (comparisonLine flag symbol ('\'' :: inner ++ ['\''])) =
        some [.compare flag operator (.text content)] ↔ Divided inner [inner]) ∧
      (readCommand (assignmentLine flag.toList ('\'' :: inner ++ ['\''])) =
        some ⟨flag, .literal (.text content)⟩ ↔ SideText false inner) := by
  have filled : '\'' :: inner ++ ['\''] ≠ [] := by simp
  have trimmed := trimmed_quoted (Or.inr rfl) inner
  have lineEnd : OneLine ('\'' :: inner ++ ['\'']) :=
    (oneLine.append (by decide)).cons (by decide)
  constructor
  · have opened : Whole (comparisonLine flag symbol ['\'']) :=
      whole_spaced scriptable (listed_of_ofSymbol? meaning) rfl (by decide) (by decide)
        (whole_of_forall (by decide))
    have split : comparisonLine flag symbol ('\'' :: inner ++ ['\'']) =
        comparisonLine flag symbol ['\''] ++ (inner ++ ['\'']) := by
      simp [comparisonLine]
    rw [readExpression_comparisonLine_iff scriptable meaning filled lineEnd trimmed read, split,
      opened.divided_iff, divided_append_quote_iff]
  · rw [readCommand_text_iff scriptable filled trimmed (by rintro ⟨⟩) read]
    exact sideText_singleQuoted_iff

/-- A literal between double quotes is always one literal, whatever its text has. A literal between
single quotes is one in a comparison exactly when no conjunction divides its text, and one in a
command exactly when its text closes its double quotes and has no closing bracket outside them. -/
theorem quotation_read (scriptable : isScriptable flag = true)
    (meaning : Operator.ofSymbol? symbol = some operator) :
    (∀ inner, QuotedText inner → OneLine inner →
      let content := String.ofList (unescape quotedMarks inner)
      readLiteral ('"' :: inner ++ ['"']) = some (.text content) ∧
        readExpression (comparisonLine flag symbol ('"' :: inner ++ ['"'])) =
          some [.compare flag operator (.text content)] ∧
        readCommand (assignmentLine flag.toList ('"' :: inner ++ ['"'])) =
          some ⟨flag, .literal (.text content)⟩) ∧
    ∀ inner, '\\' ∉ inner → OneLine inner →
      let content := String.ofList inner
      readLiteral ('\'' :: inner ++ ['\'']) = some (.text content) ∧
        (readExpression (comparisonLine flag symbol ('\'' :: inner ++ ['\''])) =
          some [.compare flag operator (.text content)] ↔ Divided inner [inner]) ∧
        (readCommand (assignmentLine flag.toList ('\'' :: inner ++ ['\''])) =
          some ⟨flag, .literal (.text content)⟩ ↔ SideText false inner) := by
  refine ⟨fun inner quoted oneLine => ?_, fun inner plain oneLine => ?_⟩
  · have read := readLiteral_quoted (Or.inl rfl) inner
    exact ⟨read, doubleQuoted_read scriptable meaning quoted oneLine read⟩
  · have same : unescape quotedMarks inner = inner := by
      simpa [unescape] using @unescape_append quotedMarks inner plain []
    have read := readLiteral_quoted (Or.inr rfl) inner
    rw [same] at read
    exact ⟨read, singleQuoted_read_iff scriptable meaning oneLine read⟩

end Places

theorem quotation_read_title :
    isScriptable "title" = true ∧ Operator.ofSymbol? "is" = some .equals ∧
      readExpression "$title is \"a \\\"and\\\" b && c >> $d\"".toList =
        some [.compare "title" .equals (.text "a \"and\" b && c >> $d")] ∧
      readCommand "<<set $title = 'a \"and\" < $b'>>".toList =
        some ⟨"title", .literal (.text "a \"and\" < $b")⟩ := by
  have scriptable : isScriptable "title" = true := by decide
  have meaning : Operator.ofSymbol? "is" = some .equals := rfl
  have quoted : QuotedText "a \\\"and\\\" b && c >> $d".toList :=
    quotedText_escape "a \"and\" b && c >> $d".toList
  have read : rightHandSide false ("a \"and\" < $b".toList ++ ['>', '>']) =
      some ("a \"and\" < $b".toList, []) := by
    decide
  have side := (rightHandSide_eq_some_iff.mp read).1
  exact ⟨scriptable, meaning, ((quotation_read scriptable meaning).1 _ quoted (by decide)).2.1,
    ((quotation_read scriptable meaning).2 _ (by decide) (by decide)).2.2.mpr side⟩

/-- A conjunction between single quotes divides a comparison, and a closing bracket between single
quotes closes no command. -/
theorem singleQuoted_split :
    isScriptable "title" = true ∧ Operator.ofSymbol? "==" = some .equals ∧
      readLiteral "'Lord and Master'".toList = some (.text "Lord and Master") ∧
      readExpression "$title == 'Lord and Master'".toList = none ∧
      readLiteral "'a > b'".toList = some (.text "a > b") ∧
      readCommand "<<set $title = 'a > b'>>".toList = none := by
  decide +kernel

end BranchingDialogue.Script

import BranchingDialogue.Proofs.Script.Command
import BranchingDialogue.Proofs.Script.Scriptable

/-! Flags, conditions, commands and choices that are read from a script can be written in one. The
only exception is the undefined number, which can be read but is equal to nothing. -/

namespace BranchingDialogue

open Script

/-- Whether the value of a condition, if it has one, is not the undefined number. -/
def Condition.Defined (condition : Condition) : Prop :=
  ∀ value ∈ condition.value, value.Defined

instance : DecidablePred Condition.Defined := fun condition =>
  inferInstanceAs (Decidable (∀ value ∈ condition.value, value.Defined))

theorem Condition.Scriptable.defined {condition : Condition} (scriptable : condition.Scriptable) :
    condition.Defined := by
  intro value valueEq
  cases compares : condition.operator.comparesValue with
  | false =>
      rw [scriptable.plain compares] at valueEq
      cases valueEq
  | true =>
      obtain ⟨found, foundEq, defined, -⟩ := scriptable.compared compares
      cases foundEq.symm.trans valueEq
      exact defined

namespace Script

open Text

/-! ## Flags -/

private theorem isScriptable_of_name {name : List Char} (isName : isFlagName name = true) :
    isScriptable (String.ofList name) = true := by
  rw [isScriptable, String.toList_ofList]
  exact isName

private theorem isScriptable_of_readFlag {text : List Char} {flag : String}
    (read : readFlag text = some flag) : isScriptable flag = true := by
  unfold readFlag at read
  split at read
  · split at read
    · rename_i isName
      cases read
      exact isScriptable_of_name isName
    · cases read
  · cases read

theorem isScriptable_of_readCommand {line : List Char} {command : SetCommand}
    (read : readCommand line = some command) : isScriptable command.flag = true := by
  unfold readCommand at read
  split at read
  · rename_i raw found
    obtain ⟨_, isText, -⟩ := commandText_of_commandAt found
    obtain ⟨expression, -, rfl⟩ := Option.map_eq_some_iff.mp read
    exact isScriptable_of_name isText.isFlagName
  · cases read

/-! ## Conditions -/

private theorem mem_of_mem_betweenQuotes {quote : Char} {text inner : List Char}
    (found : betweenQuotes quote text = some inner) {character : Char}
    (member : character ∈ inner) : character ∈ text := by
  unfold betweenQuotes at found
  obtain ⟨rest, lead, tail⟩ := Option.bind_eq_some_iff.mp found
  rw [← List.append_eq_of_isPrefixOf?_eq_some lead, ← List.append_eq_of_isSuffixOf?_eq_some tail]
  simp [member]

private theorem oneLine_of_readLiteral {raw : List Char} (oneLine : OneLine raw) {value : Value}
    (read : readLiteral raw = some value) : value.OneLine := by
  have textLine : OneLine (trim raw) := fun feed => oneLine (mem_of_mem_trim feed)
  unfold readLiteral at read
  dsimp only at read
  split at read
  · cases read
  · split at read
    · cases read
      trivial
    · split at read
      · cases read
        trivial
      · split at read
        · cases read
          trivial
        · split at read
          · rename_i inner between
            cases read
            have inText {character : Char} (member : character ∈ inner) :
                character ∈ trim raw := by
              have either := Option.or_eq_some_iff.mp (Option.orElse_eq_or.symm.trans between)
              rcases either with double | ⟨-, single⟩
              · exact mem_of_mem_betweenQuotes double member
              · exact mem_of_mem_betweenQuotes single member
            intro feed
            rw [String.toList_ofList] at feed
            exact textLine (inText (mem_of_mem_unescape feed))
          · cases read
            intro feed
            rw [String.toList_ofList] at feed
            exact textLine feed

private theorem comparesValue_of_ofSymbol? {symbol : String} {operator : Operator}
    (found : Operator.ofSymbol? symbol = some operator) : operator.comparesValue = true := by
  unfold Operator.ofSymbol? at found
  split at found <;> cases found <;> rfl

/-- A condition that has been read is scriptable if its value is defined. -/
theorem scriptable_of_readTerm {raw : List Char} {condition : Condition}
    (read : readTerm raw = some condition) (defined : condition.Defined) :
    condition.Scriptable := by
  unfold readTerm at read
  dsimp only at read
  split at read
  · obtain ⟨flag, flagRead, rfl⟩ := Option.map_eq_some_iff.mp read
    exact ⟨isScriptable_of_readFlag flagRead, (by rintro ⟨⟩), fun _ => rfl⟩
  · split at read
    · rename_i flag flagRead
      cases read
      exact ⟨isScriptable_of_readFlag flagRead, (by rintro ⟨⟩), fun _ => rfl⟩
    · simp only [Option.bind_eq_bind, Option.bind_eq_some_iff] at read
      obtain ⟨⟨name, symbol, literal⟩, ⟨rest, -, split⟩, operator, operatorEq, value, valueRead,
        equality⟩ := read
      cases equality
      obtain ⟨_, isName, -, here, -⟩ := exists_of_splitComparison split
      have literalLine := (comparisonTail_of_comparisonBehind here).2.phrase.oneLine
      have compares := comparesValue_of_ofSymbol? operatorEq
      refine ⟨isScriptable_of_name isName, fun _ => ?_, fun plain => ?_⟩
      · exact ⟨value, rfl, defined value rfl, oneLine_of_readLiteral literalLine valueRead⟩
      · exact absurd (compares.symm.trans plain) (by decide)

/-- Conditions that have been read come of terms. -/
theorem exists_term_of_readExpression {raw : List Char} {conditions : List Condition}
    (read : readExpression raw = some conditions) :
    ∀ condition ∈ conditions, ∃ term, readTerm term = some condition := by
  have ofTerms (terms : List (List Char)) (results : List Condition)
      (found : terms.mapM readTerm = some results) :
      ∀ condition ∈ results, ∃ term, readTerm term = some condition := by
    induction terms generalizing results with
    | nil =>
        cases found
        simp
    | cons term terms inductionHypothesis =>
        rw [List.mapM_cons] at found
        simp only [Option.bind_eq_bind, Option.bind_eq_some_iff] at found
        obtain ⟨first, firstRead, others, othersRead, equality⟩ := found
        cases equality
        exact List.forall_mem_cons.mpr
          ⟨⟨term, firstRead⟩, inductionHypothesis others othersRead⟩
  unfold readExpression at read
  dsimp only at read
  split at read
  · cases read
    simp
  · exact ofTerms _ _ read

/-- Conditions that have been read are scriptable if their values are defined. -/
theorem scriptable_of_readExpression {raw : List Char} {conditions : List Condition}
    (read : readExpression raw = some conditions) :
    ∀ condition ∈ conditions, condition.Defined → condition.Scriptable := by
  intro condition listed
  obtain ⟨term, termRead⟩ := exists_term_of_readExpression read condition listed
  exact scriptable_of_readTerm termRead

/-- The lists of conditions that are read back from their expressions are the lists of scriptable
conditions, but for the undefined number, that is equal to nothing. -/
theorem readExpression_writeExpression_iff (conditions : List Condition) :
    (readExpression (writeExpression conditions) = some conditions ∧
        ∀ condition ∈ conditions, condition.Defined) ↔
      ∀ condition ∈ conditions, condition.Scriptable := by
  constructor
  · rintro ⟨read, defined⟩ condition listed
    exact scriptable_of_readExpression read condition listed (defined condition listed)
  · intro scriptable
    exact ⟨readExpression_writeExpression scriptable, fun condition listed =>
      (scriptable condition listed).defined⟩

-- No conjunction and no quote inside a literal divides the expression.
example :
    let conditions : List Condition :=
      [⟨"name", .equals, some (.text "a \"and\" b\\ && <<if $c>> ")⟩, .isNotSet "x",
        ⟨"gold", .lessEqual, some (.number 2.5)⟩]
    readExpression (writeExpression conditions) = some conditions := by
  decide +kernel

/-! ## Choices -/

/-- The text of a choice that has been read is a label, in which no condition begins. -/
theorem of_splitChoice {text shown : List Char} {conditions : List Condition}
    (split : Draft.splitChoice text = some (shown, conditions)) (trimmed : Trimmed text)
    (oneLine : OneLine text) :
    Trimmed shown ∧ OneLine shown ∧ ¬ "<<if".toList <:+: shown ∧
      ∀ condition ∈ conditions, condition.Defined → condition.Scriptable := by
  unfold Draft.splitChoice at split
  split at split
  · rename_i absent
    cases split
    exact ⟨trimmed, oneLine, cut_eq_none_iff.mp absent, by simp⟩
  · rename_i before after cutEq
    obtain ⟨found, read, equality⟩ := Option.map_eq_some_iff.mp split
    cases equality
    obtain ⟨expression, -, expressionRead⟩ := Option.bind_eq_some_iff.mp read
    have textEq := eq_append_of_cut cutEq
    refine ⟨trimmed_trim before, ?_, ?_, scriptable_of_readExpression expressionRead⟩
    · intro feed
      apply oneLine
      rw [textEq]
      exact List.mem_append_left _ (List.mem_append_left _ (mem_of_mem_trim feed))
    · intro inside
      obtain ⟨front, back, beforeEq, -, -⟩ := exists_eq_append_trim before
      have within : "<<if".toList <:+: before := by
        rw [beforeEq]
        exact inside.trans ⟨front, back, rfl⟩
      exact not_infix_of_cut (by decide) cutEq within

end Script

end BranchingDialogue

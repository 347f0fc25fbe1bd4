import BranchingDialogue.Proofs.Script.FlagName
import BranchingDialogue.Proofs.Text.Cut
import BranchingDialogue.Proofs.Text.Lines
import BranchingDialogue.Script.Expression

/-! The parts of a comparison are a flag name, a sign or a word of comparison, and a literal on one
line, with blanks between them. They are found exactly where they stand. A sign that is the
beginning of a longer one is found when the longer one does not stand there. -/

namespace BranchingDialogue.Script

open Text

/-! ## Literal texts -/

/-- Whether a text can be the literal of a comparison: it is on one line and begins with no blank. -/
structure IsPhrase (text : List Char) : Prop where
  filled : text ≠ []
  shown : ∀ character, text.head? = some character → isBlank character = false
  oneLine : OneLine text

private theorem literalText_eq_some_iff {text literal : List Char} :
    literalText text = some literal ↔
      IsPhrase literal ∧ ∃ space, AllBlank space ∧ text = space ++ literal := by
  constructor
  · intro found
    obtain ⟨space, split, spaceBlank⟩ := exists_eq_append_trimStart text
    obtain ⟨plain, equality⟩ := Option.ite_none_left_eq_some.mp found
    obtain rfl : trimStart text = literal := Option.some.inj equality
    obtain ⟨filled, oneLine⟩ : trimStart text ≠ [] ∧ '\n' ∉ trimStart text := by
      simpa using plain
    exact ⟨⟨filled, fun _ => head?_trimStart text, oneLine⟩, space, spaceBlank, split⟩
  · rintro ⟨⟨filled, shown, oneLine⟩, space, spaceBlank, rfl⟩
    unfold OneLine at oneLine
    unfold literalText
    rw [trimStart_append_of_head? spaceBlank shown]
    simp [filled, oneLine]

/-! ## Signs and words -/

theorem isSome_ofSymbol? {symbol : String} (listed : symbol ∈ comparisonSigns ++ comparisonWords) :
    (Operator.ofSymbol? symbol).isSome = true := by
  revert symbol
  decide

theorem listed_of_ofSymbol? {symbol : String} {operator : Operator}
    (meaning : Operator.ofSymbol? symbol = some operator) :
    symbol ∈ comparisonSigns ++ comparisonWords := by
  unfold Operator.ofSymbol? at meaning
  split at meaning <;> cases meaning <;> decide

/-- What can stand between the name of a flag and the literal of a comparison. -/
inductive Compares (name gap rest : List Char) : String → Prop
  | sign {symbol} (listed : symbol ∈ comparisonSigns) : Compares name gap rest symbol
  | word {symbol} (listed : symbol ∈ comparisonWords) (apart : StandsApart name gap rest) :
      Compares name gap rest symbol

theorem Compares.listed {name gap rest : List Char} {symbol : String}
    (compares : Compares name gap rest symbol) : symbol ∈ comparisonSigns ++ comparisonWords := by
  cases compares with
  | sign listed => exact List.mem_append_left _ listed
  | word listed _ => exact List.mem_append_right _ listed

theorem Compares.head_shown {name gap rest : List Char} {symbol : String}
    (compares : Compares name gap rest symbol) (after : List Char) :
    ∀ character, (symbol.toList ++ after).head? = some character →
      isBlank character = false := by
  have shapes : ∀ symbol ∈ comparisonSigns ++ comparisonWords,
      ∃ first others, symbol.toList = first :: others ∧ isBlank first = false := by
    simp [comparisonSigns, comparisonWords, isBlank]
  obtain ⟨first, others, equality, shown⟩ := shapes symbol compares.listed
  rw [equality]
  rintro _ ⟨⟩
  exact shown

private theorem signAndLiteral_append {symbol : String} (listed : symbol ∈ comparisonSigns)
    {rest literal : List Char} (found : literalText rest = some literal)
    (noEquals : rest.head? ≠ some '=') :
    signAndLiteral (symbol.toList ++ rest) = some (symbol, literal) := by
  have noLonger : List.isPrefixOf? ['='] rest = none := by
    rw [isPrefixOf?_eq_none_iff]
    rintro ⟨others, rfl⟩
    exact noEquals rfl
  simp only [comparisonSigns, List.mem_cons, List.not_mem_nil, or_false] at listed
  rcases listed with rfl | rfl | rfl | rfl | rfl | rfl <;>
    simp [signAndLiteral, comparisonSigns, List.isPrefixOf?, found, noLonger]

private theorem wordAndLiteral_append {word : String} (listed : word ∈ comparisonWords)
    {rest literal : List Char} (found : literalText rest = some literal)
    (outside : startsOutsideWord rest = true) :
    signAndLiteral (word.toList ++ rest) = none ∧
      wordAndLiteral (word.toList ++ rest) = some (word, literal) := by
  have noLonger : List.isPrefixOf? ['e'] rest = none := by
    rw [isPrefixOf?_eq_none_iff]
    rintro ⟨others, rfl⟩
    cases outside
  simp only [comparisonWords, List.mem_cons, List.not_mem_nil, or_false] at listed
  rcases listed with rfl | rfl | rfl | rfl | rfl | rfl | rfl <;>
    simp [signAndLiteral, comparisonSigns, wordAndLiteral, comparisonWords, List.isPrefixOf?, found,
      noLonger, outside]

/-! ## The search for a comparison -/

def comparisonBehind (name rest : List Char) : Option (List Char × String × List Char) :=
  let trimmed := trimStart rest
  let apart := trimmed.length < rest.length || !(name.getLast?.any isWordCharacter)
  let found := signAndLiteral trimmed <|> (if apart then wordAndLiteral trimmed else none)
  found.map fun (symbol, literal) => (name, symbol, literal)

theorem splitComparison_eq (text : List Char) :
    splitComparison text =
      (nameSplits text).findSome? fun (name, rest) => comparisonBehind name rest :=
  rfl

/-- The parts of a comparison behind a name. -/
structure ComparisonTail (name : List Char) (symbol : String) (literal rest : List Char) : Prop where
  phrase : IsPhrase literal
  split : ∃ gap space, AllBlank gap ∧ AllBlank space ∧ Compares name gap (space ++ literal) symbol ∧
    rest = gap ++ (symbol.toList ++ (space ++ literal))

theorem comparisonTail_of_comparisonBehind {name rest found literal : List Char} {symbol : String}
    (read : comparisonBehind name rest = some (found, symbol, literal)) :
    found = name ∧ ComparisonTail name symbol literal rest := by
  obtain ⟨gap, split, gapBlank⟩ := exists_eq_append_trimStart rest
  obtain ⟨⟨_, _⟩, searched, equality⟩ := Option.map_eq_some_iff.mp read
  cases equality
  refine ⟨rfl, ?_⟩
  rcases Option.or_eq_some_iff.mp (Option.orElse_eq_or.symm.trans searched) with bySign | ⟨-, byWord⟩
  · obtain ⟨sign, listed, found⟩ := List.exists_of_findSome?_eq_some bySign
    obtain ⟨literal, literalEq, equality⟩ := Option.map_eq_some_iff.mp found
    cases equality
    obtain ⟨after, lead, literalRead⟩ := Option.bind_eq_some_iff.mp literalEq
    obtain ⟨phrase, space, spaceBlank, rfl⟩ := literalText_eq_some_iff.mp literalRead
    rw [← List.append_eq_of_isPrefixOf?_eq_some lead] at split
    exact ⟨phrase, gap, space, gapBlank, spaceBlank, .sign listed, split⟩
  · obtain ⟨apart, byWord⟩ := Option.ite_none_right_eq_some.mp byWord
    obtain ⟨word, listed, found⟩ := List.exists_of_findSome?_eq_some byWord
    cases lead : List.isPrefixOf? word.toList (trimStart rest) with
    | none =>
        rw [lead] at found
        cases found
    | some after =>
        rw [lead] at found
        obtain ⟨outside, found⟩ := Option.ite_none_right_eq_some.mp found
        obtain ⟨literal, literalRead, equality⟩ := Option.map_eq_some_iff.mp found
        cases equality
        obtain ⟨phrase, space, spaceBlank, rfl⟩ := literalText_eq_some_iff.mp literalRead
        have before : gap = [] → name.getLast?.any isWordCharacter = false := by
          rw [split, trimStart_append_of_head? gapBlank fun _ => head?_trimStart rest,
            apart_iff] at apart
          exact apart
        rw [← List.append_eq_of_isPrefixOf?_eq_some lead] at split
        exact ⟨phrase, gap, space, gapBlank, spaceBlank, .word listed ⟨before, outside⟩, split⟩

private theorem trimStart_of_compares {name gap rest after : List Char} {symbol : String}
    (gapBlank : AllBlank gap) (compares : Compares name gap rest symbol) :
    trimStart (gap ++ (symbol.toList ++ after)) = symbol.toList ++ after :=
  trimStart_append_of_head? gapBlank (compares.head_shown after)

theorem ComparisonTail.isSome {name rest literal : List Char} {symbol : String}
    (tail : ComparisonTail name symbol literal rest) :
    (comparisonBehind name rest).isSome = true := by
  obtain ⟨phrase, gap, space, gapBlank, spaceBlank, compares, rfl⟩ := tail
  have read : literalText (space ++ literal) = some literal :=
    literalText_eq_some_iff.mpr ⟨phrase, space, spaceBlank, rfl⟩
  unfold comparisonBehind
  rw [trimStart_of_compares gapBlank compares]
  cases compares with
  | sign listed =>
      have found : (signAndLiteral (symbol.toList ++ (space ++ literal))).isSome = true :=
        List.findSome?_isSome_iff.mpr ⟨symbol, listed, by simp [read]⟩
      simp [found]
  | word listed apart =>
      obtain ⟨noSign, found⟩ := wordAndLiteral_append listed read apart.after
      simp only [apart_iff.mpr apart.before, noSign, found]
      rfl

/-- The comparison that is found is the one that stands there, unless an equality sign behind its
sign continues it. -/
theorem comparisonBehind_append {name gap space literal : List Char} {symbol : String}
    (gapBlank : AllBlank gap) (spaceBlank : AllBlank space)
    (compares : Compares name gap (space ++ literal) symbol) (phrase : IsPhrase literal)
    (noEquals : (space ++ literal).head? ≠ some '=') :
    comparisonBehind name (gap ++ (symbol.toList ++ (space ++ literal))) =
      some (name, symbol, literal) := by
  have read : literalText (space ++ literal) = some literal :=
    literalText_eq_some_iff.mpr ⟨phrase, space, spaceBlank, rfl⟩
  unfold comparisonBehind
  rw [trimStart_of_compares gapBlank compares]
  cases compares with
  | sign listed =>
      dsimp only
      rw [signAndLiteral_append listed read noEquals]
      rfl
  | word listed apart =>
      obtain ⟨noSign, found⟩ := wordAndLiteral_append listed read apart.after
      simp only [apart_iff.mpr apart.before, noSign, found]
      rfl

/-! ## Divided comparisons -/

/-- The comparison that is found stands behind the longest name that leaves one. -/
theorem exists_of_splitComparison {text name literal : List Char} {symbol : String}
    (found : splitComparison text = some (name, symbol, literal)) :
    ∃ rest, isFlagName name = true ∧ text = name ++ rest ∧
      comparisonBehind name rest = some (name, symbol, literal) ∧
      ∀ longer tail, isFlagName longer = true → text = longer ++ tail →
        (comparisonBehind longer tail).isSome = true → longer.length ≤ name.length := by
  obtain ⟨front, rest, isName, split, here, longest⟩ := exists_of_findSome?_nameSplits found
  obtain ⟨rfl, -⟩ := comparisonTail_of_comparisonBehind here
  exact ⟨rest, isName, split, here, longest⟩

theorem isSome_splitComparison {name rest literal : List Char} {symbol : String}
    (isName : isFlagName name = true) (tail : ComparisonTail name symbol literal rest) :
    (splitComparison (name ++ rest)).isSome = true := by
  rw [splitComparison_eq, isSome_findSome?_nameSplits]
  exact ⟨name, rest, isName, rfl, tail.isSome⟩

end BranchingDialogue.Script

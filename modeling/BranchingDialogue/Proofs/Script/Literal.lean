import BranchingDialogue.Proofs.Decimal.Reading
import BranchingDialogue.Proofs.Text.Cut
import BranchingDialogue.Proofs.Text.Escape
import BranchingDialogue.Proofs.Text.Lines
import BranchingDialogue.Script.Literal

/-! Every value but the undefined number is read back from its literal. -/

namespace BranchingDialogue

/-- Whether a value is not the undefined number. -/
def Value.Defined : Value → Prop
  | .number amount => amount.isNaN = false
  | _ => True

instance : DecidablePred Value.Defined
  | .number amount => inferInstanceAs (Decidable (amount.isNaN = false))
  | .bool _ | .text _ => inferInstanceAs (Decidable True)

/-- Whether the text of a value, if it is one, is on one line. -/
def Value.OneLine : Value → Prop
  | .text content => Text.OneLine content.toList
  | _ => True

instance : DecidablePred Value.OneLine
  | .text content => inferInstanceAs (Decidable (Text.OneLine content.toList))
  | .bool _ | .number _ => inferInstanceAs (Decidable True)

namespace Script

open Text

/-! ## Texts of numbers -/

private theorem numberText_ne_nil {amount : Float} (defined : amount.isNaN = false) :
    numberText amount ≠ [] := by
  intro empty
  have value := read_numberText defined
  rw [empty] at value
  cases value

theorem not_mem_numberText {amount : Float} (defined : amount.isNaN = false) {character : Char}
    (other : character.isDigit = false) (foreign : character ∉ ['-', '.', 'i', 'n', 'f']) :
    character ∉ numberText amount := by
  intro member
  rcases mem_numberText defined member with digit | sign
  · rw [other] at digit
    exact Bool.noConfusion digit
  · exact foreign sign

theorem shown_of_isAlphanum {character : Char} (letter : character.isAlphanum = true) :
    isBlank character = false := by
  simp only [Char.isAlphanum, Char.isAlpha, Char.isUpper, Char.isLower, Char.isDigit,
    Bool.or_eq_true, Bool.and_eq_true, decide_eq_true_eq, ge_iff_le, UInt32.le_iff_toNat_le]
    at letter
  change ((65 ≤ character.toNat ∧ character.toNat ≤ 90) ∨ 97 ≤ character.toNat ∧
    character.toNat ≤ 122) ∨ 48 ≤ character.toNat ∧ character.toNat ≤ 57 at letter
  rw [Bool.eq_false_iff]
  intro blank
  simp only [isBlank, Bool.or_eq_true, Bool.and_eq_true, decide_eq_true_eq, beq_iff_eq] at blank
  omega

theorem isBlank_of_isDigit {character : Char} (digit : character.isDigit = true) :
    isBlank character = false :=
  shown_of_isAlphanum (by simp [Char.isAlphanum, digit])

theorem shown_numberText {amount : Float} (defined : amount.isNaN = false) :
    ∀ character ∈ numberText amount, isBlank character = false := by
  have signs : ∀ character ∈ ['-', '.', 'i', 'n', 'f'], isBlank character = false := by decide
  intro character member
  rcases mem_numberText defined member with digit | sign
  · exact isBlank_of_isDigit digit
  · exact signs character sign

/-! ## Reading what was written -/

private theorem readLiteral_numberText {amount : Float} (defined : amount.isNaN = false) :
    readLiteral (numberText amount) = some (.number amount) := by
  have trimmed : trim (numberText amount) = numberText amount :=
    trimmed_of_forall (shown_numberText defined)
  have notTrue : numberText amount ≠ "true".toList := by
    have absent : 't' ∉ numberText amount := not_mem_numberText defined rfl (by decide)
    intro equality
    exact absent (by simp [equality])
  have notFalse : numberText amount ≠ "false".toList := by
    have absent : 'a' ∉ numberText amount := not_mem_numberText defined rfl (by decide)
    intro equality
    exact absent (by simp [equality])
  unfold readLiteral
  rw [trimmed]
  dsimp only
  rw [if_neg (by simpa using numberText_ne_nil defined), if_neg notTrue, if_neg notFalse,
    read_numberText defined]

private theorem read_quote_cons {quote : Char} (isQuote : quote = '"' ∨ quote = '\'')
    (rest : List Char) : Decimal.read (quote :: rest) = none := by
  have notName (name : List Char) (other : name.head? ≠ some '"' ∧ name.head? ≠ some '\'') :
      String.ofList (quote :: rest.map Char.toLower) ≠ String.ofList name := by
    intro equality
    rw [String.ofList_inj] at equality
    rw [← equality] at other
    rcases isQuote with rfl | rfl
    · exact other.1 rfl
    · exact other.2 rfl
  have sign : Decimal.signAndRest (quote :: rest) = (false, quote :: rest) := by
    rcases isQuote with rfl | rfl <;> rfl
  have digits : Decimal.readDigits (quote :: rest) = none := by
    rcases isQuote with rfl | rfl <;> rfl
  have lower : (quote :: rest).map Char.toLower = quote :: rest.map Char.toLower := by
    rcases isQuote with rfl | rfl <;> rfl
  unfold Decimal.read
  rw [sign]
  unfold Decimal.readMagnitude
  simp only [lower, digits]
  rw [if_neg, if_neg]
  · rfl
  · exact notName ['n', 'a', 'n'] (by decide)
  · simp only [Bool.or_eq_true, decide_eq_true_eq, not_or]
    exact ⟨notName ['i', 'n', 'f'] (by decide),
      notName ['i', 'n', 'f', 'i', 'n', 'i', 't', 'y'] (by decide)⟩

theorem trimmed_quoted {quote : Char} (isQuote : quote = '"' ∨ quote = '\'') (inner : List Char) :
    Trimmed (quote :: inner ++ [quote]) := by
  have shown : Trimmed [quote] := by
    rcases isQuote with rfl | rfl <;> rfl
  exact shown.append (by simp) shown (by simp) inner

private theorem betweenQuotes_append (quote : Char) (inner : List Char) :
    betweenQuotes quote (quote :: inner ++ [quote]) = some inner := by
  have lead : List.isPrefixOf? [quote] (quote :: inner ++ [quote]) = some (inner ++ [quote]) :=
    isPrefixOf?_append_self [quote] _
  unfold betweenQuotes
  rw [lead, Option.bind_some, isSuffixOf?_append_self]

/-- A literal between quotes of either kind is the text that its escapes stand for. -/
theorem readLiteral_quoted {quote : Char} (isQuote : quote = '"' ∨ quote = '\'')
    (inner : List Char) :
    readLiteral (quote :: inner ++ [quote]) =
      some (.text (String.ofList (unescape quotedMarks inner))) := by
  have trimmed := trimmed_quoted isQuote inner
  have between : (betweenQuotes '"' (quote :: inner ++ [quote]) <|>
      betweenQuotes '\'' (quote :: inner ++ [quote])) = some inner := by
    rcases isQuote with rfl | rfl
    · rw [betweenQuotes_append]
      rfl
    · have other : betweenQuotes '"' ('\'' :: inner ++ ['\'']) = none := rfl
      rw [other, betweenQuotes_append]
      rfl
  have noTruth (truth : List Char) (other : truth.head? ≠ some '"' ∧ truth.head? ≠ some '\'') :
      quote :: inner ++ [quote] ≠ truth := by
    rintro rfl
    rcases isQuote with rfl | rfl
    · exact other.1 rfl
    · exact other.2 rfl
  unfold readLiteral
  rw [trimmed]
  dsimp only
  rw [if_neg (by simp), if_neg (noTruth _ (by decide)), if_neg (noTruth _ (by decide)), between,
    List.cons_append, read_quote_cons isQuote]

private theorem readLiteral_writeText (content : String) :
    readLiteral ('"' :: escape quotedMarks content.toList ++ ['"']) = some (.text content) := by
  have inner : unescape quotedMarks (escape quotedMarks content.toList) = content.toList :=
    unescape_escape (by decide) (fun _ member => member) _
  rw [readLiteral_quoted (Or.inl rfl), inner, String.ofList_toList]

/-- A value is read back from its literal. -/
theorem readLiteral_writeLiteral {value : Value} (defined : value.Defined) :
    readLiteral (writeLiteral value) = some value := by
  cases value with
  | bool truth => cases truth <;> decide
  | number amount => exact readLiteral_numberText defined
  | text content => exact readLiteral_writeText content

/-! ## The shape of literals -/

theorem trimmed_writeLiteral {value : Value} (defined : value.Defined) :
    Trimmed (writeLiteral value) := by
  cases value with
  | bool truth => cases truth <;> rfl
  | number amount => exact trimmed_of_forall (shown_numberText defined)
  | text content => exact trimmed_quoted (Or.inl rfl) _

theorem writeLiteral_ne_nil {value : Value} (defined : value.Defined) :
    writeLiteral value ≠ [] := by
  cases value with
  | bool truth => cases truth <;> decide
  | number amount => exact numberText_ne_nil defined
  | text content => simp [writeLiteral]

theorem oneLine_writeLiteral {value : Value} (defined : value.Defined) (oneLine : value.OneLine) :
    Text.OneLine (writeLiteral value) := by
  cases value with
  | bool truth => cases truth <;> decide
  | number amount => exact not_mem_numberText defined rfl (by decide)
  | text content =>
      have inner : Text.OneLine (escape quotedMarks content.toList) := by
        intro member
        exact oneLine ((mem_escape (by decide)).mp member)
      exact (inner.cons (by decide)).append (by decide)

end Script

end BranchingDialogue

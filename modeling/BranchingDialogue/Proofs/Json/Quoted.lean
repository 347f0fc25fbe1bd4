import BranchingDialogue.Json.Quoted

/-! A text in quotes is read as the text itself, whatever follows the closing quote. -/

namespace BranchingDialogue.Json

/-! ## Characters -/

/-- The escape of a control character gives its value. -/
theorem hexNumber_hexPair {value : Nat} (control : value < 0x20) :
    hexNumber ('0' :: '0' :: hexPair value) = some value := by
  have all : ∀ value < 0x20, hexNumber ('0' :: '0' :: hexPair value) = some value := by decide
  exact all value control

private theorem ofNat_control {character : Char} (control : character.toNat < 0x20) :
    CodeUnit.ofNat character.toNat = .scalar character := by
  have noHalf : ¬ 0xd800 ≤ character.toNat := by omega
  simp [CodeUnit.ofNat, noHalf]

/-- A character that is neither a quote nor a backslash nor a control character stands for
itself. -/
theorem unitsAndRest_cons {character : Char} (noQuote : character ≠ '"')
    (noBackslash : character ≠ '\\') (shown : ¬ character.toNat < 0x20) (rest : List Char) :
    unitsAndRest (character :: rest) =
      (unitsAndRest rest).map fun (units, after) => (.scalar character :: units, after) := by
  rw [unitsAndRest.eq_def]
  split
  · simp_all
  · simp_all
  · simp_all
  · simp_all
  · rename_i equality
    cases equality
    have plain : ¬ (decide (character = '\\') || decide (character.toNat < 0x20)) = true := by
      simp [noBackslash, shown]
    simp only [plain]
    cases unitsAndRest rest <;> rfl

/-- A backslash and a mark stand for the character of the mark. -/
theorem unitsAndRest_escape {mark character : Char} (noCode : mark ≠ 'u')
    (escaped : escapedCharacter mark = some character) (rest : List Char) :
    unitsAndRest ('\\' :: mark :: rest) =
      (unitsAndRest rest).map fun (units, after) => (.scalar character :: units, after) := by
  rw [unitsAndRest.eq_def]
  split
  · simp_all
  · simp_all
  · simp_all
  · rename_i equality
    cases equality
    simp only [escaped]
    cases unitsAndRest rest <;> rfl
  · rename_i noEscape equality
    cases equality
    exact absurd rfl (noEscape mark rest rfl)

private theorem unitsAndRest_control {character : Char} (control : character.toNat < 0x20)
    (rest : List Char) :
    unitsAndRest ('\\' :: 'u' :: '0' :: '0' :: (hexPair character.toNat ++ rest)) =
      (unitsAndRest rest).map fun (units, after) => (.scalar character :: units, after) := by
  have value := hexNumber_hexPair control
  unfold hexPair at value ⊢
  rw [List.cons_append, List.cons_append, List.nil_append, unitsAndRest, value]
  cases unitsAndRest rest with
  | none => rfl
  | some read =>
      rw [Option.map_some, ← ofNat_control control]
      rfl

private theorem unitsAndRest_writeCharacter (character : Char) (rest : List Char) :
    unitsAndRest (writeCharacter character ++ rest) =
      (unitsAndRest rest).map fun (units, after) => (.scalar character :: units, after) := by
  unfold writeCharacter
  split
  · exact unitsAndRest_escape (by decide) rfl rest
  · exact unitsAndRest_escape (by decide) rfl rest
  · exact unitsAndRest_escape (by decide) rfl rest
  · exact unitsAndRest_escape (by decide) rfl rest
  · exact unitsAndRest_escape (by decide) rfl rest
  · exact unitsAndRest_escape (by decide) rfl rest
  · exact unitsAndRest_escape (by decide) rfl rest
  · split
    · rename_i control
      exact unitsAndRest_control control rest
    · rename_i noQuote noBackslash _ _ _ _ _ shown
      exact unitsAndRest_cons noQuote noBackslash shown rest

/-! ## Texts -/

private theorem unitsAndRest_quoted (text rest : List Char) :
    unitsAndRest (text.flatMap writeCharacter ++ '"' :: rest) = some (text.map .scalar, rest) := by
  induction text with
  | nil => rfl
  | cons character text inductionHypothesis =>
      rw [List.flatMap_cons, List.append_assoc, unitsAndRest_writeCharacter, inductionHypothesis]
      rfl

private theorem charactersOfUnits_scalars (text : List Char) :
    charactersOfUnits (text.map .scalar) = some text := by
  induction text with
  | nil => rfl
  | cons character text inductionHypothesis =>
      rw [List.map_cons, charactersOfUnits, inductionHypothesis]
      rfl

/-- A text is read back after its opening quote. -/
theorem textAndRest_quoted (content : String) (rest : List Char) :
    textAndRest (content.toList.flatMap writeCharacter ++ '"' :: rest) =
      some (some content, rest) := by
  rw [textAndRest, unitsAndRest_quoted]
  simp [charactersOfUnits_scalars]

theorem quote_append (content : String) (rest : List Char) :
    quote content ++ rest = '"' :: (content.toList.flatMap writeCharacter ++ '"' :: rest) := by
  simp [quote]

end BranchingDialogue.Json

import Mathlib.Data.List.TakeWhile
import BranchingDialogue.Flag.Value
import BranchingDialogue.Proofs.Decimal.Bits
import BranchingDialogue.Proofs.Decimal.Shortest

/-! The text of every number that is none of the undefined ones is read as that number, with the
same sign and the same bits. -/

namespace BranchingDialogue

namespace Decimal

/-! ## Digits -/

/-- Whether a text consists of decimal digits. -/
def AllDigits (text : List Char) : Prop :=
  ∀ character ∈ text, character.isDigit = true

theorem allDigits_digits (number : Nat) : AllDigits (digits number) :=
  fun _ member => Nat.isDigit_of_mem_toDigits (by decide) (by decide) member

theorem digits_ne_nil (number : Nat) : digits number ≠ [] :=
  Nat.toDigits_ne_nil

theorem wholeNumber_digits (number : Nat) : wholeNumber (digits number) = number :=
  Nat.ofDigitChars_ten_toDigits

theorem wholeNumber_append_zeros (text : List Char) (count : Nat) :
    wholeNumber (text ++ List.replicate count '0') = wholeNumber text * 10 ^ count := by
  show Nat.ofDigitChars 10 (text ++ List.replicate count '0') 0 = _
  rw [Nat.ofDigitChars_append, Nat.ofDigitChars_replicate_zero, Nat.mul_comm]
  rfl

theorem wholeNumber_zeros_append (count : Nat) (text : List Char) :
    wholeNumber (List.replicate count '0' ++ text) = wholeNumber text := by
  show Nat.ofDigitChars 10 (List.replicate count '0' ++ text) 0 = _
  rw [Nat.ofDigitChars_append, Nat.ofDigitChars_replicate_zero, Nat.mul_zero]
  rfl

theorem AllDigits.append {front back : List Char} (frontDigits : AllDigits front)
    (backDigits : AllDigits back) : AllDigits (front ++ back) := by
  intro character member
  rcases List.mem_append.mp member with inFront | inBack
  · exact frontDigits character inFront
  · exact backDigits character inBack

theorem allDigits_zeros (count : Nat) : AllDigits (List.replicate count '0') := by
  intro character member
  rw [List.eq_of_mem_replicate member]
  rfl

theorem leadingDigits_of_allDigits {text : List Char} (allDigits : AllDigits text) :
    leadingDigits text = (text, []) := by
  unfold leadingDigits
  rw [List.takeWhile_eq_self_iff.mpr allDigits, List.dropWhile_eq_nil_iff.mpr allDigits]

theorem leadingDigits_append_point {whole : List Char} (allDigits : AllDigits whole)
    (rest : List Char) : leadingDigits (whole ++ '.' :: rest) = (whole, '.' :: rest) := by
  have point : Char.isDigit '.' = false := rfl
  unfold leadingDigits
  rw [List.takeWhile_append_of_pos allDigits, List.dropWhile_append_of_pos allDigits]
  simp [point]

/-! ## Positional texts -/

theorem readDigits_whole {whole : List Char} (allDigits : AllDigits whole) (filled : whole ≠ []) :
    readDigits whole = some (decimalMagnitude (wholeNumber whole) 0) := by
  have notEmpty : whole.isEmpty = false := by simpa using filled
  simp [readDigits, leadingDigits_of_allDigits allDigits, notEmpty, readExponent]

theorem readDigits_places {whole places : List Char} (wholeDigits : AllDigits whole)
    (placeDigits : AllDigits places) (filled : whole ≠ []) :
    readDigits (whole ++ '.' :: places) =
      some (decimalMagnitude (wholeNumber (whole ++ places)) (-places.length)) := by
  have notEmpty : whole.isEmpty = false := by simpa using filled
  simp [readDigits, leadingDigits_append_point wholeDigits, leadingDigits_of_allDigits placeDigits,
    notEmpty, readExponent]

/-- With decimal places the text has a point between digits, and all of them together write the
significand. -/
theorem exists_positionalText_places (significand below : Nat) :
    ∃ whole places, positionalText [] ⟨significand, .negSucc below⟩ = whole ++ '.' :: places ∧
      AllDigits whole ∧ AllDigits places ∧ whole ≠ [] ∧ places.length = below + 1 ∧
      wholeNumber (whole ++ places) = significand := by
  simp only [positionalText]
  generalize paddedEq : List.replicate (below + 1 + 1 - (digits significand).length) '0' ++
    digits significand = padded
  have allDigits : AllDigits padded := by
    rw [← paddedEq]
    exact (allDigits_zeros _).append (allDigits_digits significand)
  have long : below + 2 ≤ padded.length := by
    rw [← paddedEq, List.length_append, List.length_replicate]
    omega
  refine ⟨_, _, rfl, fun character member => allDigits _ (List.mem_of_mem_take member),
    fun character member => allDigits _ (List.mem_of_mem_drop member), ?_, ?_, ?_⟩
  · intro empty
    have size := congrArg List.length empty
    rw [List.length_take, List.length_nil] at size
    omega
  · rw [List.length_drop]
    omega
  · rw [List.take_append_drop, ← paddedEq, wholeNumber_zeros_append, wholeNumber_digits]

private theorem readDigits_positionalText (decimal : Decimal) :
    readDigits (decimal.positionalText []) =
      some (match decimal.exponent with
        | .ofNat zeros => decimalMagnitude (decimal.significand * 10 ^ zeros) 0
        | .negSucc _ => decimalMagnitude decimal.significand decimal.exponent) := by
  obtain ⟨significand, exponent⟩ := decimal
  cases exponent with
  | ofNat zeros =>
      have allDigits := (allDigits_digits significand).append (allDigits_zeros zeros)
      simp only [positionalText, List.append_nil]
      rw [readDigits_whole allDigits (by simp [digits_ne_nil]), wholeNumber_append_zeros,
        wholeNumber_digits]
  | negSucc below =>
      obtain ⟨whole, places, textEq, wholeDigits, placeDigits, filled, count, value⟩ :=
        exists_positionalText_places significand below
      rw [textEq, readDigits_places wholeDigits placeDigits filled, value, count]
      rfl

private theorem mem_positionalText {decimal : Decimal} {character : Char}
    (member : character ∈ decimal.positionalText []) :
    character.isDigit = true ∨ character = '.' := by
  obtain ⟨significand, exponent⟩ := decimal
  cases exponent with
  | ofNat zeros =>
      have allDigits := (allDigits_digits significand).append (allDigits_zeros zeros)
      simp only [positionalText, List.append_nil] at member
      exact Or.inl (allDigits character member)
  | negSucc below =>
      obtain ⟨whole, places, textEq, wholeDigits, placeDigits, -⟩ :=
        exists_positionalText_places significand below
      rw [textEq, List.mem_append, List.mem_cons] at member
      rcases member with front | point | back
      · exact Or.inl (wholeDigits character front)
      · exact Or.inr point
      · exact Or.inl (placeDigits character back)

private theorem exists_digit_positionalText (decimal : Decimal) :
    ∃ digit rest, decimal.positionalText [] = digit :: rest ∧ digit.isDigit = true := by
  obtain ⟨significand, exponent⟩ := decimal
  cases exponent with
  | ofNat zeros =>
      obtain ⟨digit, rest, shown⟩ := List.exists_cons_of_ne_nil (digits_ne_nil significand)
      refine ⟨digit, rest ++ List.replicate zeros '0', ?_, ?_⟩
      · simp [positionalText, shown]
      · exact allDigits_digits significand digit (by simp [shown])
  | negSucc below =>
      obtain ⟨whole, places, textEq, wholeDigits, -, filled, -⟩ :=
        exists_positionalText_places significand below
      obtain ⟨digit, rest, rfl⟩ := List.exists_cons_of_ne_nil filled
      exact ⟨digit, rest ++ '.' :: places, textEq, wholeDigits digit (by simp)⟩

/-! ## Signs and names -/

theorem signAndRest_of_isDigit {digit : Char} (isDigit : digit.isDigit = true) (rest : List Char) :
    signAndRest (digit :: rest) = (false, digit :: rest) := by
  unfold signAndRest
  split
  · simp_all [Char.isDigit]
  · simp_all [Char.isDigit]
  · rfl

/-- A text that begins with a digit is not the name of a number. -/
theorem readMagnitude_of_isDigit {digit : Char} (isDigit : digit.isDigit = true)
    (rest : List Char) : readMagnitude (digit :: rest) = readDigits (digit :: rest) := by
  have same : digit.toLower = digit := by
    simp only [Char.isDigit, Bool.and_eq_true, decide_eq_true_eq] at isDigit
    unfold Char.toLower
    rw [dif_neg]
    intro upper
    exact absurd (UInt32.le_trans upper.1 isDigit.2) (by decide)
  have first (name : List Char) (other : name.head? ≠ some digit) :
      String.ofList ((digit :: rest).map Char.toLower) ≠ String.ofList name := by
    intro equality
    rw [String.ofList_inj, List.map_cons, same] at equality
    rw [← equality] at other
    exact other rfl
  have notLetter (letter : Char) (shape : letter.isDigit = false) : some letter ≠ some digit := by
    rintro ⟨⟩
    rw [shape] at isDigit
    exact Bool.noConfusion isDigit
  unfold readMagnitude
  dsimp only
  rw [if_neg, if_neg]
  · exact first ['n', 'a', 'n'] (notLetter 'n' rfl)
  · simp only [Bool.or_eq_true, decide_eq_true_eq, not_or]
    exact ⟨first ['i', 'n', 'f'] (notLetter 'i' rfl),
      first ['i', 'n', 'f', 'i', 'n', 'i', 't', 'y'] (notLetter 'i' rfl)⟩

end Decimal

/-! ## Texts of numbers -/

private theorem readDigits_shortest {number : Float} (finite : magnitude number < infiniteMagnitude)
    (tie : Tie) :
    Decimal.readDigits ((Decimal.shortest tie number).positionalText []) =
      some (magnitude number) := by
  have canonical := BinaryParts.canonical_ofBits (magnitude number)
  have toMagnitude := BinaryParts.toMagnitude_ofBits finite
  rw [Decimal.readDigits_positionalText]
  generalize decimalEq : Decimal.shortest tie number = decimal
  replace decimalEq : (if (BinaryParts.ofBits (magnitude number)).significand = 0 then ⟨0, 0⟩
    else Decimal.shortestOfParts tie (BinaryParts.ofBits (magnitude number))) = decimal := decimalEq
  rw [← toMagnitude] at finite ⊢
  generalize BinaryParts.ofBits (magnitude number) = parts at canonical finite decimalEq ⊢
  clear toMagnitude
  split at decimalEq
  · rename_i zero
    rw [← decimalEq, canonical.toMagnitude_eq_zero zero]
    rfl
  · rename_i notZero
    have positive := Nat.pos_of_ne_zero notZero
    have rounds := Decimal.rounds_shortestOfParts tie positive
    rw [decimalEq] at rounds
    obtain ⟨significand, exponent⟩ := decimal
    cases exponent with
    | ofNat zeros =>
        rw [Int.ofNat_eq_natCast, ← Int.zero_add (zeros : Int)] at rounds
        exact congrArg some
          (decimalMagnitude_eq_of_rounds canonical finite positive (rounds.expand (by decide)))
    | negSucc below =>
        exact congrArg some (decimalMagnitude_eq_of_rounds canonical finite positive rounds)

/-- A number that is none of the undefined ones is read back from its text. -/
theorem read_numberText {number : Float} (defined : number.isNaN = false) :
    Decimal.read (numberText number) = some number := by
  have same := floatOfMagnitude_magnitude number
  rw [isNaN_eq, decide_eq_false_iff_not] at defined
  unfold numberText
  rw [isNaN_eq, isInf_eq, if_neg (by simpa using defined)]
  split
  · rename_i infinite
    rw [decide_eq_true_eq] at infinite
    rw [infinite] at same
    split
    · rename_i negative
      rw [negative] at same
      exact congrArg some same
    · rename_i positive
      rw [Bool.not_eq_true] at positive
      rw [positive] at same
      exact congrArg some same
  · rename_i notInfinite
    rw [decide_eq_true_eq] at notInfinite
    have value := readDigits_shortest (show magnitude number < infiniteMagnitude by omega) .up
    obtain ⟨digit, rest, textEq, isDigit⟩ :=
      Decimal.exists_digit_positionalText (Decimal.shortest .up number)
    rw [textEq, ← Decimal.readMagnitude_of_isDigit isDigit] at value
    show Decimal.read (if hasMinusSign number then
      '-' :: (Decimal.shortest .up number).positionalText []
      else (Decimal.shortest .up number).positionalText []) = _
    rw [textEq]
    split
    · rename_i negative
      rw [negative] at same
      show (Decimal.readMagnitude (digit :: rest)).map (floatOfMagnitude true) = _
      rw [value, Option.map_some, same]
    · rename_i positive
      rw [Bool.not_eq_true] at positive
      rw [positive] at same
      unfold Decimal.read
      rw [Decimal.signAndRest_of_isDigit isDigit]
      show (Decimal.readMagnitude (digit :: rest)).map (floatOfMagnitude false) = _
      rw [value, Option.map_some, same]

/-- The characters of texts of numbers that are none of the undefined ones. -/
theorem mem_numberText {number : Float} (defined : number.isNaN = false) {character : Char}
    (member : character ∈ numberText number) :
    character.isDigit = true ∨ character ∈ ['-', '.', 'i', 'n', 'f'] := by
  unfold numberText at member
  rw [if_neg (by rw [defined]; decide)] at member
  split at member
  · split at member <;> exact Or.inr (by simp at member ⊢; tauto)
  · have positional (inside : character ∈ (Decimal.shortest .up number).positionalText []) :
        character.isDigit = true ∨ character ∈ ['-', '.', 'i', 'n', 'f'] := by
      rcases Decimal.mem_positionalText inside with digit | point
      · exact Or.inl digit
      · exact Or.inr (by simp [point])
    replace member : character ∈ (if hasMinusSign number then
      '-' :: (Decimal.shortest .up number).positionalText []
      else (Decimal.shortest .up number).positionalText []) := member
    split at member
    · rcases List.mem_cons.mp member with minus | inside
      · exact Or.inr (by simp [minus])
      · exact positional inside
    · exact positional member

end BranchingDialogue

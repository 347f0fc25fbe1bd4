import Mathlib.Data.List.TakeWhile
import BranchingDialogue.Json.Number

/-! A number is digits, with decimal places and a power of ten as it may have them. It is read in
the same way whatever follows it in a document. -/

namespace BranchingDialogue.Json

open Decimal (leadingDigits)

/-! ## What follows a number -/

/-- Whether a text does not go on with a number that stands before it. -/
def Stops (rest : List Char) : Prop :=
  ∀ character ∈ rest.head?,
    character.isDigit = false ∧ character ≠ '.' ∧ character ≠ 'e' ∧ character ≠ 'E'

variable {rest : List Char}

theorem stops_nil : Stops [] := by
  simp [Stops]

theorem Stops.noDigit (stops : Stops rest) :
    ∀ character ∈ rest.head?, character.isDigit = false :=
  fun character first => (stops character first).1

theorem leadingDigits_append (noDigit : ∀ character ∈ rest.head?, character.isDigit = false)
    (text : List Char) :
    leadingDigits (text ++ rest) = ((leadingDigits text).1, (leadingDigits text).2 ++ rest) := by
  have noDigits : rest.takeWhile Char.isDigit = [] ∧ rest.dropWhile Char.isDigit = rest := by
    cases rest with
    | nil => exact ⟨rfl, rfl⟩
    | cons character rest => simp [noDigit character rfl]
  unfold leadingDigits
  induction text with
  | nil => simpa using noDigits
  | cons character text inductionHypothesis =>
      cases digit : character.isDigit with
      | true => simpa [digit] using inductionHypothesis
      | false => simp [digit]

theorem placesAndRest_of_ne {text : List Char} (noPoint : text.head? ≠ some '.') :
    placesAndRest text = some ([], text) := by
  unfold placesAndRest
  split
  · exact absurd rfl noPoint
  · rfl

private theorem placesAndRest_append (stops : Stops rest) {text places left : List Char}
    (read : placesAndRest text = some (places, left)) :
    placesAndRest (text ++ rest) = some (places, left ++ rest) := by
  by_cases point : text.head? = some '.'
  · obtain ⟨others, rfl⟩ : ∃ others, text = '.' :: others := by
      cases text with
      | nil => cases point
      | cons character others =>
          cases point
          exact ⟨others, rfl⟩
    rw [List.cons_append, placesAndRest, leadingDigits_append stops.noDigit]
    rw [placesAndRest] at read
    dsimp only at read ⊢
    split at read
    · cases read
    · rename_i filled
      cases read
      rw [if_neg filled]
  · rw [placesAndRest_of_ne point] at read
    cases read
    refine placesAndRest_of_ne ?_
    cases text with
    | nil => exact fun first => (stops '.' first).2.1 rfl
    | cons character others => exact point

private theorem signAndRest_append {text : List Char} (filled : text ≠ []) (rest : List Char) :
    Decimal.signAndRest (text ++ rest) =
      ((Decimal.signAndRest text).1, (Decimal.signAndRest text).2 ++ rest) := by
  cases text with
  | nil => exact absurd rfl filled
  | cons character text =>
      by_cases minus : character = '-'
      · simp [Decimal.signAndRest, minus]
      · by_cases plus : character = '+' <;> simp [Decimal.signAndRest, minus, plus]

private theorem exponentAndRest_append (stops : Stops rest) {text left : List Char}
    {power : Option Int} (read : exponentAndRest text = some (power, left)) :
    exponentAndRest (text ++ rest) = some (power, left ++ rest) := by
  cases text with
  | nil =>
      cases read
      cases rest with
      | nil => rfl
      | cons character rest =>
          obtain ⟨-, -, small, capital⟩ := stops character rfl
          simp [exponentAndRest, small, capital]
  | cons mark text =>
      by_cases marked : (decide (mark = 'e') || decide (mark = 'E')) = true
      · have filled : text ≠ [] := by
          rintro rfl
          simp [exponentAndRest, marked, Decimal.signAndRest, leadingDigits] at read
        simp only [exponentAndRest, marked, if_true] at read
        rw [List.cons_append, exponentAndRest, if_pos marked, signAndRest_append filled]
        dsimp only
        rw [leadingDigits_append stops.noDigit]
        split at read
        · cases read
        · rename_i digitsFilled
          cases read
          rw [if_neg digitsFilled]
      · simp only [exponentAndRest, marked] at read
        cases read
        rw [List.cons_append, exponentAndRest, if_neg marked]

/-- The number that the digits before a point, those after it and the power of ten make. -/
def numberOfParts (negative : Bool) (digits places : List Char) (power : Option Int) : Number :=
  let (whole, used) := gather 0 digits
  let skipped := digits.length - used
  if places.isEmpty && power.isNone then
    wholeOrReal negative whole skipped
  else
    let (significand, usedPlaces) := gather whole places
    let number := scale significand (power.getD 0 + skipped - usedPlaces)
    if negative then number.negate else number

/-- Whether digits can stand before a point: there is at least one of them, and a zero is not
followed by others. -/
def beginsNumber (digits : List Char) : Bool :=
  !(digits.isEmpty || (digits.head? = some '0' && digits.length > 1))

theorem magnitudeAndRest_eq (negative : Bool) (text : List Char) :
    magnitudeAndRest negative text =
      if beginsNumber (leadingDigits text).1 then
        (placesAndRest (leadingDigits text).2).bind fun (places, afterPlaces) =>
          (exponentAndRest afterPlaces).map fun (power, rest) =>
            (numberOfParts negative (leadingDigits text).1 places power, rest)
      else
        none := by
  unfold magnitudeAndRest beginsNumber
  generalize leadingDigits text = divided
  obtain ⟨digits, afterDigits⟩ := divided
  dsimp only
  cases refused : (digits.isEmpty || (digits.head? = some '0' && digits.length > 1)) with
  | true => rfl
  | false =>
      cases placesAndRest afterDigits with
      | none => rfl
      | some divided =>
          obtain ⟨places, afterPlaces⟩ := divided
          dsimp only [Option.bind_eq_bind, Option.bind_some]
          cases exponentAndRest afterPlaces with
          | none => rfl
          | some divided =>
              obtain ⟨power, rest⟩ := divided
              simp only [numberOfParts, Option.bind_some, Option.map_some, Bool.not_false, if_true,
                Bool.false_eq_true, if_false, Option.pure_def]
              split <;> rfl

private theorem magnitudeAndRest_append (stops : Stops rest) {negative : Bool}
    {text left : List Char}
    {number : Number} (read : magnitudeAndRest negative text = some (number, left)) :
    magnitudeAndRest negative (text ++ rest) = some (number, left ++ rest) := by
  rw [magnitudeAndRest_eq] at read ⊢
  rw [leadingDigits_append stops.noDigit]
  dsimp only
  split at read
  · rename_i begins
    rw [if_pos begins]
    obtain ⟨⟨places, afterPlaces⟩, placesRead, afterRead⟩ := Option.bind_eq_some_iff.mp read
    obtain ⟨⟨power, after⟩, powerRead, equality⟩ := Option.map_eq_some_iff.mp afterRead
    cases equality
    rw [placesAndRest_append stops placesRead, Option.bind_some,
      exponentAndRest_append stops powerRead]
    rfl
  · cases read

theorem numberAndRest_of_ne {text : List Char} (noMinus : text.head? ≠ some '-') :
    numberAndRest text = magnitudeAndRest false text := by
  unfold numberAndRest
  split
  · exact absurd rfl noMinus
  · rfl

/-- A number is read in the same way whatever follows it. -/
theorem numberAndRest_append (stops : Stops rest) {text left : List Char} {number : Number}
    (read : numberAndRest text = some (number, left)) :
    numberAndRest (text ++ rest) = some (number, left ++ rest) := by
  cases text with
  | nil => cases read
  | cons character text =>
      by_cases minus : character = '-'
      · subst minus
        exact magnitudeAndRest_append stops read
      · have noMinus (others : List Char) : (character :: others).head? ≠ some '-' :=
          fun same => minus (Option.some.inj same)
        rw [numberAndRest_of_ne (noMinus text)] at read
        rw [List.cons_append, numberAndRest_of_ne (noMinus (text ++ rest))]
        exact magnitudeAndRest_append stops read

end BranchingDialogue.Json

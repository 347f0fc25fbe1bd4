import BranchingDialogue.Json.Writer
import BranchingDialogue.Proofs.Decimal.Reading
import BranchingDialogue.Proofs.Json.Number

/-! The text of a finite number is a number with a point or a power of ten. It is read as the whole
number of its digits, scaled by one power of ten. -/

namespace BranchingDialogue.Json

open Decimal (leadingDigits digits positionalText scientificText AllDigits)

/-! ## Digits that begin a number -/

private theorem head?_digits {number : Nat} (positive : 0 < number) :
    (digits number).head? ≠ some '0' := by
  induction number using Nat.strongRecOn with
  | ind number inductionHypothesis =>
      rcases Nat.lt_or_ge number 10 with small | large
      · have single : digits number = [number.digitChar] := Nat.toDigits_of_lt_base small
        simpa [single] using positive.ne'
      · have smaller := inductionHypothesis (number / 10) (by omega) (by omega)
        have longer : digits number = digits (number / 10) ++ [(number % 10).digitChar] :=
          Nat.toDigits_of_base_le (by decide) large
        rw [longer, List.head?_append_of_ne_nil _ (Decimal.digits_ne_nil _)]
        exact smaller

private theorem beginsNumber_of_head? {text : List Char} (filled : text ≠ [])
    (noZero : text.head? ≠ some '0') : beginsNumber text = true := by
  simp [beginsNumber, filled, noZero]

private theorem beginsNumber_of_length {text : List Char} (single : text.length = 1) :
    beginsNumber text = true := by
  have filled : text ≠ [] := by
    rintro rfl
    cases single
  simp [beginsNumber, filled, single]

theorem beginsNumber_digits (number : Nat) : beginsNumber (digits number) = true := by
  rcases Nat.eq_zero_or_pos number with rfl | positive
  · rfl
  · exact beginsNumber_of_head? (Decimal.digits_ne_nil number) (head?_digits positive)

/-! ## Written numbers -/

/-- Whether a text is a number made of digits before a point, digits after it and a power of ten. -/
structure IsNumber (text whole places : List Char) (power : Option Int) : Prop where
  allDigits : AllDigits (whole ++ places)
  begins : beginsNumber whole = true
  lead : ∃ after, text = whole ++ after
  read : ∀ negative, magnitudeAndRest negative text =
    some (numberOfParts negative whole places power, [])

theorem isNumber_of_read {whole places after afterPlaces : List Char} {power : Option Int}
    (allDigits : AllDigits (whole ++ places)) (begins : beginsNumber whole = true)
    (noDigit : ∀ character ∈ after.head?, character.isDigit = false)
    (placesRead : placesAndRest after = some (places, afterPlaces))
    (powerRead : exponentAndRest afterPlaces = some (power, [])) :
    IsNumber (whole ++ after) whole places power := by
  refine ⟨allDigits, begins, ⟨after, rfl⟩, fun negative => ?_⟩
  have wholeDigits : AllDigits whole := fun _ member => allDigits _ (List.mem_append_left _ member)
  rw [magnitudeAndRest_eq, leadingDigits_append noDigit,
    Decimal.leadingDigits_of_allDigits wholeDigits]
  dsimp only [List.nil_append]
  rw [if_pos begins, placesRead, Option.bind_some, powerRead]
  rfl

private theorem placesAndRest_point {places after : List Char} (allDigits : AllDigits places)
    (filled : places ≠ []) (noDigit : ∀ character ∈ after.head?, character.isDigit = false) :
    placesAndRest ('.' :: (places ++ after)) = some (places, after) := by
  rw [placesAndRest, leadingDigits_append noDigit, Decimal.leadingDigits_of_allDigits allDigits]
  simp [filled]

private theorem isNumber_point {whole places : List Char} (allDigits : AllDigits (whole ++ places))
    (begins : beginsNumber whole = true) (filled : places ≠ []) :
    IsNumber (whole ++ '.' :: places) whole places none := by
  have placeDigits : AllDigits places := fun _ member =>
    allDigits _ (List.mem_append_right _ member)
  have read : placesAndRest ('.' :: (places ++ [])) = some (places, []) :=
    placesAndRest_point placeDigits filled (by simp)
  rw [List.append_nil] at read
  exact isNumber_of_read allDigits begins (by rintro _ ⟨⟩; rfl) read rfl

/-- The signed power of ten at the end of a number is read as the power. -/
theorem exponentAndRest_written (power : Int) :
    exponentAndRest ('e' :: (if power < 0 then '-' else '+') :: digits power.natAbs) =
      some (some power, []) := by
  have filled := Decimal.digits_ne_nil power.natAbs
  have allDigits := Decimal.leadingDigits_of_allDigits (Decimal.allDigits_digits power.natAbs)
  by_cases negative : power < 0
  · simp [exponentAndRest, negative, Decimal.signAndRest, allDigits, filled,
      Decimal.wholeNumber_digits, abs_of_neg negative]
  · simp [exponentAndRest, negative, Decimal.signAndRest, allDigits, filled,
      Decimal.wholeNumber_digits, abs_of_nonneg (not_lt.mp negative)]

/-! ## Written decimals -/

/-- The decimal that the digits of a number write together with its power of ten. -/
def decimalOfParts (whole places : List Char) (power : Option Int) : Decimal :=
  ⟨Decimal.wholeNumber (whole ++ places), power.getD 0 - places.length⟩

/-- The digits before the point of a padded significand begin a number. -/
theorem beginsNumber_padded (significand count : Nat) (shows : 0 < count) :
    let padded := List.replicate (count + 1 - (digits significand).length) '0' ++ digits significand
    beginsNumber (padded.take (padded.length - count)) = true := by
  intro padded
  have size : padded.length = (count + 1 - (digits significand).length) +
      (digits significand).length := by
    simp [padded]
  rcases Nat.lt_or_ge count (digits significand).length with long | short
  · have noPadding : padded = digits significand := by
      have none : count + 1 - (digits significand).length = 0 := by omega
      simp [padded, none]
    have positive : 0 < significand := by
      rcases Nat.eq_zero_or_pos significand with rfl | positive
      · have single : (digits 0).length = 1 := rfl
        omega
      · exact positive
    have taken : 0 < padded.length - count := by omega
    refine beginsNumber_of_head? (fun empty => ?_) ?_
    · rcases List.take_eq_nil_iff.mp empty with nothing | nothing
      · omega
      · rw [noPadding] at nothing
        exact Decimal.digits_ne_nil significand nothing
    · rw [List.head?_take, if_neg taken.ne', noPadding]
      exact head?_digits positive
  · refine beginsNumber_of_length ?_
    rw [List.length_take]
    omega

/-- A decimal with at least one place after the point. -/
def withPlaces (decimal : Decimal) : Decimal :=
  match decimal.exponent with
  | .ofNat zeros => ⟨decimal.significand * 10 ^ zeros * 10, -1⟩
  | .negSucc _ => decimal

/-- The digits of a whole number, the zeros of its power of ten, and one place after the point. -/
private theorem isNumber_wholeText {significand zeros : Nat} (plain : significand = 0 → zeros = 0) :
    IsNumber (positionalText ['.', '0'] ⟨significand, .ofNat zeros⟩)
      (digits significand ++ List.replicate zeros '0') ['0'] none := by
  have text : positionalText ['.', '0'] ⟨significand, .ofNat zeros⟩ =
      (digits significand ++ List.replicate zeros '0') ++ '.' :: ['0'] := rfl
  have allDigits : AllDigits (digits significand ++ List.replicate zeros '0') :=
    (Decimal.allDigits_digits significand).append (Decimal.allDigits_zeros zeros)
  rw [text]
  refine isNumber_point (allDigits.append (by simp [AllDigits])) ?_ (by simp)
  rcases Nat.eq_zero_or_pos significand with rfl | positive
  · rw [plain rfl]
    rfl
  · refine beginsNumber_of_head? (by simp [Decimal.digits_ne_nil]) ?_
    rw [List.head?_append_of_ne_nil _ (Decimal.digits_ne_nil significand)]
    exact head?_digits positive

/-- A significand that is padded with zeros is divided before its last `count` digits. -/
private theorem isNumber_dividedText {significand count : Nat} (shows : 0 < count) :
    let padded := List.replicate (count + 1 - (digits significand).length) '0' ++ digits significand
    let places := padded.drop (padded.length - count)
    places.length = count ∧
      IsNumber (padded.take (padded.length - count) ++ '.' :: places)
        (padded.take (padded.length - count)) places none := by
  intro padded places
  have long : count + 1 ≤ padded.length := by
    simp only [padded, List.length_append, List.length_replicate]
    omega
  have size : places.length = count := by
    rw [List.length_drop]
    omega
  have allDigits : AllDigits (padded.take (padded.length - count) ++ places) := by
    rw [List.take_append_drop]
    exact (Decimal.allDigits_zeros _).append (Decimal.allDigits_digits significand)
  refine ⟨size, isNumber_point allDigits (beginsNumber_padded significand count shows) ?_⟩
  intro empty
  rw [empty, List.length_nil] at size
  omega

private theorem isNumber_positionalText (decimal : Decimal)
    (plain : decimal.significand = 0 → decimal.exponent = 0) :
    ∃ whole places, places ≠ [] ∧
      IsNumber (decimal.positionalText ['.', '0']) whole places none ∧
      decimalOfParts whole places none = withPlaces decimal := by
  obtain ⟨significand, exponent⟩ := decimal
  cases exponent with
  | ofNat zeros =>
      have noZeros : significand = 0 → zeros = 0 := fun zero => by simpa using plain zero
      refine ⟨_, _, by simp, isNumber_wholeText noZeros, ?_⟩
      have last : (['0'] : List Char) = List.replicate 1 '0' := rfl
      simp only [decimalOfParts]
      rw [last, Decimal.wholeNumber_append_zeros, Decimal.wholeNumber_append_zeros,
        Decimal.wholeNumber_digits]
      simp [withPlaces]
  | negSucc below =>
      obtain ⟨size, isNumber⟩ := isNumber_dividedText (Nat.succ_pos below)
      refine ⟨_, _, ?_, isNumber, ?_⟩
      · intro empty
        rw [empty] at size
        cases size
      · simp only [decimalOfParts]
        rw [List.take_append_drop, size, Decimal.wholeNumber_zeros_append,
          Decimal.wholeNumber_digits]
        rfl

private theorem isNumber_scientificText (decimal : Decimal) :
    ∃ whole places power, IsNumber decimal.scientificText whole places (some power) ∧
      decimalOfParts whole places (some power) = decimal := by
  obtain ⟨significand, exponent⟩ := decimal
  have count : digitCount significand = (digits significand).length := rfl
  have allDigits := Decimal.allDigits_digits significand
  have value := Decimal.wholeNumber_digits significand
  have filled := Decimal.digits_ne_nil significand
  unfold scientificText Decimal.order
  rw [count]
  dsimp only
  generalize digits significand = text at allDigits value filled
  match text with
  | [] => exact absurd rfl filled
  | [first] =>
      let power := exponent + ([first].length : Nat) - 1
      let written := 'e' :: (if power < 0 then '-' else '+') :: digits power.natAbs
      have isNumber : IsNumber ([first] ++ written) [first] [] (some power) :=
        isNumber_of_read allDigits (beginsNumber_of_length rfl) (by rintro _ ⟨⟩; rfl)
          (placesAndRest_of_ne (by simp [written])) (exponentAndRest_written power)
      refine ⟨[first], [], power, isNumber, ?_⟩
      simp [decimalOfParts, value, power]
  | first :: second :: rest =>
      let power := exponent + ((first :: second :: rest).length : Nat) - 1
      let written := 'e' :: (if power < 0 then '-' else '+') :: digits power.natAbs
      have placeDigits : AllDigits (second :: rest) := fun _ member =>
        allDigits _ (List.mem_cons_of_mem _ member)
      have isNumber : IsNumber ([first] ++ '.' :: (second :: rest ++ written)) [first]
          (second :: rest) (some power) :=
        isNumber_of_read allDigits (beginsNumber_of_length rfl) (by rintro _ ⟨⟩; rfl)
          (placesAndRest_point placeDigits (by simp) (by rintro _ ⟨⟩; rfl))
          (exponentAndRest_written power)
      refine ⟨[first], second :: rest, power, isNumber, ?_⟩
      have joined : [first] ++ second :: rest = first :: second :: rest := rfl
      have last : power - ((second :: rest).length : Nat) = exponent := by
        simp only [power, List.length_cons]
        omega
      rw [decimalOfParts, joined, value, Option.getD_some, last]

/-! ## Written binary numbers -/

/-- The decimal that the text of a finite number shows. -/
def shownDecimal (amount : Float) : Decimal :=
  let decimal := Decimal.shortest .even amount
  if numberLayout.positional decimal.order then withPlaces decimal else decimal

private theorem exponent_shortest (tie : Tie) {amount : Float}
    (zero : (Decimal.shortest tie amount).significand = 0) :
    (Decimal.shortest tie amount).exponent = 0 := by
  unfold Decimal.shortest at zero ⊢
  dsimp only at zero ⊢
  split
  · rfl
  · rename_i notZero
    rw [if_neg notZero] at zero
    have positive := Nat.pos_of_ne_zero notZero
    obtain ⟨power, -, inside⟩ := Decimal.rounds_shortestOfParts tie positive
    have filled := BinaryParts.point_pos_of_roundsHere positive inside
    rw [zero, Nat.zero_mul] at filled
    cases filled

/-- The text of a finite number is a number with a point or a power of ten. -/
theorem exists_isNumber (amount : Float) :
    ∃ text whole places power,
      numberLayout.write amount = (if hasMinusSign amount then '-' :: text else text) ∧
        IsNumber text whole places power ∧ (places.isEmpty && power.isNone) = false ∧
        decimalOfParts whole places power = shownDecimal amount := by
  unfold NumberLayout.write shownDecimal
  have plain := @exponent_shortest .even amount
  have tie : numberLayout.tie = .even := rfl
  have tail : numberLayout.wholeTail = ['.', '0'] := rfl
  rw [tie, tail]
  generalize Decimal.shortest .even amount = decimal at plain
  dsimp only
  cases isPositional : numberLayout.positional decimal.order with
  | true =>
      obtain ⟨whole, places, filled, isNumber, shown⟩ := isNumber_positionalText decimal plain
      exact ⟨_, whole, places, none, rfl, isNumber, by simp [filled], shown⟩
  | false =>
      obtain ⟨whole, places, power, isNumber, shown⟩ := isNumber_scientificText decimal
      exact ⟨_, whole, places, some power, rfl, isNumber, by simp, shown⟩

/-! ## Numbers as they are read back -/

theorem IsNumber.exists_digit {text whole places : List Char} {power : Option Int}
    (isNumber : IsNumber text whole places power) :
    ∃ digit others, text = digit :: others ∧ digit.isDigit = true := by
  obtain ⟨after, rfl⟩ := isNumber.lead
  have filled : whole ≠ [] := by
    rintro rfl
    cases isNumber.begins
  obtain ⟨digit, others, rfl⟩ := List.exists_cons_of_ne_nil filled
  exact ⟨digit, others ++ after, rfl, isNumber.allDigits digit (by simp)⟩

/-- A number with or without a minus is read with that sign. -/
theorem IsNumber.numberAndRest_signed {text whole places : List Char} {power : Option Int}
    (isNumber : IsNumber text whole places power) (negative : Bool) :
    numberAndRest (if negative then '-' :: text else text) =
      some (numberOfParts negative whole places power, []) := by
  cases negative with
  | true => exact isNumber.read true
  | false =>
      have noMinus : text.head? ≠ some '-' := by
        obtain ⟨digit, others, rfl, isDigit⟩ := isNumber.exists_digit
        rintro ⟨⟩
        cases isDigit
      rw [if_neg (by decide), numberAndRest_of_ne noMinus]
      exact isNumber.read false

private theorem le_foldl_digits (text : List Char) (total : Nat) :
    total ≤ text.foldl (fun total digit => 10 * total + Decimal.digitValue digit) total := by
  induction text generalizing total with
  | nil => exact Nat.le_refl total
  | cons digit text inductionHypothesis =>
      have further := inductionHypothesis (10 * total + Decimal.digitValue digit)
      rw [List.foldl_cons]
      omega

/-- There is room for all digits of a number below `2 ^ 64`. -/
theorem gather_eq {text : List Char} {total : Nat}
    (fits : text.foldl (fun total digit => 10 * total + Decimal.digitValue digit) total < 2 ^ 64) :
    gather total text =
      (text.foldl (fun total digit => 10 * total + Decimal.digitValue digit) total,
        text.length) := by
  induction text generalizing total with
  | nil => rfl
  | cons digit text inductionHypothesis =>
      rw [List.foldl_cons] at fits
      have room : 10 * total + Decimal.digitValue digit < Nat.pow 2 64 :=
        Nat.lt_of_le_of_lt (le_foldl_digits text _) fits
      rw [gather]
      dsimp only
      rw [if_pos room, inductionHypothesis fits]
      rfl

/-- A number with a point or a power of ten and few digits is scaled without loss of digits. -/
theorem numberOfParts_eq {whole places : List Char} {power : Option Int} (negative : Bool)
    (real : (places.isEmpty && power.isNone) = false)
    (fits : (decimalOfParts whole places power).significand < 2 ^ 64) :
    numberOfParts negative whole places power =
      let decimal := decimalOfParts whole places power
      let number := scale decimal.significand decimal.exponent
      if negative then number.negate else number := by
  have joined : Decimal.wholeNumber (whole ++ places) =
      places.foldl (fun total digit => 10 * total + Decimal.digitValue digit)
        (Decimal.wholeNumber whole) := List.foldl_append
  simp only [decimalOfParts, joined] at fits ⊢
  have wholeFits : Decimal.wholeNumber whole < 2 ^ 64 :=
    Nat.lt_of_le_of_lt (le_foldl_digits places _) fits
  have gathered : gather 0 whole = (Decimal.wholeNumber whole, whole.length) := gather_eq wholeFits
  unfold numberOfParts
  simp only [gathered, gather_eq fits, real, Nat.sub_self]
  simp

/-- The text of a finite number is read as its decimal scaled, if there is room for the digits. -/
theorem exists_numberAndRest_write (amount : Float) :
    ∃ number, numberAndRest (numberLayout.write amount) = some (number, []) ∧
      ((shownDecimal amount).significand < 2 ^ 64 →
        number =
          let scaled := scale (shownDecimal amount).significand (shownDecimal amount).exponent
          if hasMinusSign amount then scaled.negate else scaled) := by
  obtain ⟨text, whole, places, power, textEq, isNumber, real, shown⟩ := exists_isNumber amount
  refine ⟨_, textEq ▸ isNumber.numberAndRest_signed (hasMinusSign amount), fun fits => ?_⟩
  rw [← shown] at fits ⊢
  exact numberOfParts_eq (hasMinusSign amount) real fits

private theorem scale_ne_whole (significand : Nat) (exponent amount : Int) :
    scale significand exponent ≠ .whole amount := by
  unfold scale
  dsimp only
  repeat' split
  all_goals simp

/-- A number with a point or a power of ten is not read as a whole number. -/
theorem numberOfParts_ne_whole {whole places : List Char} {power : Option Int} (negative : Bool)
    (real : (places.isEmpty && power.isNone) = false) (amount : Int) :
    numberOfParts negative whole places power ≠ .whole amount := by
  unfold numberOfParts
  simp only [real, Bool.false_eq_true, if_false]
  cases negative with
  | false => exact scale_ne_whole _ _ amount
  | true =>
      have scaled := scale_ne_whole (gather (gather 0 whole).1 places).1
        (power.getD 0 + (whole.length - (gather 0 whole).2 : Nat) -
          (gather (gather 0 whole).1 places).2)
      generalize scale _ _ = number at scaled
      cases number with
      | whole other => exact absurd rfl (scaled other)
      | real other => simp [Number.negate]
      | tooLarge => simp [Number.negate]

/-- Whether a number is read back from its text. -/
def Survives (amount : Float) : Prop :=
  numberAndRest (writeNumber (.real amount)) = some (.real amount, [])

instance (amount : Float) : Decidable (Survives amount) :=
  inferInstanceAs (Decidable (_ = _))

/-- What the text of a binary number is read as stands for it only if it is read back. -/
theorem survives_of_toFloat? {amount : Float} {number : Number}
    (read : numberAndRest (writeNumber (.real amount)) = some (number, []))
    (same : number.toFloat? = some amount) : Survives amount := by
  cases finite : amount.isFinite with
  | false =>
      simp only [writeNumber, finite] at read
      cases read
  | true =>
      obtain ⟨text, whole, places, power, written, isNumber, real, -⟩ := exists_isNumber amount
      have parts : writeNumber (.real amount) =
          if hasMinusSign amount then '-' :: text else text := by
        simp [writeNumber, finite, written]
      have noWhole := @numberOfParts_ne_whole whole places power (hasMinusSign amount) real
      have readParts := parts ▸ isNumber.numberAndRest_signed (hasMinusSign amount)
      unfold Survives
      rw [readParts] at read ⊢
      cases equality : numberOfParts (hasMinusSign amount) whole places power with
      | whole other => exact absurd equality (noWhole other)
      | real other =>
          rw [equality] at read
          cases read
          cases same
          rfl
      | tooLarge =>
          rw [equality] at read
          cases read
          cases same

theorem Survives.isFinite {amount : Float} (survives : Survives amount) :
    amount.isFinite = true := by
  cases finite : amount.isFinite with
  | true => rfl
  | false =>
      simp only [Survives, writeNumber, finite] at survives
      cases survives

end BranchingDialogue.Json

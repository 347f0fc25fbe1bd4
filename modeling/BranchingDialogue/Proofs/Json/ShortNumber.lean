import BranchingDialogue.Proofs.Decimal.Quotient
import BranchingDialogue.Proofs.Json.NumberText

/-! The reader of documents rounds twice: once when it makes a binary number of the digits, and once
when it multiplies or divides by a power of ten. When the digits and the power are both exact, only
the second rounding is left, and it gives the number that was written. -/

namespace BranchingDialogue.Json

/-! ## Exact digits and powers -/

private theorem isExact_of_lt {number : Nat} (positive : 0 < number) (short : number < 2 ^ 53) :
    IsExact number := by
  have size : number.log2 < 53 := (Nat.log2_lt positive.ne').mpr short
  exact ⟨positive, by omega, Dvd.dvd.mul_left (pow_dvd_pow 2 (by omega)) number⟩

/-- Powers of ten are exact up to the twenty-second. -/
theorem isExact_pow_ten {power : Nat} (low : power ≤ 22) : IsExact (10 ^ power) := by
  have sizes : ∀ power < 23,
      (10 ^ power).log2 ≤ 400 ∧ 10 ^ power * 2 ^ 52 % 2 ^ (10 ^ power).log2 = 0 := by
    decide +kernel
  obtain ⟨small, divides⟩ := sizes power (by omega)
  exact ⟨Nat.pow_pos (by decide), small, Nat.dvd_of_mod_eq_zero divides⟩

/-- The magnitude of a decimal of moderate size is that of a quotient. -/
theorem decimalMagnitude_of_lt {significand : Nat} {exponent : Int} (positive : 0 < significand)
    (short : significand < 2 ^ 53) (bounded : -22 ≤ exponent ∧ exponent ≤ 22) :
    decimalMagnitude significand exponent =
      nearestMagnitude (significand * 10 ^ exponent.toNat) (10 ^ (-exponent).toNat) := by
  have length : (Nat.toDigits 10 significand).length ≤ 16 :=
    (Nat.length_toDigits_le_iff (by decide) (by decide)).mpr (by omega)
  have moderate : ¬ (decide (significand = 0) ||
      decide (((Nat.toDigits 10 significand).length : Int) + exponent < -400)) = true := by
    simp only [Bool.or_eq_true, decide_eq_true_eq]
    omega
  unfold decimalMagnitude
  dsimp only
  rw [if_neg moderate, if_neg (by omega)]
  cases exponent with
  | ofNat power =>
      have noPlaces : (-Int.ofNat power).toNat = 0 := by simp
      rw [noPlaces]
      rfl
  | negSucc power =>
      show nearestMagnitude significand (10 ^ (power + 1)) = nearestMagnitude (significand * 1) _
      rw [Nat.mul_one]
      rfl

private theorem floatOfInt_eq {significand : Nat} (positive : 0 < significand)
    (short : significand < 2 ^ 53) :
    floatOfInt significand = floatOfMagnitude false (nearestMagnitude significand 1) := by
  have value := @decimalMagnitude_of_lt _ 0 positive short (by decide)
  show floatOfMagnitude false (decimalMagnitude significand 0) = _
  rw [value]
  simp

private theorem powerOfTen_eq {power : Nat} (low : power ≤ 22) :
    powerOfTen power = floatOfMagnitude false (nearestMagnitude (10 ^ power) 1) := by
  have value := @decimalMagnitude_of_lt 1 power (by decide) (by decide) (by omega)
  rw [powerOfTen, value]
  simp

/-! ## Scaled digits -/

private theorem scale_zero {exponent : Int} (low : -22 ≤ exponent) :
    scale 0 exponent = .real (floatOfMagnitude false 0) := by
  cases exponent with
  | ofNat power => rfl
  | negSucc power =>
      have quotients : ∀ power < 22,
          scale 0 (.negSucc power) = .real (floatOfMagnitude false 0) := by
        decide +kernel
      exact quotients power (by omega)

/-- Exact digits are scaled by an exact power of ten with one rounding. -/
theorem scale_eq {significand : Nat} {exponent : Int} (short : significand < 2 ^ 53)
    (bounded : -22 ≤ exponent ∧ exponent ≤ 22)
    (finite : decimalMagnitude significand exponent < infiniteMagnitude) :
    scale significand exponent =
      .real (floatOfMagnitude false (decimalMagnitude significand exponent)) := by
  rcases Nat.eq_zero_or_pos significand with rfl | positive
  · exact scale_zero bounded.1
  · have value := decimalMagnitude_of_lt positive short bounded
    have digits := isExact_of_lt positive short
    rw [value] at finite ⊢
    unfold scale
    rw [floatOfInt_eq positive short]
    cases exponent with
    | ofNat power =>
        -- A product that is infinite would be refused.
        have low : power ≤ 22 := Int.ofNat_le.mp bounded.2
        have product := mul_nearestMagnitude digits (isExact_pow_ten low)
        have whole : nearestMagnitude (significand * 10 ^ (Int.ofNat power).toNat)
            (10 ^ (-Int.ofNat power).toNat) = nearestMagnitude (significand * 10 ^ power) 1 := by
          simp
        rw [whole] at finite ⊢
        dsimp only
        rw [if_neg positive.ne', if_pos (by omega), powerOfTen_eq low, product,
          isInf_floatOfMagnitude finite]
        rfl
    | negSucc power =>
        have low : power + 1 ≤ 22 := by omega
        have quotient := div_nearestMagnitude digits (isExact_pow_ten low)
        dsimp only
        rw [divideByPower, if_pos (by omega), powerOfTen_eq low, quotient]
        simp

/-! ## Short numbers -/

/-- Whether the text of a number shows few digits: its digits make an exact whole number, and the
power of ten by which that is multiplied or divided is exact as well. -/
def IsShort (amount : Float) : Prop :=
  (shownDecimal amount).significand < 2 ^ 53 ∧
    -22 ≤ (shownDecimal amount).exponent ∧ (shownDecimal amount).exponent ≤ 22

instance (amount : Float) : Decidable (IsShort amount) :=
  inferInstanceAs (Decidable (_ ∧ _ ∧ _))

private theorem rounds_withPlaces {parts : BinaryParts} {decimal : Decimal}
    (rounds : parts.Rounds decimal) : parts.Rounds (withPlaces decimal) := by
  obtain ⟨significand, exponent⟩ := decimal
  cases exponent with
  | negSucc below => exact rounds
  | ofNat zeros =>
      have moved : (-1 : Int) + (zeros + 1 : Nat) = zeros := by omega
      rw [Int.ofNat_eq_natCast, ← moved] at rounds
      have expanded := rounds.expand (by decide)
      rw [pow_succ, ← Nat.mul_assoc] at expanded
      exact expanded

private theorem decimalMagnitude_zero (exponent : Int) : decimalMagnitude 0 exponent = 0 := by
  simp [decimalMagnitude]

/-- The text of a finite number shows a decimal that is nearest to its magnitude. -/
theorem decimalMagnitude_shownDecimal {amount : Float}
    (finite : magnitude amount < infiniteMagnitude) :
    decimalMagnitude (shownDecimal amount).significand (shownDecimal amount).exponent =
      magnitude amount := by
  have canonical := BinaryParts.canonical_ofBits (magnitude amount)
  have toMagnitude := BinaryParts.toMagnitude_ofBits finite
  have shortest : Decimal.shortest .even amount =
      if (BinaryParts.ofBits (magnitude amount)).significand = 0 then ⟨0, 0⟩
      else Decimal.shortestOfParts .even (BinaryParts.ofBits (magnitude amount)) := rfl
  unfold shownDecimal
  rw [shortest]
  refine Eq.trans ?_ toMagnitude
  rw [← toMagnitude] at finite
  generalize BinaryParts.ofBits (magnitude amount) = parts at canonical finite
  rcases Nat.eq_zero_or_pos parts.significand with zero | positive
  · rw [if_pos zero, canonical.toMagnitude_eq_zero zero]
    exact decimalMagnitude_zero _
  · rw [if_neg positive.ne']
    have rounds := Decimal.rounds_shortestOfParts .even positive
    dsimp only
    split
    · exact decimalMagnitude_eq_of_rounds canonical finite positive (rounds_withPlaces rounds)
    · exact decimalMagnitude_eq_of_rounds canonical finite positive rounds

/-- A finite number is read back if its text shows few digits. -/
theorem survives_of_isShort {amount : Float} (finite : amount.isFinite = true)
    (short : IsShort amount) : Survives amount := by
  obtain ⟨digits, bounded⟩ := short
  have bound := magnitude_lt_of_isFinite finite
  have nearest := decimalMagnitude_shownDecimal bound
  have scaled := scale_eq digits bounded (nearest.symm ▸ bound)
  rw [nearest] at scaled
  obtain ⟨number, read, value⟩ := exists_numberAndRest_write amount
  have whole := value (digits.trans (by decide))
  have same := floatOfMagnitude_magnitude amount
  have written : writeNumber (.real amount) = numberLayout.write amount := by
    simp [writeNumber, finite]
  unfold Survives
  rw [written, read, whole, scaled]
  cases negative : hasMinusSign amount with
  | true =>
      have negated : -floatOfMagnitude false (magnitude amount) =
          floatOfMagnitude true (magnitude amount) := neg_floatOfMagnitude bound false
      rw [negative, ← negated] at same
      simp [Number.negate, same]
  | false =>
      rw [negative] at same
      simp [same]

end BranchingDialogue.Json

import Mathlib.Tactic.Ring
import BranchingDialogue.Proofs.Decimal.Rounding

/-! The shortest decimal of a finite number counts units of `10 ^ -1076` in the rounding interval of
the number, and every decimal that does so is nearest to the number. -/

namespace BranchingDialogue

/-! ## Points of the rounding interval -/

/-- A power of ten in powers of two and five. -/
theorem pow_ten_eq {small large : Nat} (next : large = small + 2) :
    10 ^ large = 4 * 2 ^ small * 5 ^ large := by
  calc 10 ^ large = (2 * 5) ^ large := rfl
    _ = 2 ^ large * 5 ^ large := Nat.mul_pow 2 5 large
    _ = 4 * 2 ^ small * 5 ^ large := by rw [next]; ring

namespace BinaryParts

variable {parts : BinaryParts} {point : Nat}

private theorem quarterGap_eq (parts : BinaryParts) :
    parts.quarterGap = 2 ^ parts.shift * 5 ^ gridPower := by
  simp only [quarterGap, Nat.pow_eq]

private theorem quarterGap_pos (parts : BinaryParts) : 0 < parts.quarterGap := by
  rw [quarterGap_eq]
  exact Nat.mul_pos (Nat.two_pow_pos _) (Nat.pow_pos (by decide))

private theorem quarterGap_le {limit : Nat} (short : parts.shift ≤ limit) :
    parts.quarterGap ≤ 2 ^ limit * 5 ^ gridPower := by
  rw [quarterGap_eq]
  exact Nat.mul_le_mul_right _ (Nat.pow_le_pow_right (by decide) short)

/-- A point that rounds to a number lies between the ends of its rounding interval, and within them
if the significand is odd. -/
theorem bounds_of_roundsHere (rounds : parts.roundsHere point = true) :
    (4 * parts.significand - parts.reachBelow) * parts.quarterGap ≤ point ∧
      point ≤ (4 * parts.significand + 2) * parts.quarterGap ∧
      (parts.significand % 2 = 0 ∨
        ((4 * parts.significand - parts.reachBelow) * parts.quarterGap < point ∧
          point < (4 * parts.significand + 2) * parts.quarterGap)) := by
  have low : parts.scaled - (if parts.narrowBelow then 1 else 2) * parts.quarterGap =
      (4 * parts.significand - parts.reachBelow) * parts.quarterGap := by
    rw [Nat.sub_mul]
    rfl
  have high : parts.scaled + 2 * parts.quarterGap =
      (4 * parts.significand + 2) * parts.quarterGap := by
    rw [Nat.add_mul]
    rfl
  simp only [roundsHere, low, high] at rounds
  split at rounds <;> simp only [Bool.and_eq_true, decide_eq_true_eq] at rounds <;> omega

theorem point_pos_of_roundsHere (positive : 0 < parts.significand)
    (rounds : parts.roundsHere point = true) : 0 < point := by
  have reach : parts.reachBelow ≤ 2 := by
    unfold reachBelow
    split <;> omega
  have low := (bounds_of_roundsHere rounds).1
  have least : 0 < (4 * parts.significand - parts.reachBelow) * parts.quarterGap :=
    Nat.mul_pos (by omega) parts.quarterGap_pos
  omega

private theorem roundsHere_scaled (parts : BinaryParts) (positive : 0 < parts.significand) :
    parts.roundsHere parts.scaled = true := by
  have gap := parts.quarterGap_pos
  have inside : 4 * parts.quarterGap ≤ parts.scaled := by
    calc 4 * parts.quarterGap ≤ 4 * parts.significand * parts.quarterGap :=
          Nat.mul_le_mul_right _ (by omega)
      _ = parts.scaled := rfl
  unfold roundsHere
  dsimp only
  split <;> simp only [Bool.and_eq_true, decide_eq_true_eq] <;> split <;> omega

/-- A quotient that counts a point of the rounding interval is covered by the number. -/
theorem covers_of_roundsHere (rounds : parts.roundsHere point = true) {numerator denominator : Nat}
    (positive : 0 < denominator) (same : numerator * 10 ^ gridPower = point * denominator) :
    parts.Covers (numerator * 2 ^ unitPower) (2 ^ parts.shift * denominator) := by
  obtain ⟨low, high, even⟩ := bounds_of_roundsHere rounds
  have next : gridPower = unitPower + 2 := rfl
  rw [pow_ten_eq next] at same
  rw [quarterGap_eq] at low high even
  have fives : 0 < 5 ^ gridPower := Nat.pow_pos (by decide)
  generalize 5 ^ gridPower = five at low high even same fives
  generalize 2 ^ unitPower = two at same
  have scaledUnits : 4 * (numerator * two) * five = point * denominator := by
    rw [← same]
    ring
  have scaledBound (factor : Nat) :
      factor * (2 ^ parts.shift * denominator) * five =
        factor * (2 ^ parts.shift * five) * denominator := by
    ring
  constructor
  · refine Nat.le_of_mul_le_mul_right ?_ fives
    rw [scaledUnits, scaledBound]
    exact Nat.mul_le_mul_right _ low
  · refine Nat.le_of_mul_le_mul_right ?_ fives
    rw [scaledUnits, scaledBound]
    exact Nat.mul_le_mul_right _ high
  · refine even.imp id fun inner => ⟨?_, ?_⟩
    · refine Nat.lt_of_mul_lt_mul_right (a := five) ?_
      rw [scaledUnits, scaledBound]
      exact Nat.mul_lt_mul_of_pos_right inner.1 positive
    · refine Nat.lt_of_mul_lt_mul_right (a := five) ?_
      rw [scaledUnits, scaledBound]
      exact Nat.mul_lt_mul_of_pos_right inner.2 positive

/-! ## Decimals in the rounding interval -/

/-- Whether a decimal is a point of the rounding interval of a number. -/
def Rounds (parts : BinaryParts) (decimal : Decimal) : Prop :=
  ∃ power : Nat, decimal.exponent = (power : Int) - gridPower ∧
    parts.roundsHere (decimal.significand * 10 ^ power) = true

/-- Zeros can be moved from the exponent to the significand. -/
theorem Rounds.expand {significand places : Nat} {exponent : Int}
    (rounds : parts.Rounds ⟨significand, exponent + places⟩) (above : -gridPower ≤ exponent) :
    parts.Rounds ⟨significand * 10 ^ places, exponent⟩ := by
  obtain ⟨power, exponentEq, inside⟩ := rounds
  dsimp only at exponentEq
  have whole : power = places + (exponent + gridPower).toNat := by omega
  refine ⟨(exponent + gridPower).toNat, by dsimp only; omega, ?_⟩
  rw [Nat.mul_assoc, ← pow_add, ← whole]
  exact inside

private theorem roundsHere_onGrid {tie : Tie} {step significand : Nat}
    (found : parts.onGrid tie step = some significand) :
    parts.roundsHere (significand * step) = true := by
  simp only [onGrid, Bool.and_eq_true] at found
  split at found
  · rename_i both
    split at found
    · cases found
      exact both.1
    · cases found
      exact both.2
  · split at found
    · rename_i lower
      cases found
      exact lower
    · split at found
      · rename_i upper
        cases found
        exact upper
      · cases found

end BinaryParts

namespace Decimal

open BinaryParts

variable {parts : BinaryParts}

/-- Moving zeros from the significand to the exponent keeps the point. -/
theorem rounds_normalized (fuel : Nat) {decimal : Decimal} (rounds : parts.Rounds decimal) :
    parts.Rounds (normalized fuel decimal) := by
  induction fuel generalizing decimal with
  | zero => exact rounds
  | succ fuel inductionHypothesis =>
      unfold normalized
      split
      · rename_i divisible
        apply inductionHypothesis
        obtain ⟨power, exponent, inside⟩ := rounds
        refine ⟨power + 1, ?_, ?_⟩
        · rw [exponent]
          push_cast
          ring
        · have whole : decimal.significand / 10 * 10 = decimal.significand := by omega
          have same : decimal.significand / 10 * 10 ^ (power + 1) =
              decimal.significand * 10 ^ power := by
            rw [pow_succ', ← Nat.mul_assoc, whole]
          rw [same]
          exact inside
      · exact rounds

theorem rounds_shortestOfParts (tie : Tie) (positive : 0 < parts.significand) :
    parts.Rounds (shortestOfParts tie parts) := by
  unfold shortestOfParts
  dsimp only
  split
  · rename_i decimal found
    apply rounds_normalized
    obtain ⟨extra, -, onGrid⟩ := List.exists_of_findSome?_eq_some found
    rw [Option.map_eq_some_iff] at onGrid
    obtain ⟨significand, grid, rfl⟩ := onGrid
    exact ⟨_, rfl, roundsHere_onGrid grid⟩
  · refine ⟨0, by simp, ?_⟩
    simpa using roundsHere_scaled parts positive

end Decimal

/-! ## The nearest magnitude of a decimal -/

private theorem lt_length_toDigits {number size : Nat} (positive : 0 < size)
    (bound : 10 ^ size ≤ number) : size < (Nat.toDigits 10 number).length := by
  by_contra fewer
  have small := (Nat.length_toDigits_le_iff (by decide) positive).mp (Nat.le_of_not_lt fewer)
  omega

private theorem length_toDigits_le {number size : Nat} (positive : 0 < size)
    (bound : number < 10 ^ size) : (Nat.toDigits 10 number).length ≤ size :=
  (Nat.length_toDigits_le_iff (by decide) positive).mpr bound

/-- The points of rounding intervals have between 676 and 1476 digits. -/
theorem digitCount_of_roundsHere {parts : BinaryParts} {point : Nat} (canonical : parts.Canonical)
    (finite : parts.toMagnitude < infiniteMagnitude) (positive : 0 < parts.significand)
    (rounds : parts.roundsHere point = true) :
    676 ≤ (Nat.toDigits 10 point).length ∧ (Nat.toDigits 10 point).length ≤ 1476 := by
  obtain ⟨low, high, -⟩ := BinaryParts.bounds_of_roundsHere rounds
  have reach : parts.reachBelow ≤ 2 := by
    unfold BinaryParts.reachBelow
    split <;> omega
  have shift : parts.shift ≤ 2046 := by
    simp only [BinaryParts.toMagnitude, infiniteMagnitude, Nat.pow_eq] at finite
    omega
  have short := canonical.short
  have gapLow : 5 ^ gridPower ≤ parts.quarterGap := by
    rw [BinaryParts.quarterGap_eq]
    exact Nat.le_mul_of_pos_left _ (Nat.two_pow_pos _)
  have gapHigh := BinaryParts.quarterGap_le shift
  have powersLow : 10 ^ 675 ≤ 1 * 5 ^ gridPower := by decide +kernel
  have powersHigh : 2 ^ 56 * (2 ^ 2046 * 5 ^ gridPower) < 10 ^ 1476 := by decide +kernel
  have factorLow : 1 ≤ 4 * parts.significand - parts.reachBelow := by omega
  have factorHigh : 4 * parts.significand + 2 ≤ 2 ^ 56 := by omega
  have least := powersLow.trans ((Nat.mul_le_mul factorLow gapLow).trans low)
  have most := (high.trans (Nat.mul_le_mul factorHigh gapHigh)).trans_lt powersHigh
  exact ⟨lt_length_toDigits (by decide) least, length_toDigits_le (by decide) most⟩

private theorem length_toDigits_mul_pow {number : Nat} (positive : 0 < number) (power : Nat) :
    (Nat.toDigits 10 (number * 10 ^ power)).length = (Nat.toDigits 10 number).length + power := by
  induction power with
  | zero => simp
  | succ power inductionHypothesis =>
      have filled : 0 < number * 10 ^ power := Nat.mul_pos positive (Nat.pow_pos (by decide))
      have shifted : number * 10 ^ (power + 1) = 10 * (number * 10 ^ power) + 0 := by ring
      rw [shifted, ← Nat.toDigits_append_toDigits (by decide) filled (by decide),
        List.length_append, inductionHypothesis]
      rfl

/-- A decimal in the rounding interval of a finite number is nearest to the number. -/
theorem decimalMagnitude_eq_of_rounds {parts : BinaryParts} (canonical : parts.Canonical)
    (finite : parts.toMagnitude < infiniteMagnitude) (positive : 0 < parts.significand)
    {significand : Nat} {exponent : Int} (rounds : parts.Rounds ⟨significand, exponent⟩) :
    decimalMagnitude significand exponent = parts.toMagnitude := by
  obtain ⟨power, exponentEq, inside⟩ := rounds
  dsimp only at exponentEq inside
  have filled : 0 < significand :=
    Nat.pos_of_mul_pos_right (BinaryParts.point_pos_of_roundsHere positive inside)
  obtain ⟨least, most⟩ := digitCount_of_roundsHere canonical finite positive inside
  rw [length_toDigits_mul_pow filled] at least most
  have units : gridPower = 1076 := rfl
  unfold decimalMagnitude
  dsimp only
  rw [if_neg, if_neg (by omega)]
  · cases exponent with
    | ofNat above =>
        refine nearestMagnitude_eq canonical finite Nat.one_pos ?_
        refine BinaryParts.covers_of_roundsHere inside Nat.one_pos ?_
        have whole : power = above + gridPower := by
          have := exponentEq
          simp only [Int.ofNat_eq_natCast] at this
          omega
        rw [Nat.mul_one, Nat.mul_assoc, whole, pow_add]
        rfl
    | negSucc below =>
        have tens : 0 < 10 ^ (below + 1) := Nat.pow_pos (by decide)
        refine nearestMagnitude_eq canonical finite tens ?_
        refine BinaryParts.covers_of_roundsHere inside tens ?_
        have whole : gridPower = power + (below + 1) := by omega
        rw [Nat.mul_assoc, Nat.pow_eq, ← pow_add, ← whole]
  · simp only [Bool.or_eq_true, decide_eq_true_eq]
    omega

end BranchingDialogue

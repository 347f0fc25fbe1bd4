import Mathlib.Tactic.Linarith
import Mathlib.Tactic.Ring
import BranchingDialogue.Decimal.Nearest
import BranchingDialogue.Decimal.Shortest

/-! Every decimal in the rounding interval of a finite binary number is nearest to it. The shortest
decimal of a number lies in its rounding interval, and so it reads back as the number. -/

namespace BranchingDialogue

/-! ## Rounding to whole numbers -/

/-- A quotient that is at most one half away from a whole number is rounded to it, provided that the
number is even when the distance is exactly one half. -/
theorem roundedQuotient_eq {numerator denominator result : Nat}
    (low : 2 * result * denominator ≤ 2 * numerator + denominator)
    (high : 2 * numerator ≤ 2 * result * denominator + denominator)
    (even : result % 2 = 0 ∨
      (2 * result * denominator < 2 * numerator + denominator ∧
        2 * numerator < 2 * result * denominator + denominator))
    (positive : 0 < denominator) : roundedQuotient numerator denominator = result := by
  have division := Nat.div_add_mod numerator denominator
  have remainder := Nat.mod_lt numerator positive
  unfold roundedQuotient
  dsimp only
  generalize numerator / denominator = below at *
  generalize numerator % denominator = past at *
  have notBelow : below ≤ result := by
    by_contra beyond
    have larger : (result + 1) * denominator ≤ denominator * below := by
      rw [Nat.mul_comm denominator]
      exact Nat.mul_le_mul_right _ (by omega)
    nlinarith
  have notAbove : result ≤ below + 1 := by
    by_contra beyond
    have larger : denominator * below + 2 * denominator ≤ result * denominator := by
      calc denominator * below + 2 * denominator = (below + 2) * denominator := by ring
        _ ≤ result * denominator := Nat.mul_le_mul_right _ (by omega)
    nlinarith
  rcases Nat.lt_or_ge below result with smaller | larger
  · obtain rfl : result = below + 1 := by omega
    have expand : 2 * (below + 1) * denominator = 2 * (denominator * below) + 2 * denominator := by
      ring
    rw [expand] at low high even
    rw [if_neg]
    simp only [Bool.or_eq_true, Bool.and_eq_true, decide_eq_true_eq]
    omega
  · obtain rfl : result = below := by omega
    have expand : 2 * result * denominator = 2 * (denominator * result) := by ring
    rw [expand] at low high even
    rw [if_pos]
    simp only [Bool.or_eq_true, Bool.and_eq_true, decide_eq_true_eq]
    omega

/-! ## Binary parts -/

namespace BinaryParts

/-- The parts that finite numbers have: at most 53 binary digits, exactly as many unless the unit is
the smallest one, and a narrower gap below just at the first number with a larger unit. -/
structure Canonical (parts : BinaryParts) : Prop where
  short : parts.significand < 2 ^ 53
  full : 0 < parts.shift → 2 ^ 52 ≤ parts.significand
  narrow : parts.narrowBelow = true ↔ 0 < parts.shift ∧ parts.significand = 2 ^ 52

def toMagnitude (parts : BinaryParts) : Nat :=
  parts.shift * 2 ^ 52 + parts.significand

theorem canonical_ofBits (bits : Nat) : (ofBits bits).Canonical := by
  have fraction : bits % 2 ^ 52 < 2 ^ 52 := Nat.mod_lt _ (by decide)
  unfold ofBits
  simp only [Nat.pow_eq]
  split
  · exact ⟨by simp only; omega, by simp, by simp⟩
  · rename_i biased
    refine ⟨by simp only; omega, by simp, ?_⟩
    simp only [Bool.and_eq_true, beq_iff_eq, bne_iff_ne]
    omega

theorem Canonical.toMagnitude_eq_zero {parts : BinaryParts} (canonical : parts.Canonical)
    (zero : parts.significand = 0) : parts.toMagnitude = 0 := by
  have noShift : parts.shift = 0 := by
    by_contra shifted
    have full := canonical.full (Nat.pos_of_ne_zero shifted)
    omega
  simp [toMagnitude, zero, noShift]

theorem toMagnitude_ofBits {bits : Nat} (finite : bits < infiniteMagnitude) :
    (ofBits bits).toMagnitude = bits := by
  simp only [infiniteMagnitude, Nat.pow_eq] at finite
  unfold ofBits toMagnitude
  simp only [Nat.pow_eq]
  split <;> dsimp only <;> omega

end BinaryParts

/-! ## The nearest magnitude -/

/-- How far below a number its rounding interval reaches, in quarters of the gap above it. -/
def BinaryParts.reachBelow (parts : BinaryParts) : Nat :=
  if parts.narrowBelow then 1 else 2

/-- Whether a quotient lies in the rounding interval of a number. Both are counted in quarters of
the gap above the number, which is `gap` times the denominator. -/
structure BinaryParts.Covers (parts : BinaryParts) (units gap : Nat) : Prop where
  low : (4 * parts.significand - parts.reachBelow) * gap ≤ 4 * units
  high : 4 * units ≤ (4 * parts.significand + 2) * gap
  even : parts.significand % 2 = 0 ∨
    ((4 * parts.significand - parts.reachBelow) * gap < 4 * units ∧
      4 * units < (4 * parts.significand + 2) * gap)

/-- The size of the units in which a quotient is counted when it is rounded. -/
def unitShift (units denominator : Nat) : Nat :=
  (units / denominator).log2 - 52

private theorem lt_of_unitShift_lt {units denominator shift : Nat} (positive : 0 < denominator)
    (small : unitShift units denominator < shift + 1) :
    units < 2 ^ (shift + 53) * denominator := by
  rw [← Nat.div_lt_iff_lt_mul positive]
  rcases Nat.eq_zero_or_pos (units / denominator) with zero | filled
  · rw [zero]
    exact Nat.two_pow_pos _
  · rw [← Nat.log2_lt filled.ne']
    unfold unitShift at small
    omega

theorem unitShift_le_of_lt {units denominator shift : Nat} (positive : 0 < denominator)
    (bound : units < 2 ^ (shift + 53) * denominator) : unitShift units denominator ≤ shift := by
  rw [← Nat.div_lt_iff_lt_mul positive] at bound
  unfold unitShift
  rcases Nat.eq_zero_or_pos (units / denominator) with zero | filled
  · simp [zero]
  · have size := (Nat.log2_lt filled.ne').mpr bound
    omega

theorem le_unitShift_of_le {units denominator shift : Nat} (positive : 0 < denominator)
    (bound : 2 ^ (shift + 52) * denominator ≤ units) : shift ≤ unitShift units denominator := by
  rw [← Nat.le_div_iff_mul_le positive] at bound
  have filled : units / denominator ≠ 0 := by
    have power := Nat.two_pow_pos (shift + 52)
    omega
  have size := (Nat.le_log2 filled).mpr bound
  unfold unitShift
  omega

namespace BinaryParts

variable {parts : BinaryParts} {units denominator : Nat}

private theorem reachBelow_le (parts : BinaryParts) : parts.reachBelow ≤ 2 := by
  unfold reachBelow
  split <;> omega

/-- A quotient that a number covers is counted in the units of the number or in smaller ones. -/
theorem Covers.unitShift_le (covers : parts.Covers units (2 ^ parts.shift * denominator))
    (short : parts.significand < 2 ^ 53) (positive : 0 < denominator) :
    unitShift units denominator ≤ parts.shift := by
  have gapPositive : 0 < 2 ^ parts.shift * denominator := Nat.mul_pos (Nat.two_pow_pos _) positive
  have high := covers.high
  have most : (4 * parts.significand + 2) * (2 ^ parts.shift * denominator) ≤
      (4 * 2 ^ 53 - 2) * (2 ^ parts.shift * denominator) :=
    Nat.mul_le_mul_right _ (by omega)
  have power : 2 ^ (parts.shift + 53) * denominator = 2 ^ 53 * (2 ^ parts.shift * denominator) := by
    ring
  apply unitShift_le_of_lt positive
  omega

/-- A quotient that is counted in smaller units than the number that covers it lies below the first
number of these units, and it is rounded up to twice its significand. -/
theorem Covers.roundedQuotient_eq_of_lt (canonical : parts.Canonical) (positive : 0 < denominator)
    (covers : parts.Covers units (2 ^ parts.shift * denominator))
    (smaller : unitShift units denominator < parts.shift) :
    parts.significand = 2 ^ 52 ∧ parts.shift = unitShift units denominator + 1 ∧
      roundedQuotient units (denominator * 2 ^ unitShift units denominator) = 2 ^ 53 := by
  obtain ⟨short, full, narrow⟩ := canonical
  have low := covers.low
  have gapPositive : 0 < 2 ^ parts.shift * denominator := Nat.mul_pos (Nat.two_pow_pos _) positive
  obtain ⟨shift, shiftEq⟩ : ∃ shift, parts.shift = shift + 1 := ⟨parts.shift - 1, by omega⟩
  have long := full (by omega)
  have below : units < 2 ^ (shift + 53) * denominator := lt_of_unitShift_lt positive (by omega)
  have gapEq : 2 ^ parts.shift * denominator = 2 * (denominator * 2 ^ shift) := by
    rw [shiftEq]
    ring
  have belowGap : units < 2 ^ 52 * (2 ^ parts.shift * denominator) := by
    rw [shiftEq]
    calc units < 2 ^ (shift + 53) * denominator := below
      _ = 2 ^ 52 * (2 ^ (shift + 1) * denominator) := by ring
  have first : parts.significand = 2 ^ 52 := by
    have reach := parts.reachBelow_le
    by_contra different
    have least : (4 * 2 ^ 52 + 2) * (2 ^ parts.shift * denominator) ≤
        (4 * parts.significand - parts.reachBelow) * (2 ^ parts.shift * denominator) :=
      Nat.mul_le_mul_right _ (by omega)
    omega
  have reachOne : parts.reachBelow = 1 := by
    unfold reachBelow
    rw [if_pos (narrow.mpr ⟨by omega, first⟩)]
  rw [first, reachOne] at low
  have shiftSame : unitShift units denominator = shift := by
    apply Nat.le_antisymm
    · omega
    · apply le_unitShift_of_le positive
      have power : 2 ^ (shift + 52) * denominator = 2 ^ 52 * (denominator * 2 ^ shift) := by ring
      omega
  have rounded : roundedQuotient units (denominator * 2 ^ shift) = 2 ^ 53 :=
    roundedQuotient_eq (by omega) (by omega) (Or.inl (by decide)) (by omega)
  rw [shiftSame]
  exact ⟨first, shiftEq, rounded⟩

/-- A quotient that is counted in the units of the number that covers it is rounded to its
significand. -/
theorem Covers.roundedQuotient_eq_significand {gap : Nat} (covers : parts.Covers units gap)
    (positive : 0 < gap) : roundedQuotient units gap = parts.significand := by
  obtain ⟨low, high, even⟩ := covers
  have reach := parts.reachBelow_le
  have lowEq : (4 * parts.significand - 2) * gap ≤
      (4 * parts.significand - parts.reachBelow) * gap :=
    Nat.mul_le_mul_right _ (by omega)
  have lowProduct : (4 * parts.significand - 2) * gap =
      4 * (parts.significand * gap) - 2 * gap := by
    rw [Nat.sub_mul]
    ring_nf
  have highProduct : (4 * parts.significand + 2) * gap =
      4 * (parts.significand * gap) + 2 * gap := by
    ring
  have product : 2 * parts.significand * gap = 2 * (parts.significand * gap) := by ring
  exact roundedQuotient_eq (by omega) (by omega) (by omega) positive

/-- A quotient that a number covers gives the magnitude of the number. -/
theorem Covers.magnitude_eq (canonical : parts.Canonical) (positive : 0 < denominator)
    (covers : parts.Covers units (2 ^ parts.shift * denominator)) :
    unitShift units denominator * 2 ^ 52 +
      roundedQuotient units (denominator * 2 ^ unitShift units denominator) =
        parts.toMagnitude := by
  unfold toMagnitude
  by_cases smaller : unitShift units denominator < parts.shift
  · obtain ⟨first, shiftEq, rounded⟩ := covers.roundedQuotient_eq_of_lt canonical positive smaller
    rw [rounded, first, shiftEq]
    ring
  · have most := covers.unitShift_le canonical.1 positive
    have same : unitShift units denominator = parts.shift := by omega
    have gapPositive : 0 < 2 ^ parts.shift * denominator :=
      Nat.mul_pos (Nat.two_pow_pos _) positive
    rw [same, Nat.mul_comm denominator, covers.roundedQuotient_eq_significand gapPositive]

end BinaryParts

/-- A quotient in the rounding interval of a finite number is nearest to that number. -/
theorem nearestMagnitude_eq {parts : BinaryParts} (canonical : parts.Canonical)
    (finite : parts.toMagnitude < infiniteMagnitude) {numerator denominator : Nat}
    (positive : 0 < denominator)
    (covers : parts.Covers (numerator * 2 ^ unitPower) (2 ^ parts.shift * denominator)) :
    nearestMagnitude numerator denominator = parts.toMagnitude := by
  have rounded := covers.magnitude_eq canonical positive
  simp only [unitShift] at rounded
  simp only [nearestMagnitude, Nat.pow_eq]
  rw [rounded, Nat.min_eq_left finite.le]

end BranchingDialogue

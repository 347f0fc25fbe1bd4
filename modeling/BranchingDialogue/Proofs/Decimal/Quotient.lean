import BranchingDialogue.Proofs.Decimal.Packing

/-! Arithmetic rounds a quotient to 53 binary digits by shifting its whole part and keeping two bits
of what is lost. This gives the binary number that is nearest to the quotient. Whole numbers of up
to 53 binary digits, and multiples of large powers of two, are binary numbers themselves, and so
their products and quotients are rounded only once. -/

namespace BranchingDialogue

open Float.Model (Format UnpackedFloat)
open Float.Model.UnpackedFloat

/-! ## Mantissas -/

/-- The whole part of a quotient, with the two bits that tell where the rest lies from one half. -/
def quotientMantissa (numerator denominator : Nat) : ExtendedMantissa :=
  let rest := numerator % denominator
  ⟨numerator / denominator, denominator ≤ 2 * rest, rest ≠ 0 ∧ 2 * rest ≠ denominator⟩

section Quotient

variable {numerator denominator : Nat} (positive : 0 < denominator)

include positive

private theorem ofMantissaAndAccuracy_fraction :
    ExtendedMantissa.ofMantissaAndAccuracy (numerator / denominator)
        (accuracyOfFraction (numerator % denominator) denominator) =
      quotientMantissa numerator denominator := by
  unfold accuracyOfFraction quotientMantissa
  dsimp only
  generalize numerator % denominator = rest
  by_cases exact : rest = 0
  · simp [exact, ExtendedMantissa.ofMantissaAndAccuracy, positive.ne']
  · rw [if_neg exact]
    rcases lt_trichotomy (2 * rest) denominator with less | same | more
    · simp [compare_lt_iff_lt.mpr less, ExtendedMantissa.ofMantissaAndAccuracy, exact, less.ne,
        less.not_ge]
    · simp [ExtendedMantissa.ofMantissaAndAccuracy, same]
    · simp [compare_gt_iff_gt.mpr more, ExtendedMantissa.ofMantissaAndAccuracy, exact, more.ne',
        more.le]

/-- A quotient that is shifted by one is divided by two. -/
theorem shiftRightOne_quotientMantissa :
    (quotientMantissa numerator denominator).shiftRightOne =
      quotientMantissa numerator (2 * denominator) := by
  have whole : numerator / (2 * denominator) = numerator / denominator / 2 := by
    rw [Nat.div_div_eq_div_mul, Nat.mul_comm]
  have rest : numerator % (2 * denominator) =
      numerator % denominator + denominator * (numerator / denominator % 2) := by
    rw [Nat.mul_comm, Nat.mod_mul]
  have restShort := Nat.mod_lt numerator positive
  unfold quotientMantissa ExtendedMantissa.shiftRightOne
  dsimp only
  rw [whole, rest]
  generalize numerator % denominator = rest at restShort
  generalize numerator / denominator = below
  rcases Nat.mod_two_eq_zero_or_one below with even | odd
  · rw [even, Nat.mul_zero, Nat.add_zero, ExtendedMantissa.mk.injEq]
    refine ⟨rfl, ?_, ?_⟩
    · have notHalf : ¬ 2 * denominator ≤ 2 * rest := by omega
      simp [notHalf]
    · rw [← Bool.decide_or, decide_eq_decide]
      omega
  · rw [odd, Nat.mul_one, ExtendedMantissa.mk.injEq]
    refine ⟨rfl, ?_, ?_⟩
    · simp
    · rw [← Bool.decide_or, decide_eq_decide]
      omega

private theorem shiftRight_quotientMantissa (count : Nat) :
    quotientMantissa numerator denominator >>> count =
      quotientMantissa numerator (2 ^ count * denominator) := by
  induction count with
  | zero => simp [HShiftRight.hShiftRight, Nat.repeat]
  | succ count inductionHypothesis =>
      have wider : 0 < 2 ^ count * denominator := Nat.mul_pos (Nat.two_pow_pos count) positive
      have next : 2 ^ (count + 1) * denominator = 2 * (2 ^ count * denominator) := by ring
      show (quotientMantissa numerator denominator >>> count).shiftRightOne = _
      rw [inductionHypothesis, shiftRightOne_quotientMantissa wider, next]

/-- The bits of a quotient round it to the nearest whole number. -/
theorem roundedMantissa_quotientMantissa :
    (quotientMantissa numerator denominator).roundedMantissa =
      roundedQuotient numerator denominator := by
  have restShort := Nat.mod_lt numerator positive
  unfold quotientMantissa ExtendedMantissa.roundedMantissa roundedQuotient
  dsimp only
  generalize numerator % denominator = rest at restShort
  generalize numerator / denominator = below
  rcases lt_trichotomy (2 * rest) denominator with less | same | more
  · rw [decide_eq_false less.not_ge]
    by_cases exact : rest = 0
    · simp [exact, positive, ExtendedMantissa.accuracy, Accuracy.roundToNearestEven]
    · simp [exact, less, less.ne, ExtendedMantissa.accuracy, Accuracy.roundToNearestEven]
  · rw [decide_eq_true same.ge]
    have notExact : ¬ (rest ≠ 0 ∧ 2 * rest ≠ denominator) := fun apart => apart.2 same
    rw [decide_eq_false notExact]
    rcases Nat.mod_two_eq_zero_or_one below with even | odd
    · simp [same, even, ExtendedMantissa.accuracy, Accuracy.roundToNearestEven]
    · simp [same, odd, ExtendedMantissa.accuracy, Accuracy.roundToNearestEven]
  · have apart : rest ≠ 0 ∧ 2 * rest ≠ denominator := by omega
    rw [decide_eq_true more.le, decide_eq_true apart]
    simp [more.not_gt, more.ne', ExtendedMantissa.accuracy, Accuracy.roundToNearestEven]

end Quotient

/-! ## Rounded quotients -/

private theorem targetExponent_eq {mantissa unit : Nat} (long : 52 ≤ mantissa.log2) :
    Format.binary64.targetExponent (Float.Model.totalExponent mantissa ((unit : Int) - 1074)) =
      ((unit + (mantissa.log2 - 52) : Nat) : Int) - 1074 := by
  have least : Format.binary64.minExponent = -1074 := rfl
  have bits : (Format.binary64.mantissaBits : Int) = 53 := rfl
  unfold Format.targetExponent Float.Model.totalExponent
  rw [least, bits]
  omega

private theorem shiftToTargetExponent_short {significand : Nat} (unit : Nat)
    (long : 2 ^ 52 ≤ significand) (short : significand < 2 ^ 53) :
    shiftToTargetExponent Format.binary64 significand ((unit : Int) - 1074) .exact =
      (⟨significand, false, false⟩, (unit : Int) - 1074) := by
  have log : significand.log2 = 52 := (Nat.log2_eq_iff (by omega)).mpr ⟨long, short⟩
  unfold shiftToTargetExponent shiftToExponent
  rw [targetExponent_eq log.ge, log]
  simp [HShiftRight.hShiftRight, Nat.repeat, ExtendedMantissa.ofMantissaAndAccuracy]

private theorem shiftToTargetExponent_carried (unit : Nat) :
    shiftToTargetExponent Format.binary64 (2 ^ 53) ((unit : Int) - 1074) .exact =
      (⟨2 ^ 52, false, false⟩, ((unit + 1 : Nat) : Int) - 1074) := by
  have log : (2 ^ 53 : Nat).log2 = 53 := Nat.log2_two_pow
  unfold shiftToTargetExponent shiftToExponent
  rw [targetExponent_eq (by rw [log]; decide), log]
  have amount : (((unit + (53 - 52) : Nat) : Int) - 1074 - ((unit : Int) - 1074)).toNat = 1 := by
    omega
  dsimp only
  rw [amount]
  refine Prod.ext rfl ?_
  dsimp only
  omega

private theorem le_roundedQuotient (numerator denominator : Nat) :
    numerator / denominator ≤ roundedQuotient numerator denominator ∧
      roundedQuotient numerator denominator ≤ numerator / denominator + 1 := by
  unfold roundedQuotient
  dsimp only
  split <;> omega

/-- A quotient with at least 53 binary digits lies between two powers of two. -/
theorem bounds_of_log2 {numerator denominator : Nat} (positive : 0 < denominator)
    (long : 52 ≤ (numerator / denominator).log2) :
    let shift := (numerator / denominator).log2 - 52
    2 ^ (shift + 52) * denominator ≤ numerator ∧ numerator < 2 ^ (shift + 53) * denominator := by
  intro shift
  have filled : numerator / denominator ≠ 0 := by
    intro zero
    rw [zero] at long
    exact absurd long (by decide)
  rw [← Nat.le_div_iff_mul_le positive, ← Nat.div_lt_iff_lt_mul positive, ← Nat.le_log2 filled,
    ← Nat.log2_lt filled]
  omega

private theorem bounds_roundedQuotient {numerator denominator : Nat} (positive : 0 < denominator)
    (long : 52 ≤ (numerator / denominator).log2) :
    let rounded := roundedQuotient numerator
      (2 ^ ((numerator / denominator).log2 - 52) * denominator)
    2 ^ 52 ≤ rounded ∧ rounded ≤ 2 ^ 53 := by
  obtain ⟨low, high⟩ := bounds_of_log2 positive long
  generalize (numerator / denominator).log2 - 52 = shift at low high ⊢
  have wider : 0 < 2 ^ shift * denominator := Nat.mul_pos (Nat.two_pow_pos shift) positive
  obtain ⟨below, above⟩ := le_roundedQuotient numerator (2 ^ shift * denominator)
  have least : 2 ^ 52 ≤ numerator / (2 ^ shift * denominator) := by
    rw [Nat.le_div_iff_mul_le wider]
    calc 2 ^ 52 * (2 ^ shift * denominator) = 2 ^ (shift + 52) * denominator := by ring
      _ ≤ numerator := low
  have most : numerator / (2 ^ shift * denominator) < 2 ^ 53 := by
    rw [Nat.div_lt_iff_lt_mul wider]
    calc numerator < 2 ^ (shift + 53) * denominator := high
      _ = 2 ^ 53 * (2 ^ shift * denominator) := by ring
  exact ⟨least.trans below, above.trans most⟩

/-- The first shift leaves 53 binary digits of a quotient. -/
theorem shiftToTargetExponent_quotient {numerator denominator : Nat} (unit : Nat)
    (positive : 0 < denominator) (long : 52 ≤ (numerator / denominator).log2) :
    let shift := (numerator / denominator).log2 - 52
    shiftToTargetExponent Format.binary64 (numerator / denominator) ((unit : Int) - 1074)
        (accuracyOfFraction (numerator % denominator) denominator) =
      (quotientMantissa numerator (2 ^ shift * denominator),
        ((unit + shift : Nat) : Int) - 1074) := by
  intro shift
  have amount : (((unit + ((numerator / denominator).log2 - 52) : Nat) : Int) - 1074 -
      ((unit : Int) - 1074)).toNat = shift := by
    omega
  unfold shiftToTargetExponent shiftToExponent
  rw [targetExponent_eq long, ofMantissaAndAccuracy_fraction positive]
  dsimp only
  rw [amount, shiftRight_quotientMantissa positive]
  refine Prod.ext rfl ?_
  dsimp only
  omega

/-- A quotient with at least 53 binary digits is rounded to 53 of them. -/
theorem pack_roundWithAccuracy {numerator denominator unit : Nat} (positive : 0 < denominator)
    (long : 52 ≤ (numerator / denominator).log2)
    (finite : unit + ((numerator / denominator).log2 - 52) < 2000) :
    let shift := (numerator / denominator).log2 - 52
    Float.Model.pack (roundWithAccuracy Format.binary64 .positive (numerator / denominator)
        ((unit : Int) - 1074) (accuracyOfFraction (numerator % denominator) denominator)) =
      (floatOfMagnitude false
        ((unit + shift) * 2 ^ 52 + roundedQuotient numerator (2 ^ shift * denominator))).toModel := by
  intro shift
  have wider : 0 < 2 ^ shift * denominator := Nat.mul_pos (Nat.two_pow_pos shift) positive
  obtain ⟨least, most⟩ := bounds_roundedQuotient positive long
  unfold roundWithAccuracy
  rw [shiftToTargetExponent_quotient unit positive long]
  dsimp only
  rw [roundedMantissa_quotientMantissa wider]
  generalize roundedQuotient numerator (2 ^ shift * denominator) = rounded at least most
  have unitBound : unit + shift < 2000 := finite
  generalize unit + shift = unit at unitBound
  -- Rounding up can carry into a 54th digit, which a second shift moves into the exponent.
  rcases Nat.lt_or_ge rounded (2 ^ 53) with short | carried
  · have second := shiftToTargetExponent_short unit (by omega) short
    have finiteRounded : unit * 2 ^ 52 + rounded < infiniteMagnitude := by
      simp only [infiniteMagnitude, Nat.pow_eq]
      omega
    have filledRounded : 0 < rounded := by omega
    rw [second, toModel_floatOfMagnitude filledRounded short (fun _ => by omega) finiteRounded]
    exact congrArg _ (dif_neg filledRounded.ne')
  · obtain rfl : rounded = 2 ^ 53 := by omega
    have second := shiftToTargetExponent_carried unit
    have finiteRounded : (unit + 1) * 2 ^ 52 + 2 ^ 52 < infiniteMagnitude := by
      simp only [infiniteMagnitude, Nat.pow_eq]
      omega
    have same : unit * 2 ^ 52 + 2 ^ 53 = (unit + 1) * 2 ^ 52 + 2 ^ 52 := by ring
    have filledRounded : 0 < 2 ^ 52 := by decide
    rw [second, same,
      toModel_floatOfMagnitude filledRounded (by decide) (fun _ => le_rfl) finiteRounded]
    exact congrArg _ (dif_neg filledRounded.ne')

/-- A quotient is rounded like every other one with the same value. -/
theorem roundedQuotient_mul_right {numerator denominator factor : Nat} (positive : 0 < factor) :
    roundedQuotient (numerator * factor) (denominator * factor) =
      roundedQuotient numerator denominator := by
  unfold roundedQuotient
  dsimp only
  rw [Nat.mul_div_mul_right _ _ positive, Nat.mul_mod_mul_right, ← Nat.mul_assoc]
  simp only [Nat.mul_lt_mul_right positive, Nat.mul_left_inj positive.ne']

private theorem roundedQuotient_congr {numerator denominator top bottom : Nat}
    (positive : 0 < denominator)
    (bottomPositive : 0 < bottom) (same : top * denominator = numerator * bottom) :
    roundedQuotient top bottom = roundedQuotient numerator denominator := by
  rw [← roundedQuotient_mul_right positive, same, Nat.mul_comm bottom,
    roundedQuotient_mul_right bottomPositive]

private theorem two_pow_unitPower {first second : Nat} (sum : unitPower = first + second) :
    2 ^ unitPower = 2 ^ first * 2 ^ second := by
  rw [sum, pow_add]

private theorem nearestMagnitude_def (numerator denominator : Nat) :
    nearestMagnitude numerator denominator =
      min (unitShift (numerator * 2 ^ unitPower) denominator * 2 ^ 52 +
        roundedQuotient (numerator * 2 ^ unitPower)
          (denominator * 2 ^ unitShift (numerator * 2 ^ unitPower) denominator)) infiniteMagnitude := by
  simp only [nearestMagnitude, unitShift, Nat.pow_eq]

/-- The rounded quotient is the binary number that is nearest to it. -/
theorem pack_roundWithAccuracy_eq {numerator denominator unit top bottom : Nat}
    (positive : 0 < denominator) (long : 52 ≤ (numerator / denominator).log2)
    (finite : unit + ((numerator / denominator).log2 - 52) < 2000) (bottomPositive : 0 < bottom)
    (same : top * 2 ^ unitPower * denominator = numerator * (bottom * 2 ^ unit)) :
    Float.Model.pack (roundWithAccuracy Format.binary64 .positive (numerator / denominator)
        ((unit : Int) - 1074) (accuracyOfFraction (numerator % denominator) denominator)) =
      (floatOfMagnitude false (nearestMagnitude top bottom)).toModel := by
  rw [pack_roundWithAccuracy positive long finite]
  obtain ⟨low, high⟩ := bounds_of_log2 positive long
  obtain ⟨-, most⟩ := bounds_roundedQuotient positive long
  generalize (numerator / denominator).log2 - 52 = shift at finite low high most
  have shiftEq : unitShift (top * 2 ^ unitPower) bottom = unit + shift := by
    apply Nat.le_antisymm
    · apply unitShift_le_of_lt bottomPositive
      refine Nat.lt_of_mul_lt_mul_right (a := denominator) ?_
      calc top * 2 ^ unitPower * denominator = numerator * (bottom * 2 ^ unit) := same
        _ < 2 ^ (shift + 53) * denominator * (bottom * 2 ^ unit) :=
            Nat.mul_lt_mul_of_pos_right high (Nat.mul_pos bottomPositive (Nat.two_pow_pos unit))
        _ = 2 ^ (unit + shift + 53) * bottom * denominator := by ring
    · apply le_unitShift_of_le bottomPositive
      refine Nat.le_of_mul_le_mul_right ?_ positive
      calc 2 ^ (unit + shift + 52) * bottom * denominator
          = 2 ^ (shift + 52) * denominator * (bottom * 2 ^ unit) := by ring
        _ ≤ numerator * (bottom * 2 ^ unit) := Nat.mul_le_mul_right _ low
        _ = top * 2 ^ unitPower * denominator := same.symm
  have rounded : roundedQuotient (top * 2 ^ unitPower) (bottom * 2 ^ (unit + shift)) =
      roundedQuotient numerator (2 ^ shift * denominator) := by
    refine roundedQuotient_congr (Nat.mul_pos (Nat.two_pow_pos shift) positive)
      (Nat.mul_pos bottomPositive (Nat.two_pow_pos _)) ?_
    rw [Nat.mul_comm (2 ^ shift), ← Nat.mul_assoc, same]
    ring
  have bounded : (unit + shift) * 2 ^ 52 + roundedQuotient numerator (2 ^ shift * denominator) ≤
      infiniteMagnitude := by
    simp only [infiniteMagnitude, Nat.pow_eq]
    omega
  rw [nearestMagnitude_def, shiftEq, rounded, Nat.min_eq_left bounded]

/-! ## Exact whole numbers -/

private theorem unitShift_mul_two_pow {significand : Nat} (long : 2 ^ 52 ≤ significand)
    (short : significand < 2 ^ 53) (power : Nat) :
    unitShift (significand * 2 ^ power) 1 = power := by
  apply Nat.le_antisymm
  · apply unitShift_le_of_lt Nat.one_pos
    calc significand * 2 ^ power < 2 ^ 53 * 2 ^ power :=
          Nat.mul_lt_mul_of_pos_right short (Nat.two_pow_pos power)
      _ = 2 ^ (power + 53) * 1 := by ring
  · apply le_unitShift_of_le Nat.one_pos
    calc 2 ^ (power + 52) * 1 = 2 ^ 52 * 2 ^ power := by ring
      _ ≤ significand * 2 ^ power := Nat.mul_le_mul_right _ long

/-- Whether 53 binary digits are enough for a whole number. -/
structure IsExact (number : Nat) : Prop where
  positive : 0 < number
  small : number.log2 ≤ 400
  divides : 2 ^ number.log2 ∣ number * 2 ^ 52

/-- The first 53 binary digits of a whole number. -/
def fullSignificand (number : Nat) : Nat :=
  number * 2 ^ 52 / 2 ^ number.log2

namespace IsExact

variable {number : Nat}

private theorem fullSignificand_mul (exact : IsExact number) :
    fullSignificand number * 2 ^ number.log2 = number * 2 ^ 52 :=
  Nat.div_mul_cancel exact.divides

private theorem bounds_fullSignificand (exact : IsExact number) :
    2 ^ 52 ≤ fullSignificand number ∧ fullSignificand number < 2 ^ 53 := by
  have power := Nat.two_pow_pos number.log2
  have low := Nat.log2_self_le exact.positive.ne'
  have high := @Nat.lt_log2_self number
  unfold fullSignificand
  rw [Nat.le_div_iff_mul_le power, Nat.div_lt_iff_lt_mul power]
  constructor
  · rw [Nat.mul_comm]
    exact Nat.mul_le_mul_right _ low
  · calc number * 2 ^ 52 < 2 ^ (number.log2 + 1) * 2 ^ 52 :=
          Nat.mul_lt_mul_of_pos_right high (Nat.two_pow_pos 52)
      _ = 2 ^ 53 * 2 ^ number.log2 := by ring

private theorem fullSignificand_pos (exact : IsExact number) : 0 < fullSignificand number :=
  lt_of_lt_of_le (Nat.two_pow_pos 52) exact.bounds_fullSignificand.1

private theorem log2_fullSignificand (exact : IsExact number) :
    (fullSignificand number).log2 = 52 :=
  (Nat.log2_eq_iff exact.fullSignificand_pos.ne').mpr exact.bounds_fullSignificand

/-- An exact whole number is a binary number with its own digits. -/
theorem nearestMagnitude_eq (exact : IsExact number) :
    nearestMagnitude number 1 = (number.log2 + 1022) * 2 ^ 52 + fullSignificand number := by
  obtain ⟨long, short⟩ := exact.bounds_fullSignificand
  have small := exact.small
  have split : 2 ^ unitPower = 2 ^ 52 * 2 ^ 1022 := two_pow_unitPower rfl
  have units : number * 2 ^ unitPower = fullSignificand number * 2 ^ (number.log2 + 1022) := by
    rw [split, ← Nat.mul_assoc, ← exact.fullSignificand_mul, pow_add, Nat.mul_assoc]
  have shift : unitShift (number * 2 ^ unitPower) 1 = number.log2 + 1022 := by
    rw [units]
    exact unitShift_mul_two_pow long short (number.log2 + 1022)
  have rounded : roundedQuotient (number * 2 ^ unitPower) (1 * 2 ^ (number.log2 + 1022)) =
      fullSignificand number := by
    have whole := roundedQuotient_congr Nat.one_pos (Nat.two_pow_pos (number.log2 + 1022))
      ((Nat.mul_one _).trans units)
    rw [Nat.one_mul, whole]
    simp [roundedQuotient, Nat.mod_one]
  have bounded : (number.log2 + 1022) * 2 ^ 52 + fullSignificand number ≤ infiniteMagnitude := by
    simp only [infiniteMagnitude, Nat.pow_eq]
    omega
  rw [nearestMagnitude_def, shift, rounded, Nat.min_eq_left bounded]

private theorem unpack_eq (exact : IsExact number) :
    (floatOfMagnitude false (nearestMagnitude number 1)).toModel.unpack =
      .finite .positive (fullSignificand number) (((number.log2 + 1022 : Nat) : Int) - 1074)
        exact.fullSignificand_pos := by
  obtain ⟨long, short⟩ := exact.bounds_fullSignificand
  have small := exact.small
  have finite : (number.log2 + 1022) * 2 ^ 52 + fullSignificand number < infiniteMagnitude := by
    simp only [infiniteMagnitude, Nat.pow_eq]
    omega
  rw [exact.nearestMagnitude_eq]
  exact unpack_floatOfMagnitude exact.fullSignificand_pos short (fun _ => long) finite false

end IsExact

section Arithmetic

variable {left right : Nat} (leftExact : IsExact left) (rightExact : IsExact right)

include leftExact rightExact

/-! ## Quotients -/

/-- The first significand is moved up by 53 binary digits before it is divided. -/
theorem divCore_fullSignificand :
    divCore Format.binary64 (fullSignificand left) (((left.log2 + 1022 : Nat) : Int) - 1074)
        (fullSignificand right) (((right.log2 + 1022 : Nat) : Int) - 1074) =
      (fullSignificand left * 2 ^ 53 / fullSignificand right,
        ((left.log2 + 1021 - right.log2 : Nat) : Int) - 1074,
        accuracyOfFraction (fullSignificand left * 2 ^ 53 % fullSignificand right)
          (fullSignificand right)) := by
  have leftSmall := leftExact.small
  have rightSmall := rightExact.small
  have least : Format.binary64.minExponent = -1074 := rfl
  have bits : (Format.binary64.mantissaBits : Int) = 53 := rfl
  unfold divCore Format.targetExponent Float.Model.totalExponent
  rw [leftExact.log2_fullSignificand, rightExact.log2_fullSignificand, least, bits]
  have target : min ((((left.log2 + 1022 : Nat) : Int) - 1074) -
        (((right.log2 + 1022 : Nat) : Int) - 1074))
      (max (((52 : Nat) : Int) + 1 + (((left.log2 + 1022 : Nat) : Int) - 1074) -
        (((52 : Nat) : Int) + 1 + (((right.log2 + 1022 : Nat) : Int) - 1074)) - 53) (-1074)) =
      ((left.log2 + 1021 - right.log2 : Nat) : Int) - 1074 := by
    omega
  have amount : ((((left.log2 + 1022 : Nat) : Int) - 1074) -
        (((right.log2 + 1022 : Nat) : Int) - 1074) -
          (((left.log2 + 1021 - right.log2 : Nat) : Int) - 1074)).toNat = 53 := by
    omega
  dsimp only
  rw [target, amount, Nat.shiftLeft_eq]

/-- The divided significands have the same quotient as the numbers, in the units of the result. -/
theorem cross_div_fullSignificand :
    left * 2 ^ unitPower * fullSignificand right =
      fullSignificand left * 2 ^ 53 * (right * 2 ^ (left.log2 + 1021 - right.log2)) := by
  have leftDigits := leftExact.fullSignificand_mul
  have rightDigits := rightExact.fullSignificand_mul
  have rightSmall := rightExact.small
  have units : left.log2 + 1021 - right.log2 + right.log2 = left.log2 + 1021 := by omega
  have split : 2 ^ unitPower = 2 ^ 53 * 2 ^ 1021 := two_pow_unitPower rfl
  have powers : 2 ^ (left.log2 + 1021 - right.log2) * 2 ^ right.log2 =
      2 ^ left.log2 * 2 ^ 1021 := by
    rw [← pow_add, units, pow_add]
  rw [split]
  generalize 2 ^ 1021 = power at powers
  generalize 2 ^ (left.log2 + 1021 - right.log2) = unit at powers
  refine Nat.eq_of_mul_eq_mul_right (Nat.two_pow_pos right.log2) ?_
  calc left * (2 ^ 53 * power) * fullSignificand right * 2 ^ right.log2
      = left * (2 ^ 53 * power) * (fullSignificand right * 2 ^ right.log2) := by ring
    _ = left * 2 ^ 52 * 2 ^ 53 * right * power := by
        rw [rightDigits]
        ring
    _ = fullSignificand left * 2 ^ 53 * right * (2 ^ left.log2 * power) := by
        rw [← leftDigits]
        ring
    _ = fullSignificand left * 2 ^ 53 * (right * unit) * 2 ^ right.log2 := by
        rw [← powers]
        ring

/-- The quotient of exact whole numbers is the binary number nearest to it. -/
theorem div_nearestMagnitude :
    floatOfMagnitude false (nearestMagnitude left 1) /
        floatOfMagnitude false (nearestMagnitude right 1) =
      floatOfMagnitude false (nearestMagnitude left right) := by
  obtain ⟨leftLong, leftShort⟩ := leftExact.bounds_fullSignificand
  obtain ⟨rightLong, rightShort⟩ := rightExact.bounds_fullSignificand
  have rightFilled := rightExact.fullSignificand_pos
  have leftSmall := leftExact.small
  have quotient : 2 ^ 52 ≤ fullSignificand left * 2 ^ 53 / fullSignificand right ∧
      fullSignificand left * 2 ^ 53 / fullSignificand right < 2 ^ 55 := by
    rw [Nat.le_div_iff_mul_le rightFilled, Nat.div_lt_iff_lt_mul rightFilled]
    omega
  have filled : fullSignificand left * 2 ^ 53 / fullSignificand right ≠ 0 := by omega
  have long := (Nat.le_log2 filled).mpr quotient.1
  have short := (Nat.log2_lt filled).mpr quotient.2
  have finite : left.log2 + 1021 - right.log2 +
      ((fullSignificand left * 2 ^ 53 / fullSignificand right).log2 - 52) < 2000 := by
    omega
  show Float.ofModel (.pack (UnpackedFloat.div Format.binary64 _ _)) = _
  rw [leftExact.unpack_eq, rightExact.unpack_eq]
  unfold UnpackedFloat.div
  dsimp only
  rw [divCore_fullSignificand leftExact rightExact]
  exact congrArg Float.ofModel (pack_roundWithAccuracy_eq rightFilled long finite
    rightExact.positive (cross_div_fullSignificand leftExact rightExact))

/-! ## Products -/

private theorem cross_mul_fullSignificand :
    left * right * 2 ^ unitPower * 1 = fullSignificand left * fullSignificand right *
      (1 * 2 ^ (left.log2 + right.log2 + 970)) := by
  have leftDigits := leftExact.fullSignificand_mul
  have rightDigits := rightExact.fullSignificand_mul
  have split : 2 ^ unitPower = 2 ^ 104 * 2 ^ 970 := two_pow_unitPower rfl
  have powers : 2 ^ (left.log2 + right.log2 + 970) =
      2 ^ left.log2 * 2 ^ right.log2 * 2 ^ 970 := by
    rw [← pow_add, ← pow_add]
  rw [split, powers]
  generalize 2 ^ 970 = power
  calc left * right * (2 ^ 104 * power) * 1
      = left * 2 ^ 52 * (right * 2 ^ 52) * power := by ring
    _ = fullSignificand left * fullSignificand right *
          (1 * (2 ^ left.log2 * 2 ^ right.log2 * power)) := by
        rw [← leftDigits, ← rightDigits]
        ring

/-- The product of exact whole numbers is the binary number nearest to it. -/
theorem mul_nearestMagnitude :
    floatOfMagnitude false (nearestMagnitude left 1) *
        floatOfMagnitude false (nearestMagnitude right 1) =
      floatOfMagnitude false (nearestMagnitude (left * right) 1) := by
  obtain ⟨leftLong, leftShort⟩ := leftExact.bounds_fullSignificand
  obtain ⟨rightLong, rightShort⟩ := rightExact.bounds_fullSignificand
  have leftSmall := leftExact.small
  have rightSmall := rightExact.small
  have exponent : ((left.log2 + 1022 : Nat) : Int) - 1074 +
      (((right.log2 + 1022 : Nat) : Int) - 1074) =
        ((left.log2 + right.log2 + 970 : Nat) : Int) - 1074 := by
    omega
  have product : 2 ^ 104 ≤ fullSignificand left * fullSignificand right ∧
      fullSignificand left * fullSignificand right < 2 ^ 106 := by
    have low := Nat.mul_le_mul leftLong rightLong
    have high := Nat.mul_lt_mul'' leftShort rightShort
    omega
  have filled : fullSignificand left * fullSignificand right ≠ 0 := by omega
  have long := (Nat.le_log2 filled).mpr product.1
  have short := (Nat.log2_lt filled).mpr product.2
  have rounded := pack_roundWithAccuracy_eq Nat.one_pos (by rw [Nat.div_one]; omega)
    (by rw [Nat.div_one]; omega) Nat.one_pos (cross_mul_fullSignificand leftExact rightExact)
  rw [Nat.div_one, Nat.mod_one] at rounded
  show Float.ofModel (.pack (UnpackedFloat.mul Format.binary64 _ _)) = _
  rw [leftExact.unpack_eq, rightExact.unpack_eq]
  unfold UnpackedFloat.mul
  dsimp only
  rw [exponent]
  exact congrArg Float.ofModel rounded

end Arithmetic

end BranchingDialogue

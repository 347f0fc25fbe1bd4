import Mathlib
import BranchingDialogue.Decimal.Layout
import BranchingDialogue.Decimal.Nearest

/-! A number is known by its sign and its magnitude, the number that its other 63 bits write. Finite
numbers are those with a magnitude below that of infinity, and only what is no number has a
magnitude beyond it. -/

namespace BranchingDialogue

open Float.Model (Format UnpackedFloat)
open Float.Model.UnpackedFloat

def magnitude (number : Float) : Nat :=
  number.toBits.toNat % Nat.pow 2 63

/-! ## Parts of bit patterns -/

section Parts

variable (bits : BitVec Format.binary64.numBits)

theorem toNat_unpackMantissa : (unpackMantissa bits).toNat = bits.toNat % 2 ^ 52 := by
  simp [unpackMantissa, BitVec.extractLsb, BitVec.extractLsb']

theorem toNat_unpackExponent :
    (unpackExponent bits).toNat = bits.toNat / 2 ^ 52 % 2 ^ 11 := by
  simp [unpackExponent, BitVec.extractLsb, BitVec.extractLsb', Nat.shiftRight_eq_div_pow]

end Parts

/-! ## Numbers -/

/-- A number is known by its sign and its magnitude. -/
theorem floatOfMagnitude_magnitude (number : Float) :
    floatOfMagnitude (hasMinusSign number) (magnitude number) = number := by
  have bound : number.toBits.toNat < 2 ^ 64 := number.toBits.toNat_lt
  have whole :
      (if hasMinusSign number then Nat.pow 2 63 + magnitude number else magnitude number) =
        number.toBits.toNat := by
    simp only [hasMinusSign, magnitude, Nat.pow_eq, decide_eq_true_eq]
    split <;> omega
  rw [floatOfMagnitude, whole, UInt64.ofNat_toNat, Float.ofBits_toBits]

/-- The exponent is full exactly from the magnitude of infinity on, where the mantissa is empty. -/
theorem parts_iff_magnitude (number : Float) :
    (@unpackExponent Format.binary64 number.toBits.toBitVec = -1#_ ↔
      infiniteMagnitude ≤ magnitude number) ∧
    (@unpackExponent Format.binary64 number.toBits.toBitVec = -1#_ →
      (@unpackMantissa Format.binary64 number.toBits.toBitVec = 0#_ ↔
        magnitude number = infiniteMagnitude)) := by
  have bound : number.toBits.toNat < 2 ^ 64 := number.toBits.toNat_lt
  have exponent := toNat_unpackExponent number.toBits.toBitVec
  have mantissa := toNat_unpackMantissa number.toBits.toBitVec
  have full : (-1#11 : BitVec 11).toNat = 2047 := rfl
  have empty : (0#52 : BitVec 52).toNat = 0 := rfl
  have same : number.toBits.toBitVec.toNat = number.toBits.toNat := rfl
  have exponentIff :=
    @BitVec.toNat_inj 11 (@unpackExponent Format.binary64 number.toBits.toBitVec) (-1#11)
  have mantissaIff :=
    @BitVec.toNat_inj 52 (@unpackMantissa Format.binary64 number.toBits.toBitVec) 0#52
  simp only [magnitude, infiniteMagnitude, Nat.pow_eq]
  rw [← exponentIff, ← mantissaIff, exponent, mantissa, full, empty, same]
  omega

theorem isNaN_eq (number : Float) :
    number.isNaN = decide (infiniteMagnitude < magnitude number) := by
  obtain ⟨fullIff, emptyIff⟩ := parts_iff_magnitude number
  show (UnpackedFloat.unpack Format.binary64 number.toBits.toBitVec).isNaN = _
  unfold UnpackedFloat.unpack
  dsimp only
  split
  · rename_i full
    have least := fullIff.mp full
    split
    · rename_i empty
      simp [UnpackedFloat.isNaN, (emptyIff full).mp empty]
    · rename_i notEmpty
      have different := (emptyIff full).not.mp notEmpty
      simp only [UnpackedFloat.isNaN]
      symm
      rw [decide_eq_true_eq]
      omega
  · rename_i notFull
    have below : ¬ infiniteMagnitude < magnitude number := fun beyond =>
      notFull (fullIff.mpr beyond.le)
    split
    · split <;> simp [UnpackedFloat.isNaN, below]
    · simp [UnpackedFloat.isNaN, below]

theorem isInf_eq (number : Float) :
    number.isInf = decide (magnitude number = infiniteMagnitude) := by
  obtain ⟨fullIff, emptyIff⟩ := parts_iff_magnitude number
  show (UnpackedFloat.unpack Format.binary64 number.toBits.toBitVec).isInf = _
  unfold UnpackedFloat.unpack
  dsimp only
  split
  · rename_i full
    split
    · rename_i empty
      simp [UnpackedFloat.isInf, (emptyIff full).mp empty]
    · rename_i notEmpty
      simp [UnpackedFloat.isInf, (emptyIff full).not.mp notEmpty]
  · rename_i notFull
    have different : ¬ magnitude number = infiniteMagnitude := fun equality =>
      notFull (fullIff.mpr equality.ge)
    split
    · split <;> simp [UnpackedFloat.isInf, different]
    · simp [UnpackedFloat.isInf, different]

theorem magnitude_lt_of_isFinite {number : Float} (finite : number.isFinite = true) :
    magnitude number < infiniteMagnitude := by
  have other : number.isNaN = false ∧ number.isInf = false := by
    replace finite : number.toModel.unpack.isFinite = true := finite
    show number.toModel.unpack.isNaN = false ∧ number.toModel.unpack.isInf = false
    cases unpacked : number.toModel.unpack with
    | infinity sign => simp [unpacked, UnpackedFloat.isFinite] at finite
    | notANumber => simp [unpacked, UnpackedFloat.isFinite] at finite
    | zero sign => exact ⟨rfl, rfl⟩
    | finite sign mantissa exponent positive => exact ⟨rfl, rfl⟩
  rw [isNaN_eq, isInf_eq, decide_eq_false_iff_not, decide_eq_false_iff_not] at other
  omega

end BranchingDialogue

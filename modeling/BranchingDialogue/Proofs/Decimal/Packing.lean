import BranchingDialogue.Proofs.Decimal.Bits
import BranchingDialogue.Proofs.Decimal.Rounding

/-! The arithmetic of binary numbers takes them apart into a sign, a significand and the exponent of
their units, and puts the result together again. For finite numbers both are known from the
magnitude. -/

namespace BranchingDialogue

open Float.Model (Format UnpackedFloat)
open Float.Model.UnpackedFloat

/-! ## Bits -/

def signOf (negative : Bool) : Sign :=
  if negative then .negative else .positive

private theorem ofBitVec_unpackSign (bits : BitVec Format.binary64.numBits) :
    Sign.ofBitVec (unpackSign bits) = signOf (decide (2 ^ 63 ≤ bits.toNat)) := by
  have bound : bits.toNat < 2 ^ 64 := bits.isLt
  have value : (unpackSign bits).toNat = bits.toNat / 2 ^ 63 % 2 := by
    simp [unpackSign, BitVec.extractLsb, BitVec.extractLsb', Nat.shiftRight_eq_div_pow]
  have positiveIff : unpackSign bits = 0#1 ↔ ¬ 2 ^ 63 ≤ bits.toNat := by
    rw [← BitVec.toNat_inj, value, BitVec.toNat_ofNat]
    omega
  unfold Sign.ofBitVec signOf
  by_cases large : 2 ^ 63 ≤ bits.toNat
  · rw [if_neg fun empty => positiveIff.mp empty large, decide_eq_true large]
    rfl
  · rw [if_pos (positiveIff.mpr large), decide_eq_false large]
    rfl

def bitsOf (negative : Bool) (magnitude : Nat) : BitVec Format.binary64.numBits :=
  (UInt64.ofNat (if negative then Nat.pow 2 63 + magnitude else magnitude)).toBitVec

private theorem parts_bitsOf {magnitude : Nat} (finite : magnitude < infiniteMagnitude)
    (negative : Bool) :
    (unpackExponent (bitsOf negative magnitude)).toNat = magnitude / 2 ^ 52 ∧
      (unpackMantissa (bitsOf negative magnitude)).toNat = magnitude % 2 ^ 52 ∧
      Sign.ofBitVec (unpackSign (bitsOf negative magnitude)) = signOf negative := by
  have bound : magnitude < 2047 * 2 ^ 52 := finite
  have whole : (bitsOf negative magnitude).toNat =
      if negative then 2 ^ 63 + magnitude else magnitude := by
    simp only [bitsOf, UInt64.toNat_toBitVec, UInt64.toNat_ofNat', Nat.pow_eq]
    split <;> omega
  have exponent := toNat_unpackExponent (bitsOf negative magnitude)
  have mantissa := toNat_unpackMantissa (bitsOf negative magnitude)
  have sign := ofBitVec_unpackSign (bitsOf negative magnitude)
  rw [whole] at exponent mantissa sign
  refine ⟨exponent.trans ?_, mantissa.trans ?_, sign.trans (congrArg signOf ?_)⟩
  · split <;> omega
  · split <;> omega
  · cases negative with
    | true => simp
    | false =>
        simp only [Bool.false_eq_true, if_false, decide_eq_false_iff_not]
        omega

private theorem unpackExponent_bitsOf_ne {magnitude : Nat} (finite : magnitude < infiniteMagnitude)
    (negative : Bool) : unpackExponent (bitsOf negative magnitude) ≠ -1#_ := by
  intro full
  have size := congrArg BitVec.toNat full
  have ones : (-1#11 : BitVec 11).toNat = 2047 := rfl
  have bound : magnitude < 2047 * 2 ^ 52 := finite
  rw [(parts_bitsOf finite negative).1] at size
  have below : magnitude / 2 ^ 52 < 2047 := by omega
  exact below.ne (size.trans ones)

section Finite

variable {shift significand : Nat} (positive : 0 < significand)

private theorem unpack_bitsOf (short : significand < 2 ^ 53)
    (full : 0 < shift → 2 ^ 52 ≤ significand)
    (finite : shift * 2 ^ 52 + significand < infiniteMagnitude) (negative : Bool) :
    UnpackedFloat.unpack Format.binary64 (bitsOf negative (shift * 2 ^ 52 + significand)) =
      .finite (signOf negative) significand (shift - 1074) positive := by
  obtain ⟨exponent, mantissa, sign⟩ := parts_bitsOf finite negative
  have notFull := unpackExponent_bitsOf_ne finite negative
  generalize bitsOf negative (shift * 2 ^ 52 + significand) = bits at exponent mantissa sign notFull
  have emptyIff : unpackExponent bits = 0#_ ↔ significand < 2 ^ 52 := by
    rw [← BitVec.toNat_inj, exponent, BitVec.toNat_ofNat, Nat.zero_mod]
    omega
  have same {mantissa : Nat} {power : Int} (filled : 0 < mantissa)
      (mantissaSame : mantissa = significand) (powerSame : power = shift - 1074) :
      UnpackedFloat.finite (signOf negative) mantissa power filled =
        .finite (signOf negative) significand (shift - 1074) positive := by
    subst mantissaSame powerSame
    rfl
  unfold UnpackedFloat.unpack
  dsimp only
  rw [if_neg notFull, sign]
  by_cases subnormal : significand < 2 ^ 52
  · have noShift : shift = 0 := by
      by_contra shifted
      exact absurd (full (Nat.pos_of_ne_zero shifted)) (by omega)
    have filled : unpackMantissa bits ≠ 0#_ := by
      intro empty
      rw [empty, BitVec.toNat_ofNat, Nat.zero_mod] at mantissa
      omega
    rw [if_pos (emptyIff.mpr subnormal), dif_neg filled]
    refine same _ (mantissa.trans (by omega)) ?_
    have noExponent : (unpackExponent bits).toNat = 0 := exponent.trans (by omega)
    rw [noExponent, noShift]
    rfl
  · rw [if_neg (emptyIff.not.mpr subnormal)]
    refine same _ ?_ ?_
    · rw [BitVec.toNat_append, ← Nat.shiftLeft_add_eq_or_of_lt (BitVec.isLt _), mantissa]
      have implicit : (1#1).toNat <<< Format.binary64.mantissaBitsWithoutImplicit = 2 ^ 52 := rfl
      rw [implicit]
      omega
    · have someExponent : (unpackExponent bits).toNat = shift + 1 := exponent.trans (by omega)
      have bias : ((Format.binary64.exponentBias : Int) +
        Format.binary64.mantissaBitsWithoutImplicit) = 1075 := rfl
      rw [someExponent, bias]
      omega

theorem toModel_floatOfMagnitude (short : significand < 2 ^ 53)
    (full : 0 < shift → 2 ^ 52 ≤ significand)
    (finite : shift * 2 ^ 52 + significand < infiniteMagnitude) (negative : Bool) :
    (floatOfMagnitude negative (shift * 2 ^ 52 + significand)).toModel =
      .pack (.finite (signOf negative) significand (shift - 1074) positive) :=
  congrArg Float.Model.pack (unpack_bitsOf positive short full finite negative)

theorem unpack_floatOfMagnitude (short : significand < 2 ^ 53)
    (full : 0 < shift → 2 ^ 52 ≤ significand)
    (finite : shift * 2 ^ 52 + significand < infiniteMagnitude) (negative : Bool) :
    (floatOfMagnitude negative (shift * 2 ^ 52 + significand)).toModel.unpack =
      .finite (signOf negative) significand (shift - 1074) positive := by
  have notNaN : isNaNBits (bitsOf negative (shift * 2 ^ 52 + significand)) = false :=
    decide_eq_false fun parts => unpackExponent_bitsOf_ne finite negative parts.1
  have packed := pack_unpack (bitsOf negative (shift * 2 ^ 52 + significand))
  rw [notNaN, unpack_bitsOf positive short full finite] at packed
  rw [toModel_floatOfMagnitude positive short full finite]
  show UnpackedFloat.unpack Format.binary64 (UnpackedFloat.pack Format.binary64 _) = _
  rw [packed]
  exact unpack_bitsOf positive short full finite negative

end Finite

/-! ## Signs -/

theorem magnitude_cases {magnitude : Nat} (finite : magnitude < infiniteMagnitude) :
    magnitude = 0 ∨ ∃ shift significand, 0 < significand ∧ significand < 2 ^ 53 ∧
      (0 < shift → 2 ^ 52 ≤ significand) ∧ magnitude = shift * 2 ^ 52 + significand := by
  have canonical := BinaryParts.canonical_ofBits magnitude
  have toMagnitude := BinaryParts.toMagnitude_ofBits finite
  rcases Nat.eq_zero_or_pos (BinaryParts.ofBits magnitude).significand with zero | positive
  · exact Or.inl (toMagnitude.symm.trans (canonical.toMagnitude_eq_zero zero))
  · exact Or.inr ⟨_, _, positive, canonical.short, canonical.full, toMagnitude.symm⟩

theorem neg_floatOfMagnitude {magnitude : Nat} (finite : magnitude < infiniteMagnitude)
    (negative : Bool) :
    -floatOfMagnitude negative magnitude = floatOfMagnitude (!negative) magnitude := by
  obtain rfl | ⟨shift, significand, positive, short, full, rfl⟩ := magnitude_cases finite
  · cases negative <;> decide +kernel
  · show Float.ofModel (.pack (UnpackedFloat.neg _)) = _
    rw [unpack_floatOfMagnitude positive short full finite]
    have packed := toModel_floatOfMagnitude positive short full finite (!negative)
    cases negative <;> exact congrArg Float.ofModel packed.symm

theorem isInf_floatOfMagnitude {magnitude : Nat} (finite : magnitude < infiniteMagnitude) :
    (floatOfMagnitude false magnitude).isInf = false := by
  obtain rfl | ⟨shift, significand, positive, short, full, rfl⟩ := magnitude_cases finite
  · decide +kernel
  · show UnpackedFloat.isInf (Float.Model.unpack _) = false
    rw [unpack_floatOfMagnitude positive short full finite]
    rfl

end BranchingDialogue

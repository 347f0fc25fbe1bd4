import BranchingDialogue.Proofs.Decimal.Packing
import BranchingDialogue.Proofs.Decimal.Reading
import BranchingDialogue.Proofs.Text.Cut
import BranchingDialogue.Script.Command

/-! The amount of an offset is written in decimal digits, so that it is a number. It can be infinite
when there are many digits. Added to the two infinities it gives different sums. -/

namespace BranchingDialogue

open Float.Model (UnpackedFloat)

/-! ## Infinities -/

private theorem decimalMagnitude_le (significand : Nat) (exponent : Int) :
    decimalMagnitude significand exponent ≤ infiniteMagnitude := by
  unfold decimalMagnitude
  dsimp only
  split
  · exact Nat.zero_le _
  · split
    · exact Nat.le_refl _
    · split <;> exact Nat.min_le_right _ _

private theorem isNaN_floatOfMagnitude {magnitude : Nat} (bound : magnitude ≤ infiniteMagnitude)
    (negative : Bool) : (floatOfMagnitude negative magnitude).isNaN = false := by
  rcases Nat.eq_or_lt_of_le bound with rfl | finite
  · cases negative <;> decide +kernel
  · obtain rfl | ⟨shift, significand, positive, short, full, rfl⟩ := magnitude_cases finite
    · cases negative <;> decide +kernel
    · show UnpackedFloat.isNaN (Float.Model.unpack _) = false
      rw [unpack_floatOfMagnitude positive short full finite]
      rfl

private theorem isNaN_neg_floatOfMagnitude {magnitude : Nat} (bound : magnitude ≤ infiniteMagnitude)
    (negative : Bool) : (-floatOfMagnitude negative magnitude).isNaN = false := by
  rcases Nat.eq_or_lt_of_le bound with rfl | finite
  · cases negative <;> decide +kernel
  · rw [neg_floatOfMagnitude finite]
    exact isNaN_floatOfMagnitude bound _

def infiniteNumber (negative : Bool) : Float :=
  floatOfMagnitude negative infiniteMagnitude

/-- The infinities differ, also after the same amount is added to them. -/
theorem infiniteNumber_add_ne {amount : Float} (defined : amount.isNaN = false) :
    infiniteNumber false + amount ≠ infiniteNumber true + amount := by
  have unpackedPositive : (infiniteNumber false).toModel.unpack = .infinity .positive := by rfl
  have unpackedNegative : (infiniteNumber true).toModel.unpack = .infinity .negative := by rfl
  have sum (negative : Bool) : infiniteNumber negative + amount = .ofModel (.pack
      (.add .binary64 (infiniteNumber negative).toModel.unpack amount.toModel.unpack)) := rfl
  replace defined : amount.toModel.unpack.isNaN = false := defined
  have apart : Float.ofModel (.pack (.infinity .positive)) ≠
      .ofModel (.pack (.infinity .negative)) := by decide +kernel
  rw [sum, sum, unpackedPositive, unpackedNegative]
  cases unpacked : amount.toModel.unpack with
  | notANumber => cases unpacked ▸ defined
  | infinity sign => cases sign <;> decide +kernel
  | zero sign => exact apart
  | finite sign mantissa exponent positive => exact apart

namespace Script

open Text

/-! ## Amounts -/

private theorem le_of_readDigits {text : List Char} {magnitude : Nat}
    (read : Decimal.readDigits text = some magnitude) : magnitude ≤ infiniteMagnitude := by
  obtain ⟨-, scaled⟩ := Option.ite_none_left_eq_some.mp read
  obtain ⟨power, -, rfl⟩ := Option.map_eq_some_iff.mp scaled
  exact decimalMagnitude_le _ _

private theorem exists_digit_of_leadingDigits {text : List Char}
    (filled : (Decimal.leadingDigits text).1 ≠ []) :
    ∃ digit rest, text = digit :: rest ∧ digit.isDigit = true := by
  cases text with
  | nil => exact absurd rfl filled
  | cons digit rest =>
      refine ⟨digit, rest, rfl, ?_⟩
      by_contra other
      exact filled (List.takeWhile_cons_of_neg other)

/-- A text that is a number with a digit behind an optional minus is a number in digits. -/
theorem exists_of_offsetNumber {text : List Char} {amount : Float}
    (read : offsetNumber text = some amount) :
    ∃ negative, ∃ magnitude ≤ infiniteMagnitude, amount = floatOfMagnitude negative magnitude := by
  obtain ⟨shape, number⟩ := Option.ite_none_left_eq_some.mp read
  have filled : (Decimal.leadingDigits ((List.isPrefixOf? ['-'] text).getD text)).1 ≠ [] := by
    intro empty
    exact shape (Bool.or_eq_true_iff.mpr (Or.inl (List.isEmpty_iff.mpr empty)))
  obtain ⟨digit, rest, textEq, isDigit⟩ := exists_digit_of_leadingDigits filled
  have sign : (Decimal.signAndRest text).2 = digit :: rest := by
    cases lead : List.isPrefixOf? ['-'] text with
    | none =>
        rw [lead, Option.getD_none] at textEq
        rw [textEq, Decimal.signAndRest_of_isDigit isDigit]
    | some after =>
        rw [lead, Option.getD_some] at textEq
        rw [← List.append_eq_of_isPrefixOf?_eq_some lead, textEq]
        rfl
  obtain ⟨magnitude, digits, rfl⟩ := Option.map_eq_some_iff.mp number
  replace digits : Decimal.readMagnitude (Decimal.signAndRest text).2 = some magnitude := digits
  rw [sign, Decimal.readMagnitude_of_isDigit isDigit] at digits
  exact ⟨_, magnitude, le_of_readDigits digits, rfl⟩

/-- The amount of an offset is a number. -/
theorem isNaN_of_offsetDelta {text : List Char} {delta : Float}
    (read : offsetDelta text = some delta) : delta.isNaN = false := by
  unfold offsetDelta at read
  split at read
  · obtain ⟨negative, magnitude, bound, rfl⟩ := exists_of_offsetNumber read
    exact isNaN_floatOfMagnitude bound negative
  · obtain ⟨amount, amountRead, rfl⟩ := Option.map_eq_some_iff.mp read
    obtain ⟨negative, magnitude, bound, rfl⟩ := exists_of_offsetNumber amountRead
    exact isNaN_neg_floatOfMagnitude bound negative
  · cases read

private theorem isNaN_of_readOffset {text : List Char} {expression : SetExpression}
    (read : readOffset text = some expression) :
    ∃ source delta, expression = .offset source delta ∧ delta.isNaN = false := by
  obtain ⟨⟨name, rest⟩, -, amount⟩ := List.exists_of_findSome?_eq_some read
  obtain ⟨delta, deltaRead, rfl⟩ := Option.map_eq_some_iff.mp amount
  exact ⟨_, delta, rfl, isNaN_of_offsetDelta deltaRead⟩

/-- Given a flag that it reads, a right-hand side that has been read tells the two infinities
apart. -/
theorem exists_resolve_ne {raw : List Char} {expression : SetExpression}
    (read : readSetExpression raw = some expression) {flag : String}
    (source : flag ∈ expression.sources) :
    ∃ amount : Bool → Float, amount false ≠ amount true ∧ ∀ (store : Store) (negative : Bool),
      store.get? flag = some (.number (infiniteNumber negative)) →
        expression.resolve store = .number (amount negative) := by
  cases expression with
  | literal value => cases source
  | copy copied =>
      obtain rfl : flag = copied := List.mem_singleton.mp source
      exact ⟨infiniteNumber, by decide +kernel, fun store negative value => by
        simp [SetExpression.resolve, value]⟩
  | offset shifted delta =>
      obtain rfl : flag = shifted := List.mem_singleton.mp source
      have defined : delta.isNaN = false := by
        unfold readSetExpression at read
        split at read
        · rcases Option.or_eq_some_iff.mp (Option.orElse_eq_or.symm.trans read) with offset | ⟨-, copy⟩
          · obtain ⟨_, _, equality, defined⟩ := isNaN_of_readOffset offset
            cases equality
            exact defined
          · cases copy
        · obtain ⟨value, -, equality⟩ := Option.map_eq_some_iff.mp read
          cases equality
      exact ⟨fun negative => infiniteNumber negative + delta, infiniteNumber_add_ne defined,
        fun store negative value => by simp [SetExpression.resolve, value, Value.toNumber]⟩

end Script

end BranchingDialogue

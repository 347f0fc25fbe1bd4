/-! A binary number of 64 bits is a sign and a magnitude. The magnitude is the number that the other
63 bits write, and magnitudes grow with what they stand for: those below `2 ^ 52` count units of `2
^ -1074`, each further `2 ^ 52` of them count units of twice the size, and the last one is infinity.
-/

namespace BranchingDialogue

/-- The whole number nearest to a quotient, and the even one of two that are equally near. -/
def roundedQuotient (numerator denominator : Nat) : Nat :=
  let below := numerator / denominator
  let past := 2 * (numerator % denominator)
  if past < denominator || (past = denominator && below % 2 = 0) then below else below + 1

/-- The smallest units of magnitudes have the size `2 ^ -unitPower`. -/
def unitPower : Nat :=
  1074

def infiniteMagnitude : Nat :=
  2047 * Nat.pow 2 52

/-- A magnitude beyond that of infinity, which stands for no number. -/
def undefinedMagnitude : Nat :=
  infiniteMagnitude + Nat.pow 2 51

/-- The magnitude nearest to a quotient. The quotient is rounded to units of the size that leaves
53 binary digits, or to the smallest units if it has fewer. A quotient that is rounded up to the
next size of units is found there too, because magnitudes go on without gaps. -/
def nearestMagnitude (numerator denominator : Nat) : Nat :=
  let units := numerator * Nat.pow 2 unitPower
  let shift := (units / denominator).log2 - 52
  let rounded := roundedQuotient units (denominator * Nat.pow 2 shift)
  min (shift * Nat.pow 2 52 + rounded) infiniteMagnitude

/-- The magnitude nearest to `significand * 10 ^ exponent`. Far outside the range of binary numbers
the answer is zero or infinity. -/
def decimalMagnitude (significand : Nat) (exponent : Int) : Nat :=
  let order := (Nat.toDigits 10 significand).length + exponent
  if significand = 0 || order < -400 then
    0
  else if order > 400 then
    infiniteMagnitude
  else
    match exponent with
    | .ofNat power => nearestMagnitude (significand * Nat.pow 10 power) 1
    | .negSucc power => nearestMagnitude significand (Nat.pow 10 (power + 1))

def floatOfMagnitude (negative : Bool) (magnitude : Nat) : Float :=
  Float.ofBits (UInt64.ofNat (if negative then Nat.pow 2 63 + magnitude else magnitude))

/-- The binary number nearest to a whole number. -/
def floatOfInt : Int → Float
  | .ofNat amount => floatOfMagnitude false (decimalMagnitude amount 0)
  | .negSucc amount => floatOfMagnitude true (decimalMagnitude (amount + 1) 0)

end BranchingDialogue

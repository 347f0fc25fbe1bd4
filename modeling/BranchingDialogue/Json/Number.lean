import BranchingDialogue.Decimal.Reading
import BranchingDialogue.Json.Basic

/-! The digits of a number are gathered into a whole number of 64 bits for as long as it has room.
Digits of the whole part for which there is no room count by their places, and such digits after the
point do not count. The whole number is then multiplied or divided by one power of ten, with one
rounding. -/

namespace BranchingDialogue.Json

/-- The digits that continue a whole number of 64 bits: the number they make, and how many there
is room for. -/
def gather (total : Nat) : List Char → Nat × Nat
  | [] => (total, 0)
  | digit :: rest =>
      let next := 10 * total + Decimal.digitValue digit
      if next < Nat.pow 2 64 then
        let (last, count) := gather next rest
        (last, count + 1)
      else
        (total, 0)

def powerOfTen (power : Nat) : Float :=
  floatOfMagnitude false (decimalMagnitude 1 power)

/-- A number divided by a power of ten, at most by `10 ^ 308` at a time. After `steps` such
divisions, the number must be zero. -/
def divideByPower (steps : Nat) (amount : Float) (power : Nat) : Float :=
  if power ≤ 308 then
    amount / powerOfTen power
  else
    match steps with
    | 0 => amount
    | steps + 1 => divideByPower steps (amount / powerOfTen 308) (power - 308)

def scale (significand : Nat) (exponent : Int) : Number :=
  let amount := floatOfInt significand
  match exponent with
  | .ofNat power =>
      if significand = 0 then
        .real amount
      else if power ≤ 308 then
        let product := amount * powerOfTen power
        if product.isInf then .tooLarge else .real product
      else
        .tooLarge
  | .negSucc power => .real (divideByPower 2 amount (power + 1))

def Number.negate : Number → Number
  | .whole amount => .whole (-amount)
  | .real amount => .real (-amount)
  | .tooLarge => .tooLarge

def wholeOrReal (negative : Bool) (significand skipped : Nat) : Number :=
  if skipped = 0 && !negative then
    .whole significand
  else if skipped = 0 && 0 < significand && significand ≤ Nat.pow 2 63 then
    .whole (-(significand : Int))
  else if negative then
    (scale significand skipped).negate
  else
    scale significand skipped

/-- The digits after a point, of which there is at least one if there is a point. -/
def placesAndRest : List Char → Option (List Char × List Char)
  | '.' :: text =>
      let (places, rest) := Decimal.leadingDigits text
      if places.isEmpty then none else some (places, rest)
  | text => some ([], text)

def exponentAndRest : List Char → Option (Option Int × List Char)
  | [] => some (none, [])
  | mark :: text =>
      if mark = 'e' || mark = 'E' then
        let (negative, signless) := Decimal.signAndRest text
        let (digits, rest) := Decimal.leadingDigits signless
        let power : Int := Decimal.wholeNumber digits
        if digits.isEmpty then none else some (some (if negative then -power else power), rest)
      else
        some (none, mark :: text)

/-- The magnitude at the start of a text, with what follows it. A zero is not followed by
digits. -/
def magnitudeAndRest (negative : Bool) (text : List Char) : Option (Number × List Char) := do
  let (digits, afterDigits) := Decimal.leadingDigits text
  if digits.isEmpty || (digits.head? = some '0' && digits.length > 1) then
    none
  let (places, afterPlaces) ← placesAndRest afterDigits
  let (power, rest) ← exponentAndRest afterPlaces
  let (whole, used) := gather 0 digits
  let skipped := digits.length - used
  if places.isEmpty && power.isNone then
    return (wholeOrReal negative whole skipped, rest)
  let (significand, usedPlaces) := gather whole places
  let number := scale significand (power.getD 0 + skipped - usedPlaces)
  return (if negative then number.negate else number, rest)

def numberAndRest : List Char → Option (Number × List Char)
  | '-' :: text => magnitudeAndRest true text
  | text => magnitudeAndRest false text

end BranchingDialogue.Json

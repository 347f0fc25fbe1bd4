import BranchingDialogue.Decimal.Nearest

/-! A number is written with an optional sign, decimal digits with an optional point among, before
or after them, and an optional power of ten; or it is one of the names of infinity and of the number
that is none, in any mix of capitals. The value is the nearest binary number. -/

namespace BranchingDialogue.Decimal

def digitValue (character : Char) : Nat :=
  character.toNat - '0'.toNat

def wholeNumber (digits : List Char) : Nat :=
  digits.foldl (fun total digit => 10 * total + digitValue digit) 0

def leadingDigits (text : List Char) : List Char × List Char :=
  (text.takeWhile Char.isDigit, text.dropWhile Char.isDigit)

/-- The optional sign that a text begins with: whether it is a minus, and the rest. -/
def signAndRest : List Char → Bool × List Char
  | '-' :: rest => (true, rest)
  | '+' :: rest => (false, rest)
  | text => (false, text)

/-- The value of the power of ten at the end of a number, which is zero when nothing is left. -/
def readExponent : List Char → Option Int
  | [] => some 0
  | mark :: text =>
      if mark = 'e' || mark = 'E' then
        let (negative, rest) := signAndRest text
        let (digits, after) := leadingDigits rest
        if digits.isEmpty || !after.isEmpty then
          none
        else
          some (if negative then -(wholeNumber digits : Int) else wholeNumber digits)
      else
        none

def readDigits (text : List Char) : Option Nat :=
  let (whole, afterWhole) := leadingDigits text
  let (places, rest) :=
    match afterWhole with
    | '.' :: afterPoint => leadingDigits afterPoint
    | other => ([], other)
  if whole.isEmpty && places.isEmpty then
    none
  else
    (readExponent rest).map fun power =>
      decimalMagnitude (wholeNumber (whole ++ places)) (power - places.length)

def readMagnitude (text : List Char) : Option Nat :=
  let name := String.ofList (text.map Char.toLower)
  if name = "inf" || name = "infinity" then
    some infiniteMagnitude
  else if name = "nan" then
    some undefinedMagnitude
  else
    readDigits text

def read (text : List Char) : Option Float :=
  let (negative, rest) := signAndRest text
  (readMagnitude rest).map (floatOfMagnitude negative)

end BranchingDialogue.Decimal

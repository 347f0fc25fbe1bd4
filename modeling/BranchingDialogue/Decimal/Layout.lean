import BranchingDialogue.Decimal.Shortest

/-! How the shortest decimal of a number is laid out as text. What a format decides is one record:
the choice at a tie, the powers of ten that are written positionally, and whether a whole number
shows its first decimal place. -/

namespace BranchingDialogue

structure NumberLayout where
  tie : Tie
  /-- Whether a number whose first digit has this power of ten is written without exponent. -/
  positional : Int → Bool
  /-- What follows the digits of a whole number in positional writing. -/
  wholeTail : List Char

namespace Decimal

def digits (number : Nat) : List Char :=
  Nat.toDigits 10 number

def positionalText (wholeTail : List Char) (decimal : Decimal) : List Char :=
  let shown := digits decimal.significand
  match decimal.exponent with
  | .ofNat zeros => shown ++ List.replicate zeros '0' ++ wholeTail
  | .negSucc places =>
      let count := places + 1
      let padded := List.replicate (count + 1 - shown.length) '0' ++ shown
      let whole := padded.length - count
      padded.take whole ++ '.' :: padded.drop whole

/-- A decimal with one digit before the point and a signed exponent. -/
def scientificText (decimal : Decimal) : List Char :=
  let mantissa :=
    match digits decimal.significand with
    | first :: second :: rest => first :: '.' :: second :: rest
    | short => short
  let power := decimal.order
  mantissa ++ 'e' :: (if power < 0 then '-' else '+') :: digits power.natAbs

end Decimal

def hasMinusSign (number : Float) : Bool :=
  number.toBits.toNat ≥ Nat.pow 2 63

namespace NumberLayout

def write (layout : NumberLayout) (number : Float) : List Char :=
  let decimal := Decimal.shortest layout.tie number
  let magnitude :=
    if layout.positional decimal.order then
      decimal.positionalText layout.wholeTail
    else
      decimal.scientificText
  if hasMinusSign number then '-' :: magnitude else magnitude

end NumberLayout

end BranchingDialogue

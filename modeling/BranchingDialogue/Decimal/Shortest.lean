/-! A decimal is a whole number times a power of ten. The shortest decimal of a finite binary number
is, of the decimals that round to it, the one with the fewest digits, and of those the nearest to
it.

The work is done in whole numbers. Every finite binary number is a multiple of `2 ^ -1074`, and
every decimal that can be its shortest is a multiple of `10 ^ -1076`, so that numbers, the ends of
their rounding intervals and the points of decimal grids are all counted in units of `10 ^ -1076`.
-/

namespace BranchingDialogue

/-- Decimals are counted in units of `10 ^ -gridPower`. -/
def gridPower : Nat :=
  1076

/-- The number `significand * 10 ^ exponent`. -/
structure Decimal where
  significand : Nat
  exponent : Int
  deriving DecidableEq, Repr

/-- Which neighbour is chosen for a number half way between two decimals. -/
inductive Tie
  | up
  | even
  deriving DecidableEq, Repr

/-- The parts of a finite binary number other than its sign: it is
`significand * 2 ^ (shift - 1074)`, and `narrowBelow` holds when the next number below it is
nearer than the next above. -/
structure BinaryParts where
  significand : Nat
  shift : Nat
  narrowBelow : Bool
  deriving DecidableEq, Repr

namespace BinaryParts

def ofBits (bits : Nat) : BinaryParts :=
  let fraction := bits % Nat.pow 2 52
  let biased := bits / Nat.pow 2 52 % Nat.pow 2 11
  if biased = 0 then
    ⟨fraction, 0, false⟩
  else
    ⟨Nat.pow 2 52 + fraction, biased - 1, fraction == 0 && biased != 1⟩

/-- The size in units of `10 ^ -1076` of one quarter of the gap to the next number above. -/
def quarterGap (parts : BinaryParts) : Nat :=
  Nat.pow 2 parts.shift * Nat.pow 5 gridPower

/-- The number in units of `10 ^ -1076`. -/
def scaled (parts : BinaryParts) : Nat :=
  4 * parts.significand * parts.quarterGap

/-- Whether a count of units of `10 ^ -1076` rounds to the number. The ends of the interval
belong to it when the significand is even. -/
def roundsHere (parts : BinaryParts) (point : Nat) : Bool :=
  let low := parts.scaled - (if parts.narrowBelow then 1 else 2) * parts.quarterGap
  let high := parts.scaled + 2 * parts.quarterGap
  if parts.significand % 2 = 0 then
    low ≤ point && point ≤ high
  else
    low < point && point < high

/-- The multiple of `step` that is chosen for the number if one of the two nearest multiples
rounds to it. -/
def onGrid (tie : Tie) (parts : BinaryParts) (step : Nat) : Option Nat :=
  let below := parts.scaled / step
  let lower := parts.roundsHere (below * step)
  let upper := parts.roundsHere ((below + 1) * step)
  if lower && upper then
    let past := 2 * (parts.scaled - below * step)
    if past < step || (past == step && tie == .even && below % 2 == 0) then
      some below
    else
      some (below + 1)
  else if lower then
    some below
  else if upper then
    some (below + 1)
  else
    none

end BinaryParts

/-- The number of decimal digits of a whole number, which is one for zero. -/
def digitCount (number : Nat) : Nat :=
  (Nat.toDigits 10 number).length

namespace Decimal

def normalized (fuel : Nat) (decimal : Decimal) : Decimal :=
  match fuel with
  | 0 => decimal
  | fuel + 1 =>
      if decimal.significand % 10 = 0 then
        normalized fuel ⟨decimal.significand / 10, decimal.exponent + 1⟩
      else
        decimal

/-- The shortest decimal of a number that is not zero: its grids of one to seventeen digits are
tried in turn. -/
def shortestOfParts (tie : Tie) (parts : BinaryParts) : Decimal :=
  let size := digitCount parts.scaled
  let found := (List.range 17).findSome? fun extra =>
    let power := size - 1 - extra
    (parts.onGrid tie (Nat.pow 10 power)).map fun significand =>
      Decimal.mk significand ((power : Int) - gridPower)
  match found with
  | some decimal => normalized 17 decimal
  | none => ⟨parts.scaled, -gridPower⟩

def shortest (tie : Tie) (number : Float) : Decimal :=
  let parts := BinaryParts.ofBits (number.toBits.toNat % Nat.pow 2 63)
  if parts.significand = 0 then ⟨0, 0⟩ else shortestOfParts tie parts

/-- The power of ten of the first digit of a decimal. -/
def order (decimal : Decimal) : Int :=
  decimal.exponent + digitCount decimal.significand - 1

end Decimal

end BranchingDialogue

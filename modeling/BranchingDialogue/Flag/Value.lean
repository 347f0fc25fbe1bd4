import BranchingDialogue.Decimal.Layout
import BranchingDialogue.Decimal.Reading
import BranchingDialogue.Text.Blank

/-! A flag holds a truth value, a number or a text. A value has a truth (whether it counts as set),
a view as a number for comparisons of size, and a text for display. The declared types of values and
the conversions to them stand here too. -/

namespace BranchingDialogue

inductive Value
  | bool (truth : Bool)
  | number (amount : Float)
  | text (content : String)
  deriving DecidableEq, Inhabited

/-- Numbers are laid out in full, without exponent and without a point when they are whole. -/
def displayLayout : NumberLayout :=
  ⟨.up, fun _ => true, []⟩

def numberText (number : Float) : List Char :=
  if number.isNaN then
    "NaN".toList
  else if number.isInf then
    if hasMinusSign number then "-inf".toList else "inf".toList
  else
    displayLayout.write number

def readNumber (text : String) : Option Float :=
  Decimal.read (Text.trim text.toList)

def truthNumber (truth : Bool) : Float :=
  if truth then 1.0 else 0.0

namespace Value

/-- Equality as the conditions see it: values of different types differ, and numbers are equal
when they are numerically equal, so that the two zeros agree and no NaN equals anything. -/
def agrees : Value → Value → Bool
  | .bool left, .bool right => left == right
  | .number left, .number right => left == right
  | .text left, .text right => left == right
  | _, _ => false

instance : BEq Value :=
  ⟨agrees⟩

/-- Whether a value counts as set: all values do but `false`, zero and the empty text. -/
def isTruthy : Value → Bool
  | .bool truth => truth
  | .number amount => amount != 0.0
  | .text content => !content.isEmpty

/-- The value as a number. A text that writes no number gives NaN. -/
def toNumber : Value → Float
  | .bool truth => truthNumber truth
  | .number amount => amount
  | .text content => (readNumber content).getD (0.0 / 0.0)

def text? : Value → Option String
  | .text content => some content
  | _ => none

def display : Value → String
  | .bool truth => if truth then "true" else "false"
  | .number amount => String.ofList (numberText amount)
  | .text content => content

end Value

inductive ValueType
  | boolean
  | number
  | string
  deriving DecidableEq, Inhabited

namespace ValueType

def admits : ValueType → Value → Bool
  | .boolean, .bool _ => true
  | .number, .number _ => true
  | .string, .text _ => true
  | _, _ => false

/-- The value converted to a type, where it has one clear counterpart there. -/
def convert : ValueType → Value → Option Value
  | .boolean, .bool truth => some (.bool truth)
  | .boolean, .number amount =>
      if amount == 0.0 || amount == 1.0 then some (.bool (amount == 1.0)) else none
  | .boolean, .text content =>
      let word := String.ofList (Text.trim content.toList)
      if word = "true" then
        some (.bool true)
      else if word = "false" then
        some (.bool false)
      else
        none
  | .number, .bool truth => some (.number (truthNumber truth))
  | .number, .number amount => some (.number amount)
  | .number, .text content => (readNumber content).map .number
  | .string, value => some (.text value.display)

end ValueType

end BranchingDialogue

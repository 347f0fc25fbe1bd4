import BranchingDialogue.Decimal.Nearest

/-! The data of a JSON document. Numbers that are written as whole numbers of 64 bits stay whole,
and all others are binary numbers. A number that is too large and a text with half of a surrogate
pair are kept as such, because they matter only where they are used. -/

namespace BranchingDialogue

namespace Json

inductive Number
  | whole (amount : Int)
  | real (amount : Float)
  | tooLarge
  deriving DecidableEq, Inhabited

def Number.toFloat? : Number → Option Float
  | .whole amount => some (floatOfInt amount)
  | .real amount => some amount
  | .tooLarge => none

/-- A text of a document, unless it holds half of a surrogate pair. -/
abbrev Text :=
  Option String

def isSpace (character : Char) : Bool :=
  character = ' ' || character = '\n' || character = '\t' || character = '\r'

end Json

/-- A JSON document. The members of an object are in order of writing. -/
inductive Json
  | null
  | bool (truth : Bool)
  | number (number : Json.Number)
  | string (content : Json.Text)
  | list (items : List Json)
  | object (members : List (Json.Text × Json))
  deriving Inhabited

namespace Json

def ofString (text : String) : Json :=
  .string (some text)

def member (key : String) (value : Json) : Json.Text × Json :=
  (some key, value)

mutual

def depth : Json → Nat
  | .list items => depthOfItems items + 1
  | .object members => depthOfMembers members + 1
  | _ => 0

def depthOfItems : List Json → Nat
  | [] => 0
  | item :: rest => max (depth item) (depthOfItems rest)

def depthOfMembers : List (Json.Text × Json) → Nat
  | [] => 0
  | (_, value) :: rest => max (depth value) (depthOfMembers rest)

end

mutual

def isUsable : Json → Bool
  | .number amount => amount.toFloat?.isSome
  | .string content => content.isSome
  | .list items => areUsable items
  | .object members => areUsableMembers members
  | _ => true

def areUsable : List Json → Bool
  | [] => true
  | item :: rest => isUsable item && areUsable rest

def areUsableMembers : List (Json.Text × Json) → Bool
  | [] => true
  | (key, value) :: rest => key.isSome && isUsable value && areUsableMembers rest

end

end Json

end BranchingDialogue

import BranchingDialogue.Flag.Value

/-! A condition tests one flag with one of eight operators. Six of the operators compare the flag
with a value. -/

namespace BranchingDialogue

inductive Operator
  | isSet
  | isNotSet
  | equals
  | notEquals
  | greaterThan
  | lessThan
  | greaterEqual
  | lessEqual
  deriving DecidableEq, Inhabited

namespace Operator

def comparesValue : Operator → Bool
  | .isSet | .isNotSet => false
  | _ => true

def symbol? : Operator → Option String
  | .isSet | .isNotSet => none
  | .equals => some "=="
  | .notEquals => some "!="
  | .greaterThan => some ">"
  | .lessThan => some "<"
  | .greaterEqual => some ">="
  | .lessEqual => some "<="

/-- The comparison that a sign or a word stands for in scripts. -/
def ofSymbol? (symbol : String) : Option Operator :=
  match symbol with
  | "==" | "is" | "eq" => some .equals
  | "!=" | "neq" => some .notEquals
  | ">" | "gt" => some .greaterThan
  | "<" | "lt" => some .lessThan
  | ">=" | "gte" => some .greaterEqual
  | "<=" | "lte" => some .lessEqual
  | _ => none

end Operator

structure Condition where
  flag : String
  operator : Operator
  value : Option Value
  deriving DecidableEq, BEq, Inhabited

namespace Condition

def isSet (flag : String) : Condition :=
  ⟨flag, .isSet, none⟩

def isNotSet (flag : String) : Condition :=
  ⟨flag, .isNotSet, none⟩

def compare (flag : String) (operator : Operator) (value : Value) : Condition :=
  ⟨flag, operator, some value⟩

end Condition

end BranchingDialogue

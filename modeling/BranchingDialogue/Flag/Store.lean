import BranchingDialogue.Flag.Condition
import BranchingDialogue.Flag.Schema

/-! A store holds the values of flags and the set of memory flags, which are raised without a value.
It remembers the values that it was created with. Conditions are evaluated here. -/

namespace BranchingDialogue

structure Store where
  values : SortedMap Value
  memory : NameSet
  initial : SortedMap Value
  deriving DecidableEq, Inhabited

namespace Store

/-- The store that starts from the defaults of a schema and from a game state, which wins. -/
def ofSchema (schema : FlagSchema) (state : GameState) : Store :=
  let values := schema.defaults.insertAll state.entries
  ⟨values, .empty, values⟩

def get? (store : Store) (flag : String) : Option Value :=
  store.values.get? flag

def set (store : Store) (flag : String) (value : Value) : Store :=
  { store with values := store.values.insert flag value }

def remove (store : Store) (flag : String) : Store :=
  { store with values := store.values.erase flag }

def remembers (store : Store) (flag : String) : Bool :=
  store.memory.contains flag

def remember (store : Store) (flag : String) : Store :=
  { store with memory := store.memory.insert flag () }

def forget (store : Store) (flag : String) : Store :=
  { store with memory := store.memory.erase flag }

def clearMemory (store : Store) : Store :=
  { store with memory := .empty }

def replaceValues (store : Store) (values : SortedMap Value) : Store :=
  { store with values }

def reset (store : Store) : Store :=
  ⟨store.initial, .empty, store.initial⟩

/-- A flag is set when it is in the memory set or has a value that counts as set. -/
def isSet (store : Store) (flag : String) : Bool :=
  store.remembers flag || (store.get? flag).any Value.isTruthy

/-- The values of declared persistent flags, which go back to the game. -/
def gameState (store : Store) (schema : FlagSchema) : GameState :=
  store.values.filter fun id _ => schema.contains id && !schema.isMemoryFlag id

end Store

namespace Condition

/-- The comparison of sizes. A flag without value counts as zero, and a condition without value
never holds. -/
def comparesSize (test : Float → Float → Bool) (current expected : Option Value) : Bool :=
  test (current.elim 0.0 Value.toNumber) (expected.elim (0.0 / 0.0) Value.toNumber)

/-- Whether a condition holds in a store. Equality is that of values, and a flag without value is
equal to a missing value only. -/
def holds (condition : Condition) (store : Store) : Bool :=
  let current := store.get? condition.flag
  match condition.operator with
  | .isSet => store.isSet condition.flag
  | .isNotSet => !store.isSet condition.flag
  | .equals => current == condition.value
  | .notEquals => current != condition.value
  | .greaterThan => comparesSize (fun left right => left > right) current condition.value
  | .lessThan => comparesSize (fun left right => left < right) current condition.value
  | .greaterEqual => comparesSize (fun left right => left ≥ right) current condition.value
  | .lessEqual => comparesSize (fun left right => left ≤ right) current condition.value

/-- Whether all conditions hold. Of no condition this is true. -/
def allHold (conditions : List Condition) (store : Store) : Bool :=
  conditions.all fun condition => condition.holds store

end Condition

end BranchingDialogue

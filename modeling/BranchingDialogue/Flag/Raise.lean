import BranchingDialogue.Flag.Store

/-! Nodes and choices raise flags. A raised memory flag enters the memory set of the store. A raised
persistent flag gets a value of its declared type. The warnings of raising and of setting flags are
here with their wording. -/

namespace BranchingDialogue

/-- What an author is told about a flag that was changed. -/
inductive FlagWarning
  /-- The flag is not declared and was set to true. -/
  | unknownFlag (flag : String)
  /-- The value was converted to the declared type. -/
  | typeCoerced (flag : String) (source target : Value)
  /-- The value could not be converted and the flag was set to true. -/
  | commandFallback (flag : String) (value : Value)
  deriving DecidableEq

def FlagWarning.message : FlagWarning → String
  | .unknownFlag flag => s!"flag '{flag}' is not declared in the schema; set to true"
  | .typeCoerced flag source target =>
      let first := source.display
      let second := target.display
      s!"value {first} for flag '{flag}' was coerced to {second}"
  | .commandFallback flag value =>
      let shown := value.display
      s!"value {shown} cannot be stored in flag '{flag}'; set to true instead"

/-- The value that a declared flag gets when it is raised: true without a type or as a truth
value, one more than the current number, and for texts the default, else the current text, else
the name of the flag. -/
def FlagDefinition.raisedValue (definition : FlagDefinition) (current : Option Value) : Value :=
  match definition.valueType with
  | none | some .boolean => .bool true
  | some .number =>
      match current with
      | some (.number amount) => .number (amount + 1.0)
      | _ => .number (definition.typedDefault.elim 0.0 Value.toNumber + 1.0)
  | some .string =>
      match definition.typedDefault, current with
      | some value, _ => value
      | none, some (.text content) => .text content
      | none, _ => .text definition.name

namespace GameState

/-- The state after one flag is raised, and the warning if the flag is not declared. -/
def raiseOne (schema : FlagSchema) (state : GameState) (flag : String) :
    GameState × List FlagWarning :=
  match schema.get? flag with
  | none => (state.insert flag (.bool true), [.unknownFlag flag])
  | some definition => (state.insert flag (definition.raisedValue (state.get? flag)), [])

def raise (schema : FlagSchema) (state : GameState) : List String → GameState × List FlagWarning
  | [] => (state, [])
  | flag :: rest =>
      let (next, warnings) := raiseOne schema state flag
      let (last, others) := raise schema next rest
      (last, warnings ++ others)

end GameState

namespace Store

/-- The store after flags are raised: memory flags are remembered, and the others are raised in
the values. -/
def raise (store : Store) (schema : FlagSchema) (flags : List String) :
    Store × List FlagWarning :=
  let remembered := (flags.filter schema.isMemoryFlag).foldl remember store
  let persistent := flags.filter fun flag => !schema.isMemoryFlag flag
  let (values, warnings) := GameState.raise schema remembered.values persistent
  (remembered.replaceValues values, warnings)

end Store

end BranchingDialogue

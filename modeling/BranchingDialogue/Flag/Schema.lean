import BranchingDialogue.Flag.Value
import BranchingDialogue.Keyed.Ordered
import BranchingDialogue.Keyed.Sorted

/-! A schema declares the flags of a project. A declared flag is transient, so that it belongs to
one playthrough, or persistent, so that its value belongs to the game. A persistent flag can have a
declared type of values and a default. -/

namespace BranchingDialogue

inductive FlagType
  | dialogue
  | quest
  | achievement
  | item
  | stat
  | title
  | global
  deriving DecidableEq, Inhabited

/-- Dialogue flags are transient and all others are persistent. -/
def FlagType.isTransient : FlagType → Bool
  | .dialogue => true
  | _ => false

structure FlagDefinition where
  id : String
  name : String
  flagType : FlagType
  valueType : Option ValueType := none
  defaultValue : Option Value := none
  category : Option String := none
  deriving DecidableEq, Inhabited

namespace FlagDefinition

def isTransient (definition : FlagDefinition) : Bool :=
  definition.flagType.isTransient

/-- The default, converted to the declared type of values if there is one. -/
def typedDefault (definition : FlagDefinition) : Option Value :=
  match definition.defaultValue, definition.valueType with
  | some value, some valueType => valueType.convert value
  | value, _ => value

end FlagDefinition

/-- The values of persistent flags, which the game keeps between playthroughs. -/
abbrev GameState :=
  SortedMap Value

structure FlagSchema where
  flags : OrderedMap FlagDefinition
  deriving DecidableEq, Inhabited

inductive SchemaError
  | duplicateFlag (id : String)
  deriving DecidableEq

def SchemaError.message : SchemaError → String
  | .duplicateFlag id => s!"duplicate flag id '{id}'"

namespace FlagSchema

def empty : FlagSchema :=
  ⟨.empty⟩

def get? (schema : FlagSchema) (id : String) : Option FlagDefinition :=
  schema.flags.get? id

def contains (schema : FlagSchema) (id : String) : Bool :=
  schema.flags.contains id

def definitions (schema : FlagSchema) : List FlagDefinition :=
  schema.flags.values

def size (schema : FlagSchema) : Nat :=
  schema.flags.size

def isEmpty (schema : FlagSchema) : Bool :=
  schema.flags.isEmpty

/-- The schema with a declaration added, or put in the place of the one with its id. -/
def insert (schema : FlagSchema) (definition : FlagDefinition) : FlagSchema :=
  ⟨schema.flags.insert definition.id definition⟩

def merge (schema other : FlagSchema) : FlagSchema :=
  ⟨schema.flags.insertAll other.flags.entries⟩

/-- The schema of a list of declarations, in which no id may occur twice. -/
def ofDefinitions (definitions : List FlagDefinition) : Except SchemaError FlagSchema :=
  definitions.foldlM
    (fun schema definition =>
      if schema.contains definition.id then
        .error (.duplicateFlag definition.id)
      else
        .ok (schema.insert definition))
    empty

/-- Whether a flag lives only in the current playthrough. Flags that are not declared do. -/
def isMemoryFlag (schema : FlagSchema) (id : String) : Bool :=
  match schema.get? id with
  | some definition => definition.isTransient
  | none => true

def defaults (schema : FlagSchema) : GameState :=
  .ofList <| schema.definitions.filterMap fun definition =>
    if definition.isTransient then
      none
    else
      definition.typedDefault.map fun value => (definition.id, value)

end FlagSchema

end BranchingDialogue

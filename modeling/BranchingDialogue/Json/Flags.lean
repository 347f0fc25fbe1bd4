import BranchingDialogue.Flag.Condition
import BranchingDialogue.Flag.Schema
import BranchingDialogue.Json.Reader
import BranchingDialogue.Json.Record
import BranchingDialogue.Json.Writer

/-! Values are written as bare constants, numbers and texts, conditions and declarations as records,
schemas as lists of declarations, and game states as objects. -/

namespace BranchingDialogue

open Json

namespace Value

def ofJson? : Json → Option Value
  | .bool truth => some (.bool truth)
  | .number amount => amount.toFloat?.map .number
  | .string content => content.map .text
  | _ => none

def toJson : Value → Json
  | .bool truth => .bool truth
  | .number amount => .number (.real amount)
  | .text content => ofString content

end Value

namespace Operator

def all : List Operator :=
  [isSet, isNotSet, equals, notEquals, greaterThan, lessThan, greaterEqual, lessEqual]

def jsonName : Operator → String
  | .isSet => "is_set"
  | .isNotSet => "is_not_set"
  | .equals => "equals"
  | .notEquals => "not_equals"
  | .greaterThan => "greater_than"
  | .lessThan => "less_than"
  | .greaterEqual => "greater_equal"
  | .lessEqual => "less_equal"

def ofJson? (form : NameForm) (document : Json) : Option Operator :=
  (asName form document).bind fun name => all.find? fun operator => operator.jsonName = name

end Operator

namespace Condition

def ofJson? (form : NameForm) (document : Json) : Option Condition := do
  let fields ← document.fields ["flag", "operator", "value"]
  let flag ← fields.required "flag" asString
  let operator ← fields.required "operator" (Operator.ofJson? form)
  let value ← fields.optional "value" Value.ofJson?
  return { flag, operator, value }

def toJson (condition : Condition) : Json :=
  .object <|
    [member "flag" (ofString condition.flag),
      member "operator" (ofString condition.operator.jsonName)] ++
    optionalMember "value" (condition.value.map Value.toJson)

end Condition

namespace FlagType

def all : List FlagType :=
  [dialogue, quest, achievement, item, stat, title, global]

def name : FlagType → String
  | .dialogue => "dialogue"
  | .quest => "quest"
  | .achievement => "achievement"
  | .item => "item"
  | .stat => "stat"
  | .title => "title"
  | .global => "global"

def ofName? (name : String) : Option FlagType :=
  all.find? fun flagType => flagType.name = name

end FlagType

namespace ValueType

def all : List ValueType :=
  [boolean, number, string]

def name : ValueType → String
  | .boolean => "boolean"
  | .number => "number"
  | .string => "string"

def ofName? (name : String) : Option ValueType :=
  all.find? fun valueType => valueType.name = name

end ValueType

namespace FlagDefinition

def fieldNames : List String :=
  ["id", "name", "type", "valueType", "defaultValue", "category"]

def ofJson? (document : Json) : Option FlagDefinition := do
  let fields ← document.fields fieldNames
  let id ← fields.required "id" asString
  let name ← fields.required "name" asString
  let flagType ← fields.required "type" fun value =>
    (asName .direct value).bind FlagType.ofName?
  let valueType ← fields.optional "valueType" fun value =>
    (asName .direct value).bind ValueType.ofName?
  let defaultValue ← fields.optional "defaultValue" Value.ofJson?
  let category ← fields.optional "category" asString
  return { id, name, flagType, valueType, defaultValue, category }

def toJson (definition : FlagDefinition) : Json :=
  .object <|
    [member "id" (ofString definition.id),
      member "name" (ofString definition.name),
      member "type" (ofString definition.flagType.name)] ++
    optionalMember "valueType" (definition.valueType.map fun valueType => ofString valueType.name) ++
    optionalMember "defaultValue" (definition.defaultValue.map Value.toJson) ++
    optionalMember "category" (definition.category.map ofString)

end FlagDefinition

/-- What is wrong with the text of a schema: it is malformed, or its declarations are wrong. -/
inductive SchemaTextError
  | malformed
  | invalid (error : SchemaError)
  deriving DecidableEq

namespace FlagSchema

def ofJson (text : String) : Except SchemaTextError FlagSchema :=
  match (Json.read text).bind (asList FlagDefinition.ofJson?) with
  | none => .error .malformed
  | some definitions => (ofDefinitions definitions).mapError .invalid

def toJson (schema : FlagSchema) : Json :=
  .list (schema.definitions.map FlagDefinition.toJson)

end FlagSchema

namespace GameState

/-- The game state that a document is. Of members with one key the last counts. -/
def ofJson? : Json → Option GameState
  | .object members => do
      let named ← namedMembers members
      let entries ← named.mapM fun (id, value) =>
        (Value.ofJson? value).map fun value => (id, value)
      return .ofList entries
  | _ => none

def read? (text : String) : Option GameState :=
  (Json.read text).bind ofJson?

def textOf (entries : List (String × Value)) : String :=
  (Json.object (entries.map fun (id, value) => member id value.toJson)).compact

end GameState

end BranchingDialogue

import BranchingDialogue.Json.Flags
import BranchingDialogue.Ron.Reader

/-! A schema is written as a list of records, which can bear the name of declarations. Each known
field is read as what it must be, and of any other only the form counts. A field that can be absent
says whether it is present, unless the document asks for the extension by which a value alone is
present. -/

namespace BranchingDialogue

namespace Ron

def asString : Ron → Option String
  | .string content => some content
  | _ => none

def asIdentifier : Ron → Option String
  | .identifier word => some word
  | _ => none

def required {α : Type} (fields : List (String × Ron)) (name : String) (decode : Ron → Option α) :
    Option α :=
  (fields.lookup name).bind decode

def optional {α : Type} (fields : List (String × Ron)) (name : String) (decode : Ron → Option α) :
    Option (Option α) :=
  match fields.lookup name with
  | none | some .absent => some none
  | some (.present value) => (decode value).map some
  | some _ => none

/-- What follows the name of a record in a text that can begin with it. -/
def afterRecordName (name : String) (text : List Char) : Option (List Char) :=
  if text.head?.any isNameCharacter then
    (nameAndRest text).bind fun (word, rest) => if word = name then skipBlank rest else none
  else
    some text

end Ron

def Value.ofRon? : Ron → Option Value
  | .bool truth => some (.bool truth)
  | .number amount => some (.number amount)
  | .string content => some (.text content)
  | _ => none

namespace FlagDefinition

def recordName : String :=
  "FlagDefinition"

/-- The levels below the field of a declaration: the list, its item, the record and the field take
up the others. -/
def fieldRoom : Nat :=
  Ron.nestingLimit - 4

def fieldAndRest (implicit : Bool) : String → Ron.Reader Ron
  | "id" | "name" => Ron.textAndRest
  | "type" => Ron.identifierAndRest
  | "valueType" => Ron.optionalAndRest implicit Ron.identifierAndRest
  | "defaultValue" =>
      Ron.optionalAndRest implicit (Ron.valueAndRest implicit (fieldRoom - 1))
  | "category" => Ron.optionalAndRest implicit Ron.textAndRest
  | _ => Ron.valueAndRest implicit fieldRoom

def ofRonFields? (fields : List (String × Ron)) : Option FlagDefinition := do
  let known := fields.filter fun field => fieldNames.contains field.1
  if !decide (known.map Prod.fst).Nodup then
    none
  let id ← Ron.required known "id" Ron.asString
  let name ← Ron.required known "name" Ron.asString
  let flagType ← Ron.required known "type" fun value =>
    (Ron.asIdentifier value).bind FlagType.ofName?
  let valueType ← Ron.optional known "valueType" fun value =>
    (Ron.asIdentifier value).bind ValueType.ofName?
  let defaultValue ← Ron.optional known "defaultValue" Value.ofRon?
  let category ← Ron.optional known "category" Ron.asString
  return { id, name, flagType, valueType, defaultValue, category }

def ronAndRest (implicit : Bool) : Ron.Reader FlagDefinition :=
  fun text => do
    let inside ← List.isPrefixOf? ['('] (← Ron.afterRecordName recordName text)
    let (fields, rest) ←
      Ron.itemsAndRest (Ron.pairAndRest Ron.nameAndRest (fieldAndRest implicit)) ')' inside
    return (← ofRonFields? fields, rest)

end FlagDefinition

def FlagSchema.definitionsAndRest (implicit : Bool) : Ron.Reader (List FlagDefinition) :=
  fun text =>
    (List.isPrefixOf? ['['] text).bind (Ron.itemsAndRest (FlagDefinition.ronAndRest implicit) ']')

def FlagSchema.ofRon (text : String) : Except SchemaTextError FlagSchema :=
  match Ron.readWith definitionsAndRest text with
  | none => .error .malformed
  | some definitions => (ofDefinitions definitions).mapError .invalid

end BranchingDialogue

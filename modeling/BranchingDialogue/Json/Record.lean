import BranchingDialogue.Json.Basic

/-! A record is written as an object, or as the list of its fields in a fixed order, of which the
last ones can be left out. In an object the order is free, members with other keys are passed over,
and no field occurs twice. -/

namespace BranchingDialogue.Json

/-- The fields of a record that are present, by their names. -/
abbrev Fields :=
  List (String × Json)

def namedMembers (members : List (Text × Json)) : Option Fields :=
  members.mapM fun (key, value) => key.map fun name => (name, value)

/-- The fields with known names, if none occurs twice. -/
def knownFields (names : List String) (fields : Fields) : Option Fields :=
  let known := fields.filter fun field => names.contains field.1
  if (known.map Prod.fst).Nodup then some known else none

def fields (names : List String) : Json → Option Fields
  | .object members => (namedMembers members).bind (knownFields names)
  | .list items => if items.length ≤ names.length then some (names.zip items) else none
  | _ => none

namespace Fields

def required {α : Type} (fields : Fields) (name : String) (decode : Json → Option α) : Option α :=
  (fields.lookup name).bind decode

/-- A field that is replaced by a default when it is not present. -/
def withDefault {α : Type} (fields : Fields) (name : String) (default : α)
    (decode : Json → Option α) : Option α :=
  match fields.lookup name with
  | some value => decode value
  | none => some default

def optional {α : Type} (fields : Fields) (name : String) (decode : Json → Option α) :
    Option (Option α) :=
  fields.withDefault name none fun value =>
    match value with
    | .null => some none
    | present => (decode present).map some

end Fields

def asString : Json → Option String
  | .string content => content
  | _ => none

def asList {α : Type} (decode : Json → Option α) : Json → Option (List α)
  | .list items => items.mapM decode
  | _ => none

/-- The way a name of a fixed set is written. It can be a text, or an object in which it is the
only key and has the value `null`. -/
inductive NameForm
  | direct
  /-- The object can hold an empty object in the place of `null`. -/
  | relaxed
  deriving DecidableEq

def asName (form : NameForm) : Json → Option String
  | .string content => content
  | .object [(key, .null)] => key
  | .object [(key, .object [])] => if form = .relaxed then key else none
  | _ => none

/-! ## Writing -/

def optionalMember (key : String) (value : Option Json) : List (Text × Json) :=
  (value.map (member key)).toList

def ofStrings (items : List String) : Json :=
  .list (items.map ofString)

end BranchingDialogue.Json

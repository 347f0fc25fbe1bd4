import BranchingDialogue.Graph.Tree
import BranchingDialogue.Json.Flags

/-! Trees, nodes, choices and blocks are written as records, and the nodes of a tree as an object.
The fields of a node other than its id and its speaker depend on its type. They are held back until
the type is known, so that they must be usable as a whole and cannot be nested without bound. -/

namespace BranchingDialogue

open Json

def nestingLimit : Nat :=
  127

namespace Block

def kindOfName? : String → Option BlockKind
  | "if" => some .«if»
  | "elseif" => some .elseIf
  | "else" => some .«else»
  | _ => none

def kindName : BlockKind → String
  | .«if» => "if"
  | .elseIf => "elseif"
  | .«else» => "else"

def ofJson? (document : Json) : Option Block := do
  let fields ← document.fields ["type", "condition", "content", "speaker", "nextNodeId"]
  let kind ← fields.required "type" fun value => (asName .relaxed value).bind kindOfName?
  let conditions ← fields.withDefault "condition" [] (asList (Condition.ofJson? .relaxed))
  let content ← fields.required "content" asString
  let speaker ← fields.optional "speaker" asString
  let next ← fields.optional "nextNodeId" asString
  return { kind, conditions, content, speaker, next }

def toJson (block : Block) : Json :=
  let conditions :=
    if block.conditions.isEmpty then none else some (.list (block.conditions.map Condition.toJson))
  .object <|
    [member "type" (ofString (kindName block.kind))] ++
    optionalMember "condition" conditions ++
    [member "content" (ofString block.content)] ++
    optionalMember "speaker" (block.speaker.map ofString) ++
    optionalMember "nextNodeId" (block.next.map ofString)

end Block

namespace Choice

def ofJson? (form : NameForm) (document : Json) : Option Choice := do
  let fields ← document.fields ["id", "text", "nextNodeId", "conditions", "setFlags"]
  let id ← fields.required "id" asString
  let text ← fields.required "text" asString
  let next ← fields.optional "nextNodeId" asString
  let conditions ← fields.optional "conditions" (asList (Condition.ofJson? form))
  let raises ← fields.optional "setFlags" (asList asString)
  return { id, text, next, conditions, raises }

def read? (text : String) : Option Choice :=
  (Json.read text).bind (ofJson? .direct)

def toJson (choice : Choice) : Json :=
  .object <|
    [member "id" (ofString choice.id), member "text" (ofString choice.text)] ++
    optionalMember "nextNodeId" (choice.next.map ofString) ++
    optionalMember "conditions"
      (choice.conditions.map fun conditions => .list (conditions.map Condition.toJson)) ++
    optionalMember "setFlags" (choice.raises.map ofStrings)

end Choice

namespace NodeKind

/-- The type of a node, by its name or by its place among the types. -/
def typeOfJson? : Json → Option String
  | .string content => content
  | .number (.whole 0) => some "npc"
  | .number (.whole 1) => some "player"
  | .number (.whole 2) => some "conditional"
  | _ => none

def ofMembers? (held : Fields) : Option NodeKind := do
  let typed ← knownFields ["type"] held
  match ← typed.required "type" typeOfJson? with
  | "npc" =>
      let fields ← knownFields ["content", "nextNodeId", "setFlags", "conditionalBlocks"] held
      let content ← fields.withDefault "content" "" asString
      let next ← fields.optional "nextNodeId" asString
      let raises ← fields.optional "setFlags" (asList asString)
      let blocks ← fields.optional "conditionalBlocks" (asList Block.ofJson?)
      return .npc { content, next, raises, blocks }
  | "player" =>
      let fields ← knownFields ["choices"] held
      return .player (← fields.withDefault "choices" [] (asList (Choice.ofJson? .relaxed)))
  | "conditional" =>
      let fields ← knownFields ["conditionalBlocks"] held
      return .conditional (← fields.withDefault "conditionalBlocks" [] (asList Block.ofJson?))
  | _ => none

def toMembers : NodeKind → List (Json.Text × Json)
  | .npc speech =>
      [member "type" (ofString "npc"), member "content" (ofString speech.content)] ++
      optionalMember "nextNodeId" (speech.next.map ofString) ++
      optionalMember "setFlags" (speech.raises.map ofStrings) ++
      optionalMember "conditionalBlocks"
        (speech.blocks.map fun blocks => .list (blocks.map Block.toJson))
  | .player choices =>
      [member "type" (ofString "player"), member "choices" (.list (choices.map Choice.toJson))]
  | .conditional blocks =>
      [member "type" (ofString "conditional"),
        member "conditionalBlocks" (.list (blocks.map Block.toJson))]

end NodeKind

namespace Node

/-- The node that a document is, in which lists and objects are nested at most `room` deep. -/
def ofJson? (room : Nat) : Json → Option Node
  | .object members => do
      let named ← namedMembers members
      let own ← knownFields ["id", "speaker"] named
      let held := named.filter fun field => field.1 ≠ "id" && field.1 ≠ "speaker"
      let id ← own.required "id" asString
      let speaker ← own.optional "speaker" asString
      if held.all fun field => field.2.isUsable && field.2.depth < room then
        return { id, speaker, kind := ← NodeKind.ofMembers? held }
      else
        none
  | _ => none

def read? (text : String) : Option Node :=
  (Json.read text).bind (ofJson? nestingLimit)

def toJson (node : Node) : Json :=
  .object <|
    [member "id" (ofString node.id)] ++
    optionalMember "speaker" (node.speaker.map ofString) ++
    node.kind.toMembers

end Node

namespace DialogueTree

/-- The nodes that a document is. Of members with one key the first gives the place and the last
gives the node. -/
def nodesOfJson? : Json → Option (OrderedMap Node)
  | .object members => do
      let named ← namedMembers members
      let entries ← named.mapM fun (key, value) =>
        (Node.ofJson? (nestingLimit - 2) value).map fun node => (key, node)
      return .ofList entries
  | _ => none

def ofJson? (document : Json) : Option DialogueTree := do
  let fields ← document.fields ["id", "title", "startNodeId", "nodes"]
  let id ← fields.required "id" asString
  let title ← fields.required "title" asString
  let start ← fields.required "startNodeId" asString
  let nodes ← fields.withDefault "nodes" .empty nodesOfJson?
  return { id, title, start, nodes }

def read? (text : String) : Option DialogueTree :=
  (Json.read text).bind ofJson?

def toJson (tree : DialogueTree) : Json :=
  .object
    [member "id" (ofString tree.id),
      member "title" (ofString tree.title),
      member "startNodeId" (ofString tree.start),
      member "nodes" (.object (tree.nodes.entries.map fun (key, node) => member key node.toJson))]

def toText (tree : DialogueTree) : String :=
  tree.toJson.pretty

end DialogueTree

end BranchingDialogue

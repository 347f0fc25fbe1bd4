import BranchingDialogue.Graph.Edit
import BranchingDialogue.Graph.Lint
import BranchingDialogue.Json.Dialogue
import BranchingDialogue.Play.Session
import BranchingDialogue.Script.Reader
import BranchingDialogue.Script.Writer

/-! An editor holds trees, schemas and game states as JSON texts. The operations here take and give
such texts. -/

namespace BranchingDialogue.Editor

inductive EditorError
  | invalidTree
  | invalidSchema
  | invalidState
  | invalidChoice
  | unknownType (name : String)
  | script (error : Script.ScriptError)
  | edit (error : EditError)
  | play (error : PlayError)
  deriving DecidableEq

/-! ## Texts -/

def isBlank (text : String) : Bool :=
  Text.isBlankText text.toList

def readTree (text : String) : Except EditorError DialogueTree :=
  match DialogueTree.read? text with
  | some tree => .ok tree
  | none => .error .invalidTree

/-- The schema that a text writes. A blank text writes the empty one. -/
def readSchema (text : String) : Except EditorError FlagSchema :=
  if isBlank text then
    .ok .empty
  else
    (FlagSchema.ofJson text).mapError fun _ => .invalidSchema

/-- The game state that a text writes. A blank text writes the empty one. -/
def readState (text : String) : Except EditorError GameState :=
  if isBlank text then
    .ok .empty
  else
    match GameState.read? text with
    | some state => .ok state
    | none => .error .invalidState

/-! ## Trees -/

def parseScript (mode : Script.Mode) (script : String) : Except EditorError String :=
  ((Script.read mode script.toList).mapError .script).map DialogueTree.toText

def serializeTree (text : String) : Except EditorError String :=
  (readTree text).map fun tree => String.ofList (Script.write tree)

def perform (text : String) (edit : Edit) : Except EditorError String := do
  let tree ← readTree text
  match tree.perform edit with
  | (.error error, _) => .error (.edit error)
  | (.ok _, edited) => return edited.toText

def createNode (text typeName : String) : Except EditorError String := do
  let tree ← readTree text
  match NodeType.ofName? typeName with
  | none => .error (.unknownType typeName)
  | some nodeType => return (tree.createNode nodeType).2.toText

def updateChoice (text node : String) (index : Nat) (choiceText : String) :
    Except EditorError String :=
  match Choice.read? choiceText with
  | none => .error .invalidChoice
  | some choice => perform text (.updateChoice node index choice)

def issueToJson (issue : Issue) : Json :=
  .object
    [Json.member "severity" (Json.ofString (if issue.isError then "error" else "warning")),
      Json.member "node" (issue.node.elim .null Json.ofString),
      Json.member "message" (Json.ofString issue.message)]

def lintTree (text schemaText : String) : Except EditorError String := do
  let tree ← readTree text
  let schema ← readSchema schemaText
  return (Json.list ((tree.lint schema).map issueToJson)).compact

/-! ## Playing -/

def startSession (text schemaText stateText : String) : Except EditorError Session := do
  let tree ← readTree text
  let schema ← readSchema schemaText
  let state ← readState stateText
  (Session.build tree schema state none).mapError .play

def choiceToJson (index : Nat) (choice : Choice) : Json :=
  .object
    [Json.member "index" (.number (.whole index)),
      Json.member "id" (Json.ofString choice.id),
      Json.member "text" (Json.ofString choice.text)]

def visitToJson (visit : Visit) : Json :=
  .object
    [Json.member "node_id" (Json.ofString visit.node),
      Json.member "speaker" (visit.speaker.elim .null Json.ofString),
      Json.member "content" (Json.ofString visit.content),
      Json.member "choices" (.list (visit.choices.mapIdx choiceToJson)),
      Json.member "is_decision" (.bool visit.isDecision),
      Json.member "warnings" (Json.ofStrings (visit.warnings.map FlagWarning.message))]

/-- The text of the current visit, which is `null` in a finished session. -/
def current (session : Session) : String × Session :=
  let (visit, looked) := session.look
  ((visit.elim .null visitToJson).compact, looked)

/-- The text of the visit after a move of a session that succeeds. -/
def afterMove (moved : Except PlayError (Option Visit) × Session) :
    Except EditorError String × Session :=
  match moved with
  | (.error error, session) => (.error (.play error), session)
  | (.ok _, session) =>
      let (text, looked) := current session
      (.ok text, looked)

def advance (session : Session) : Except EditorError String × Session :=
  afterMove session.advance

def choose (session : Session) (index : Nat) : Except EditorError String × Session :=
  afterMove (session.choose index)

/-- The text of the game state of a session. Other orders of its entries write the same state. -/
def gameState (session : Session) : String :=
  GameState.textOf session.gameState.entries

end BranchingDialogue.Editor

import BranchingDialogue.Graph.Tree

/-! The structural edits of a dialogue tree. An edit gives its answer, or the reason why it is
refused, beside the tree after it. A deletion empties every slot that named the deleted node, a new
connection needs an existing target, and a decision keeps at least one choice. -/

namespace BranchingDialogue

inductive NodeType
  | npc
  | player
  | conditional
  deriving DecidableEq, Inhabited

def NodeType.name : NodeType → String
  | .npc => "npc"
  | .player => "player"
  | .conditional => "conditional"

def NodeType.ofName? (name : String) : Option NodeType :=
  [npc, player, conditional].find? fun nodeType => nodeType.name = name

def NodeKind.nodeType : NodeKind → NodeType
  | .npc _ => .npc
  | .player _ => .player
  | .conditional _ => .conditional

inductive EditError
  | startNode (id : String)
  | unknownNode (id : String)
  | duplicateId (id : String)
  | wrongKind (node : String) (expected actual : NodeType)
  | choiceIndex (node : String) (index : Nat)
  | invalidTarget (id : String)
  deriving DecidableEq

def EditError.message : EditError → String
  | .startNode id => s!"node '{id}' is the start node and cannot be deleted"
  | .unknownNode id => s!"node not found: {id}"
  | .duplicateId id => s!"duplicate node id: {id}"
  | .wrongKind node expected actual =>
      let expectedName := expected.name
      let actualName := actual.name
      s!"node '{node}' is a {actualName} node, expected {expectedName}"
  | .choiceIndex node index => s!"node '{node}' has no choice at index {index}"
  | .invalidTarget id => s!"connection target '{id}' does not exist"

/-- The first of the names `stem` followed by `number`, `number + 1`, ... that is not taken. At
most `attempts` names are passed over, which is enough when no more than that are taken. -/
def firstFreeName (taken : String → Bool) (stem : String) (number : Nat) : Nat → String
  | 0 => stem ++ toString number
  | attempts + 1 =>
      if taken (stem ++ toString number) then
        firstFreeName taken stem (number + 1) attempts
      else
        stem ++ toString number

/-! ## Lists of choices -/

namespace Choice

/-- A choice without text, with an id that no choice of the list has. -/
def blank (node : String) (choices : List Choice) : Choice :=
  { id := firstFreeName (fun id => choices.any fun choice => choice.id == id)
      (node ++ "_choice_") (choices.length + 1) choices.length
    text := "" }

def addTo (choices : List Choice) (choice : Choice) : List Choice :=
  choices ++ [choice]

/-- The choices without the one at an index. A single choice stays. -/
def removeFrom (choices : List Choice) (index : Nat) : List Choice :=
  if choices.length > 1 then choices.eraseIdx index else choices

def updateIn (choices : List Choice) (index : Nat) (choice : Choice) : List Choice :=
  choices.set index choice

end Choice

namespace DialogueTree

/-! ## Nodes -/

/-- A slot after the node with an id is gone. -/
def clearSlot (id : String) (slot : Slot) : Slot :=
  if slot = some id then none else slot

/-- The node that is deleted, and the tree without it. Every slot that named it becomes empty. The
start node cannot be deleted. -/
def deleteNode (tree : DialogueTree) (id : String) : Except EditError Node × DialogueTree :=
  if id = tree.start then
    (.error (.startNode id), tree)
  else
    match tree.get? id with
    | none => (.error (.unknownNode id), tree)
    | some removed =>
        let nodes := (tree.nodes.erase id).mapValues (Node.mapSlots (clearSlot id))
        (.ok removed, { tree with nodes })

/-- The tree with one more node, whose id must be free. -/
def insertNode (tree : DialogueTree) (node : Node) : Except EditError Unit × DialogueTree :=
  if tree.contains node.id then
    (.error (.duplicateId node.id), tree)
  else
    (.ok (), tree.withNode node)

def freshId (tree : DialogueTree) : String :=
  firstFreeName tree.contains "node_" (tree.nodes.size + 1) tree.nodes.size

/-- A new node of some kind. A decision starts with one choice and a group of blocks with one
block that always plays. -/
def freshNode (id : String) : NodeType → Node
  | .npc => .npc id ""
  | .player => .player id [Choice.blank id []]
  | .conditional => .conditional id [{ kind := .«else», conditions := [], content := "" }]

/-- The tree with a new node at the end, and the id of that node. Where the tree names no start
node, the new one becomes it. -/
def createNode (tree : DialogueTree) (nodeType : NodeType) : String × DialogueTree :=
  let id := tree.freshId
  let extended := tree.withNode (freshNode id nodeType)
  (id, if extended.start.isEmpty then { extended with start := id } else extended)

/-! ## Connections -/

def replaceNode (tree : DialogueTree) (id : String) (node : Node) : DialogueTree :=
  { tree with nodes := tree.nodes.insert id node }

/-- The tree in which a speech leads to an existing node. -/
def connect (tree : DialogueTree) (source target : String) :
    Except EditError Unit × DialogueTree :=
  if !tree.contains target then
    (.error (.invalidTarget target), tree)
  else
    match tree.get? source with
    | none => (.error (.unknownNode source), tree)
    | some node =>
        match node.kind with
        | .npc _ => (.ok (), tree.replaceNode source (node.withNext target))
        | other => (.error (.wrongKind source .npc other.nodeType), tree)

def decision (tree : DialogueTree) (id : String) : Except EditError (Node × List Choice) :=
  match tree.get? id with
  | none => .error (.unknownNode id)
  | some node =>
      match node.choices? with
      | none => .error (.wrongKind id .player node.kind.nodeType)
      | some choices => .ok (node, choices)

def connectChoice (tree : DialogueTree) (id : String) (index : Nat) (target : String) :
    Except EditError Unit × DialogueTree :=
  if !tree.contains target then
    (.error (.invalidTarget target), tree)
  else
    match tree.decision id with
    | .error error => (.error error, tree)
    | .ok (node, choices) =>
        match choices[index]? with
        | none => (.error (.choiceIndex id index), tree)
        | some choice =>
            let connected := choices.set index { choice with next := some target }
            (.ok (), tree.replaceNode id { node with kind := .player connected })

def editChoices (tree : DialogueTree) (id : String) (change : List Choice → List Choice) :
    Except EditError Unit × DialogueTree :=
  match tree.decision id with
  | .error error => (.error error, tree)
  | .ok (node, choices) =>
      (.ok (), tree.replaceNode id { node with kind := .player (change choices) })

end DialogueTree

/-! ## Edits as data -/

inductive Edit
  | deleteNode (id : String)
  | insertNode (node : Node)
  | createNode (nodeType : NodeType)
  | connect (source target : String)
  | connectChoice (node : String) (index : Nat) (target : String)
  | addBlankChoice (node : String)
  | addChoice (node : String) (choice : Choice)
  | removeChoice (node : String) (index : Nat)
  | updateChoice (node : String) (index : Nat) (choice : Choice)
  deriving DecidableEq

inductive EditAnswer
  | done
  | removed (node : Node)
  | created (id : String)
  | added (choice : Choice)
  deriving DecidableEq

namespace DialogueTree

/-- The outcome of an edit with its answer put as `give` says. -/
def answered {α : Type} (give : α → EditAnswer) (outcome : Except EditError α × DialogueTree) :
    Except EditError EditAnswer × DialogueTree :=
  (outcome.1.map give, outcome.2)

def perform (tree : DialogueTree) : Edit → Except EditError EditAnswer × DialogueTree
  | .deleteNode id => answered .removed (tree.deleteNode id)
  | .insertNode node => answered (fun _ => .done) (tree.insertNode node)
  | .createNode nodeType =>
      let (id, edited) := tree.createNode nodeType
      (.ok (.created id), edited)
  | .connect source target => answered (fun _ => .done) (tree.connect source target)
  | .connectChoice node index target =>
      answered (fun _ => .done) (tree.connectChoice node index target)
  | .addBlankChoice node =>
      match tree.decision node with
      | .error error => (.error error, tree)
      | .ok (_, choices) =>
          let choice := Choice.blank node choices
          answered (fun _ => .added choice)
            (tree.editChoices node fun choices => Choice.addTo choices choice)
  | .addChoice node choice =>
      answered (fun _ => .done) (tree.editChoices node fun choices => Choice.addTo choices choice)
  | .removeChoice node index =>
      answered (fun _ => .done)
        (tree.editChoices node fun choices => Choice.removeFrom choices index)
  | .updateChoice node index choice =>
      answered (fun _ => .done)
        (tree.editChoices node fun choices => Choice.updateIn choices index choice)

def afterEdit (tree : DialogueTree) (edit : Edit) : DialogueTree :=
  (tree.perform edit).2

def afterEdits (tree : DialogueTree) (edits : List Edit) : DialogueTree :=
  edits.foldl afterEdit tree

end DialogueTree

end BranchingDialogue

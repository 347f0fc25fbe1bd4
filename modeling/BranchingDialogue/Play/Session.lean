import BranchingDialogue.Graph.Tree
import BranchingDialogue.Play.Visit

/-! A session is one playthrough of a tree. It stands at a node or has finished. A node is visited
once when the session first looks at it, and the visit is kept until the session moves on. -/

namespace BranchingDialogue

inductive PlayError
  | emptyTree
  | missingStart (id : String)
  | awaitingChoice (node : String)
  | choiceOutOfRange (index available : Nat)
  | finished
  deriving DecidableEq

def PlayError.message : PlayError → String
  | .emptyTree => "dialogue tree has no nodes"
  | .missingStart id => s!"start node not found: {id}"
  | .awaitingChoice node => s!"node '{node}' is waiting for a choice"
  | .choiceOutOfRange index available => s!"choice {index} is not available ({available} visible)"
  | .finished => "dialogue has finished"

structure Session where
  tree : DialogueTree
  schema : FlagSchema
  start : String
  store : Store
  current : Option String
  /-- The visit of that node, once it has been made. -/
  visited : Option Visit
  warnings : List FlagWarning
  deriving DecidableEq

namespace Session

def begin (tree : DialogueTree) (schema : FlagSchema) (start : String) (store : Store) :
    Session :=
  { tree, schema, start, store, current := some start, visited := none, warnings := [] }

/-- A session for a tree, which starts at a given node or at the one that the tree names. -/
def build (tree : DialogueTree) (schema : FlagSchema) (state : GameState)
    (start : Option String) : Except PlayError Session :=
  if tree.isEmpty then
    .error .emptyTree
  else
    let id := start.getD tree.start
    if tree.contains id then
      .ok (begin tree schema id (Store.ofSchema schema state))
    else
      .error (.missingStart id)

/-- The visit of the current node and the session in which it has been made. A finished session has
none. -/
def look (session : Session) : Option Visit × Session :=
  match session.visited with
  | some visit => (some visit, session)
  | none =>
      match session.current.bind session.tree.get? with
      | none => (none, session)
      | some node =>
          let (visit, store) := node.visit session.store session.schema
          let warnings := session.warnings ++ visit.warnings
          (some visit, { session with store, visited := some visit, warnings })

/-- The session moved to a target. A target that no node has ends the dialogue. -/
def moveTo (session : Session) (target : Slot) : Session :=
  { session with current := target.filter session.tree.contains, visited := none }

def advance (session : Session) : Except PlayError (Option Visit) × Session :=
  match session.look with
  | (none, looked) => (.error .finished, looked)
  | (some visit, looked) =>
      if visit.isDecision then
        (.error (.awaitingChoice visit.node), looked)
      else
        let (next, moved) := (looked.moveTo visit.next).look
        (.ok next, moved)

/-- The visit of the node that a visible choice leads to, after its flags are raised. -/
def choose (session : Session) (index : Nat) : Except PlayError (Option Visit) × Session :=
  match session.look with
  | (none, looked) => (.error .finished, looked)
  | (some visit, looked) =>
      match visit.choices[index]? with
      | none => (.error (.choiceOutOfRange index visit.choices.length), looked)
      | some choice =>
          let (store, warnings) := choice.take looked.store looked.schema
          let chosen := { looked with store, warnings := looked.warnings ++ warnings }
          let (next, moved) := (chosen.moveTo choice.next.live).look
          (.ok next, moved)

def isFinished (session : Session) : Bool :=
  session.current.isNone

/-- The session back at its start, with the store as it was created. -/
def restart (session : Session) : Session :=
  begin session.tree session.schema session.start session.store.reset

def gameState (session : Session) : GameState :=
  session.store.gameState session.schema

/-! ## Operations as data -/

inductive Operation
  | look
  | advance
  | choose (index : Nat)
  | restart
  deriving DecidableEq

/-- The visit that an operation shows or the reason why it is refused, and the session after it. A
restart shows nothing. -/
def perform (session : Session) : Operation → Except PlayError (Option Visit) × Session
  | .look =>
      let (visit, looked) := session.look
      (.ok visit, looked)
  | .advance => session.advance
  | .choose index => session.choose index
  | .restart => (.ok none, session.restart)

/-- The session after operations one after another, of which any may be refused. -/
def after (session : Session) (operations : List Operation) : Session :=
  operations.foldl (fun current operation => (current.perform operation).2) session

def answers (session : Session) : List Operation → List (Except PlayError (Option Visit))
  | [] => []
  | operation :: rest =>
      let (answer, next) := session.perform operation
      answer :: next.answers rest

end Session

end BranchingDialogue

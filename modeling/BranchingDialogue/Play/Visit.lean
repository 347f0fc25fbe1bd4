import BranchingDialogue.Graph.Node
import BranchingDialogue.Play.Content

/-! A visit is what a node comes to for the current store: who speaks, what is shown, which choices
are visible and where the dialogue goes on. Visiting a node plays its content and then raises its
flags. -/

namespace BranchingDialogue

structure Visit where
  node : String
  speaker : Option String := none
  content : String := ""
  /-- The visible choices of a decision. -/
  choices : List Choice := []
  /-- Where a speech or a group of blocks leads. -/
  next : Slot := none
  isDecision : Bool := false
  warnings : List FlagWarning := []
  deriving DecidableEq, Inhabited

/-- Whether a block plays. The last arm of a group always does. -/
def Block.applies (store : Store) (block : Block) : Bool :=
  block.kind == .«else» || Condition.allHold block.conditions store

def Block.select (store : Store) (blocks : List Block) : Option Block :=
  blocks.find? (Block.applies store)

def Choice.isVisible (store : Store) (choice : Choice) : Bool :=
  Condition.allHold choice.gate store

/-- What a node plays: a speaker, a target, and perhaps content. -/
structure Scene where
  speaker : Option String
  next : Slot
  content : Option String
  deriving DecidableEq

namespace Node

/-- What a block plays in a node. The speaker of the block wins over that of the node, and its
target over the given one. -/
def sceneOfBlock (node : Node) (next : Slot) (block : Block) : Scene :=
  ⟨block.speaker <|> node.speaker, block.next.live <|> next.live, some block.content⟩

/-- What a node plays in a store. A speech whose blocks all fail plays nothing and leads nowhere. -/
def scene (node : Node) (store : Store) : Scene :=
  let silent : Scene := ⟨node.speaker, none, none⟩
  match node.kind with
  | .npc speech =>
      match speech.blocks with
      | none => ⟨node.speaker, speech.next.live, some speech.content⟩
      | some blocks => (Block.select store blocks).elim silent (node.sceneOfBlock speech.next)
  | .player _ => silent
  | .conditional blocks => (Block.select store blocks).elim silent (node.sceneOfBlock none)

def entryFlags (node : Node) : List String :=
  match node.kind with
  | .npc speech => speech.raises.getD []
  | _ => []

/-- The visit of a node, and the store after it. The visible choices are those of the store before
the visit. -/
def visit (node : Node) (store : Store) (schema : FlagSchema) : Visit × Store :=
  let scene := node.scene store
  let (played, commandWarnings) :=
    scene.content.elim (store, []) fun content => store.play schema content
  let (raised, raiseWarnings) := played.raise schema node.entryFlags
  let visit : Visit :=
    { node := node.id
      speaker := scene.speaker
      content := scene.content.elim "" shownContent
      choices := (node.choices?.getD []).filter (Choice.isVisible store)
      next := scene.next
      isDecision := node.choices?.isSome
      warnings := commandWarnings ++ raiseWarnings }
  (visit, raised)

end Node

def Choice.take (choice : Choice) (store : Store) (schema : FlagSchema) :
    Store × List FlagWarning :=
  store.raise schema choice.flags

end BranchingDialogue

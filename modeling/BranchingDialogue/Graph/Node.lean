import BranchingDialogue.Flag.Condition

/-! A node is a speech, a decision between choices, or a group of conditional blocks. Every way out
of a node is a transition slot: the successor of a speech, the target of a choice or the target of a
block. This module holds the types, the functions that build nodes, and the view of a node as the
list of its slots. -/

namespace BranchingDialogue

/-- A transition slot holds the id of a node, or nothing. -/
abbrev Slot :=
  Option String

/-- The target of a slot. An empty id is no target. -/
def Slot.live (slot : Slot) : Option String :=
  slot.filter fun id => !id.isEmpty

/-- Which arm of an if, else-if and else group a block is. -/
inductive BlockKind
  | «if»
  | elseIf
  | «else»
  deriving DecidableEq, Inhabited

structure Block where
  kind : BlockKind
  conditions : List Condition
  content : String
  speaker : Option String := none
  next : Slot := none
  deriving DecidableEq, BEq, Inhabited

/-- An answer that the player can give. An absent list differs from an empty one. -/
structure Choice where
  id : String
  text : String
  next : Slot := none
  conditions : Option (List Condition) := none
  raises : Option (List String) := none
  deriving DecidableEq, BEq, Inhabited

/-- What a character says. Blocks, when there are any, take the place of the content. -/
structure Speech where
  content : String := ""
  next : Slot := none
  raises : Option (List String) := none
  blocks : Option (List Block) := none
  deriving DecidableEq, BEq, Inhabited

inductive NodeKind
  | npc (speech : Speech)
  | player (choices : List Choice)
  | conditional (blocks : List Block)
  deriving DecidableEq, BEq, Inhabited

structure Node where
  id : String
  speaker : Option String := none
  kind : NodeKind
  deriving DecidableEq, BEq, Inhabited

namespace Choice

def gate (choice : Choice) : List Condition :=
  choice.conditions.getD []

def flags (choice : Choice) : List String :=
  choice.raises.getD []

def withCondition (choice : Choice) (condition : Condition) : Choice :=
  { choice with conditions := some (choice.gate ++ [condition]) }

def withFlag (choice : Choice) (flag : String) : Choice :=
  { choice with raises := some (choice.flags ++ [flag]) }

end Choice

def NodeKind.name : NodeKind → String
  | .npc _ => "npc"
  | .player _ => "player"
  | .conditional _ => "conditional"

namespace Node

/-! ## Building nodes -/

def npc (id content : String) : Node :=
  { id, kind := .npc { content } }

def player (id : String) (choices : List Choice) : Node :=
  { id, kind := .player choices }

def conditional (id : String) (blocks : List Block) : Node :=
  { id, kind := .conditional blocks }

def mapSpeech (change : Speech → Speech) (node : Node) : Node :=
  match node.kind with
  | .npc speech => { node with kind := .npc (change speech) }
  | _ => node

def withNext (node : Node) (target : String) : Node :=
  node.mapSpeech fun speech => { speech with next := some target }

def withFlag (node : Node) (flag : String) : Node :=
  node.mapSpeech fun speech => { speech with raises := some (speech.raises.getD [] ++ [flag]) }

def withBlocks (node : Node) (blocks : List Block) : Node :=
  node.mapSpeech fun speech => { speech with blocks := some blocks }

/-! ## Parts of nodes -/

def choices? (node : Node) : Option (List Choice) :=
  match node.kind with
  | .player choices => some choices
  | _ => none

/-- The conditional blocks that govern the content of a node. -/
def blocks? (node : Node) : Option (List Block) :=
  match node.kind with
  | .npc speech => speech.blocks
  | .player _ => none
  | .conditional blocks => some blocks

def blocks (node : Node) : List Block :=
  node.blocks?.getD []

def slots (node : Node) : List Slot :=
  match node.kind with
  | .npc speech => speech.next :: (speech.blocks.getD []).map Block.next
  | .player choices => choices.map Choice.next
  | .conditional blocks => blocks.map Block.next

def mapSlots (change : Slot → Slot) (node : Node) : Node :=
  let inBlock := fun (block : Block) => { block with next := change block.next }
  let inChoice := fun (choice : Choice) => { choice with next := change choice.next }
  match node.kind with
  | .npc speech =>
      { node with
        kind := .npc
          { speech with
            next := change speech.next
            blocks := speech.blocks.map fun blocks => blocks.map inBlock } }
  | .player choices => { node with kind := .player (choices.map inChoice) }
  | .conditional blocks => { node with kind := .conditional (blocks.map inBlock) }

theorem slots_mapSlots (change : Slot → Slot) (node : Node) :
    (node.mapSlots change).slots = node.slots.map change := by
  obtain ⟨id, speaker, kind⟩ := node
  cases kind with
  | npc speech =>
      obtain ⟨content, next, raises, blocks⟩ := speech
      cases blocks <;> simp [mapSlots, slots]
  | player choices => simp [mapSlots, slots]
  | conditional blocks => simp [mapSlots, slots]

end Node

end BranchingDialogue

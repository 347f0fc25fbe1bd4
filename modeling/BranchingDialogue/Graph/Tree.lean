import BranchingDialogue.Graph.Node
import BranchingDialogue.Keyed.Ordered

/-! A dialogue tree is a graph of nodes stored under names, with a name for the node to start at. A
node is usually stored under its own id, but the tree does not ask for it. -/

namespace BranchingDialogue

structure DialogueTree where
  id : String
  title : String
  start : String
  nodes : OrderedMap Node
  deriving DecidableEq, Inhabited

namespace DialogueTree

def bare (id title start : String) : DialogueTree :=
  ⟨id, title, start, .empty⟩

def withNode (tree : DialogueTree) (node : Node) : DialogueTree :=
  { tree with nodes := tree.nodes.insert node.id node }

def withNodes (tree : DialogueTree) (nodes : List Node) : DialogueTree :=
  nodes.foldl withNode tree

def get? (tree : DialogueTree) (id : String) : Option Node :=
  tree.nodes.get? id

def contains (tree : DialogueTree) (id : String) : Bool :=
  tree.nodes.contains id

def nodeList (tree : DialogueTree) : List Node :=
  tree.nodes.values

def startNode? (tree : DialogueTree) : Option Node :=
  tree.get? tree.start

def isEmpty (tree : DialogueTree) : Bool :=
  tree.nodes.isEmpty

/-- The node that a slot leads to. A slot without target, and one whose target is the name of no
node, leads nowhere, and the dialogue ends. -/
def resolve (tree : DialogueTree) (slot : Slot) : Option Node :=
  slot.live.bind tree.get?

/-- Whether two trees have the same heading and equal nodes under the same names, in any order. -/
def agrees (left right : DialogueTree) : Bool :=
  left.id == right.id && left.title == right.title && left.start == right.start &&
    left.nodes.sameEntries right.nodes

end DialogueTree

end BranchingDialogue

import BranchingDialogue.Flag.Schema
import BranchingDialogue.Graph.Tree
import BranchingDialogue.Script.Command

/-! The checks report what an author should know about a tree. Errors mark content that can never
play as written, and warnings mark content that plays, but probably not as intended. -/

namespace BranchingDialogue

inductive Severity
  | warning
  | error
  deriving DecidableEq

inductive IssueKind
  | missingStart
  | danglingTarget (target : String)
  | unreachable
  | noChoices
  /-- An `if` is not first in its group, or an `else` is not last. -/
  | blockOrder (index : Nat)
  | missingValue (flag : String)
  | undeclaredFlag (flag : String)
  | unscriptableFlag (flag : String)
  deriving DecidableEq

namespace IssueKind

def severity : IssueKind → Severity
  | .missingStart | .noChoices | .blockOrder _ | .missingValue _ => .error
  | .danglingTarget _ | .unreachable | .undeclaredFlag _ | .unscriptableFlag _ => .warning

def message : IssueKind → String
  | .missingStart => "start node does not exist"
  | .danglingTarget target => s!"transition to missing node '{target}' ends the dialogue"
  | .unreachable => "node is unreachable from the start node"
  | .noChoices => "player node has no choices"
  | .blockOrder index => s!"conditional block {index} is out of if/elseif/else order"
  | .missingValue flag => s!"comparison on '{flag}' has no value"
  | .undeclaredFlag flag => s!"flag '{flag}' is not declared in the schema"
  | .unscriptableFlag flag => s!"flag '{flag}' cannot be written in script text"

end IssueKind

/-- What the checks report, with the node where it was found if there is one. -/
structure Issue where
  node : Option String
  kind : IssueKind
  deriving DecidableEq

namespace Issue

def severity (issue : Issue) : Severity :=
  issue.kind.severity

def isError (issue : Issue) : Bool :=
  issue.severity = .error

def message (issue : Issue) : String :=
  let found := issue.kind.message
  match issue.node with
  | some node => s!"[{node}] {found}"
  | none => found

end Issue

/-! ## What a node uses -/

namespace Node

def conditions (node : Node) : List Condition :=
  match node.choices? with
  | some choices => choices.flatMap Choice.gate
  | none => node.blocks.flatMap Block.conditions

/-- The flags that the own content of a node sets and reads and that the node or its choices
raise. -/
def ownFlags (node : Node) : List String :=
  match node.kind with
  | .npc speech => Script.commandFlags speech.content.toList ++ speech.raises.getD []
  | .player choices => choices.flatMap Choice.flags
  | .conditional _ => []

def flags (node : Node) : List String :=
  node.conditions.map Condition.flag ++ node.ownFlags ++
    node.blocks.flatMap fun block => Script.commandFlags block.content.toList

end Node

/-! ## Reachable nodes -/

namespace DialogueTree

def successors (tree : DialogueTree) (node : Node) : List Node :=
  node.slots.filterMap tree.resolve

/-- The ids seen after the successors of a node are looked at, and those of them that are new. -/
def newSuccessors (tree : DialogueTree) (seen : List String) (node : Node) :
    List String × List Node :=
  (tree.successors node).foldl
    (fun (seen, fresh) next =>
      if seen.contains next.id then (seen, fresh) else (next.id :: seen, fresh ++ [next]))
    (seen, [])

/-- The ids seen after the nodes of a queue and all that they lead to are looked at. At most `fuel`
nodes are looked at. -/
def searchFrom (tree : DialogueTree) : Nat → List String → List Node → List String
  | 0, seen, _ => seen
  | _, seen, [] => seen
  | fuel + 1, seen, node :: queue =>
      let (next, fresh) := tree.newSuccessors seen node
      searchFrom tree fuel next (queue ++ fresh)

/-- The ids of the nodes that paths from the start lead to. A node is looked at once for each id,
so that the number of nodes bounds the search. -/
def reachableIds (tree : DialogueTree) : List String :=
  match tree.startNode? with
  | none => []
  | some start => tree.searchFrom tree.nodes.size [start.id] [start]

/-! ## Checks of one node -/

def danglingIssues (tree : DialogueTree) (node : Node) : List IssueKind :=
  node.slots.filterMap fun slot =>
    (slot.live.filter fun target => !tree.contains target).map .danglingTarget

end DialogueTree

namespace Node

def choiceIssues (node : Node) : List IssueKind :=
  if node.choices? = some [] then [.noChoices] else []

/-- Whether a block at an index of a group with some number of blocks is out of order. -/
def misplaced (count index : Nat) : BlockKind → Bool
  | .«if» => index ≠ 0
  | .elseIf => false
  | .«else» => index + 1 ≠ count

def blockIssues (node : Node) : List IssueKind :=
  node.blocks.zipIdx.filterMap fun (block, index) =>
    if misplaced node.blocks.length index block.kind then some (.blockOrder index) else none

def valueIssues (node : Node) : List IssueKind :=
  node.conditions.filterMap fun condition =>
    if condition.operator.comparesValue && condition.value.isNone then
      some (.missingValue condition.flag)
    else
      none

end Node

/-! ## Checks of flags -/

structure ReportedFlags where
  unscriptable : List String := []
  undeclared : List String := []

/-- The issues of one use of a flag. Each flag is reported once for each reason. Flags are reported
as undeclared only when the schema declares some. -/
def flagIssues (schema : FlagSchema) (reported : ReportedFlags) (flag : String) :
    List IssueKind × ReportedFlags :=
  let unscriptable := !Script.isScriptable flag && !reported.unscriptable.contains flag
  let undeclared :=
    !schema.isEmpty && !schema.contains flag && !reported.undeclared.contains flag
  let issues :=
    (if unscriptable then [.unscriptableFlag flag] else []) ++
      (if undeclared then [.undeclaredFlag flag] else [])
  (issues,
    { unscriptable := if unscriptable then flag :: reported.unscriptable else reported.unscriptable
      undeclared := if undeclared then flag :: reported.undeclared else reported.undeclared })

def flagListIssues (schema : FlagSchema) (reported : ReportedFlags) :
    List String → List IssueKind × ReportedFlags
  | [] => ([], reported)
  | flag :: rest =>
      let (issues, next) := flagIssues schema reported flag
      let (others, last) := flagListIssues schema next rest
      (issues ++ others, last)

/-! ## Checks of a tree -/

namespace DialogueTree

def nodeIssues (tree : DialogueTree) (reachable : List String) (node : Node) : List IssueKind :=
  let apart := tree.contains tree.start && !reachable.contains node.id
  tree.danglingIssues node ++ (if apart then [.unreachable] else []) ++ node.choiceIssues ++
    node.blockIssues ++ node.valueIssues

def nodeListIssues (tree : DialogueTree) (schema : FlagSchema) (reachable : List String)
    (reported : ReportedFlags) : List Node → List Issue
  | [] => []
  | node :: rest =>
      let (flags, next) := flagListIssues schema reported node.flags
      (tree.nodeIssues reachable node ++ flags).map (Issue.mk (some node.id)) ++
        nodeListIssues tree schema reachable next rest

def lint (tree : DialogueTree) (schema : FlagSchema) : List Issue :=
  let start := if tree.contains tree.start then [] else [⟨none, .missingStart⟩]
  start ++ tree.nodeListIssues schema tree.reachableIds {} tree.nodeList

end DialogueTree

end BranchingDialogue

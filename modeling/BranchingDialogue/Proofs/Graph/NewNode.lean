import BranchingDialogue.Proofs.Graph.Edit

/-! The id of a new node is the name of no other node, but there can be slots that name it already.
They led nowhere, and they lead to the new node as soon as it is there. All other slots lead where
they led before. -/

namespace BranchingDialogue.DialogueTree

variable {tree edited : DialogueTree} {nodeType : NodeType} {id name : String} {node : Node}

private theorem freshId_ne_empty (tree : DialogueTree) : tree.freshId ≠ "" := by
  obtain ⟨number, -, -, made⟩ := tree.exists_freshId
  rw [made]
  intro empty
  have noStem := congrArg String.toList empty
  simp at noStem

private theorem get?_freshId (tree : DialogueTree) : tree.get? tree.freshId = none :=
  Option.isNone_iff_eq_none.mp (Option.isSome_eq_false_iff.mp tree.contains_freshId)

private theorem get?_createNode (tree : DialogueTree) (nodeType : NodeType) (name : String) :
    (tree.createNode nodeType).2.get? name =
      if name = tree.freshId then
        some (freshNode tree.freshId nodeType)
      else
        tree.get? name := by
  rw [get?, nodes_createNode]
  exact OrderedMap.get?_insert _ _ _ _

private theorem get?_createNode_of_stored (stored : tree.get? name = some node)
    (nodeType : NodeType) : (tree.createNode nodeType).2.get? name = some node := by
  have other : name ≠ tree.freshId := by
    rintro rfl
    rw [tree.get?_freshId] at stored
    cases stored
  rw [get?_createNode, if_neg other, stored]

private theorem resolve_freshId (tree : DialogueTree) :
    tree.resolve (some tree.freshId) = none := by
  rw [resolve_some, if_neg tree.freshId_ne_empty, tree.get?_freshId]

private theorem resolve_createNode (tree : DialogueTree) (nodeType : NodeType) (slot : Slot) :
    (tree.createNode nodeType).2.resolve slot =
      if slot = some tree.freshId then
        some (freshNode tree.freshId nodeType)
      else
        tree.resolve slot := by
  cases slot with
  | none => rfl
  | some other =>
      rw [resolve_some, resolve_some, get?_createNode]
      by_cases named : other = tree.freshId
      · rw [if_pos named, if_pos (congrArg some named), if_neg (named ▸ tree.freshId_ne_empty)]
      · rw [if_neg named, if_neg fun same => named (Option.some.inj same)]

/-- A node that is there before another one is created stays as it is. Its slots lead where they led
before, except those that name the id of the new node: they led nowhere, and now lead to it. -/
theorem resolve_slots_createNode (created : tree.createNode nodeType = (id, edited))
    (stored : tree.get? name = some node) :
    edited.get? name = some node ∧
      ∀ slot ∈ node.slots,
        if slot = some id then
          tree.resolve slot = none ∧ edited.resolve slot = some (freshNode id nodeType)
        else
          edited.resolve slot = tree.resolve slot := by
  obtain ⟨rfl, rfl⟩ : tree.freshId = id ∧ (tree.createNode nodeType).2 = edited :=
    Prod.ext_iff.mp created
  refine ⟨get?_createNode_of_stored stored nodeType, fun slot _ => ?_⟩
  rw [resolve_createNode]
  by_cases named : slot = some tree.freshId
  · rw [if_pos named, if_pos named, named]
    exact ⟨tree.resolve_freshId, rfl⟩
  · rw [if_neg named, if_neg named]

/-- A crossing with a way back, one to a place that is missing, a dead end and a way out. -/
def crossing : Node :=
  .player "crossing"
    [⟨"1", "Back", some "road", none, none⟩, ⟨"2", "North", some "node_3", none, none⟩,
      ⟨"3", "South", some "", none, none⟩, ⟨"4", "Stay", none, none, none⟩]

/-- A road that leads to a place that is missing, and a crossing. -/
def roadTree : DialogueTree :=
  (bare "road" "The open road" "road").withNodes
    [(Node.npc "road" "The road forks.").withNext "node_3", crossing]

theorem resolve_slots_of_crossing :
    roadTree.createNode .npc = ("node_3", (roadTree.createNode .npc).2) ∧
      roadTree.get? "crossing" = some crossing ∧
      some "road" ∈ crossing.slots ∧ some "node_3" ∈ crossing.slots ∧
      (roadTree.createNode .npc).2.resolve (some "road") = roadTree.resolve (some "road") ∧
      roadTree.resolve (some "node_3") = none ∧
      (roadTree.createNode .npc).2.resolve (some "node_3") = some (freshNode "node_3" .npc) := by
  have created : roadTree.createNode .npc = ("node_3", (roadTree.createNode .npc).2) := by
    decide +kernel
  have stored : roadTree.get? "crossing" = some crossing := by decide +kernel
  have back : some "road" ∈ crossing.slots := by decide
  have north : some "node_3" ∈ crossing.slots := by decide
  obtain ⟨-, resolved⟩ := resolve_slots_createNode created stored
  have ofBack := resolved (some "road") back
  have ofNorth := resolved (some "node_3") north
  rw [if_neg (by decide)] at ofBack
  rw [if_pos rfl] at ofNorth
  exact ⟨created, stored, back, north, ofBack, ofNorth⟩

/-- The road led nowhere, and leads to the node that is created. -/
theorem missing_place_found :
    ¬ ∀ node ∈ roadTree.nodeList, ∀ slot ∈ node.slots,
      (roadTree.createNode .npc).2.resolve slot = roadTree.resolve slot := by
  decide +kernel

end BranchingDialogue.DialogueTree

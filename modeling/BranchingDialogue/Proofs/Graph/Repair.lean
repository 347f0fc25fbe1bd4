import BranchingDialogue.Proofs.Graph.Edit
import BranchingDialogue.Proofs.Keyed.Ordered

/-! A deletion empties the slots that named the deleted node and changes nothing else. A slot that
named another node leads to that node as before, in which the same repair was made. -/

namespace BranchingDialogue

/-! ## Nodes without their slots -/

/-- What a block is besides where it leads. -/
def Block.unlinked (block : Block) : Block :=
  { block with next := none }

def Choice.unlinked (choice : Choice) : Choice :=
  { choice with next := none }

def Node.unlinked (node : Node) : Node :=
  match node.kind with
  | .npc speech =>
      { node with
        kind := .npc
          { speech with
            next := none
            blocks := speech.blocks.map fun blocks => blocks.map Block.unlinked } }
  | .player choices => { node with kind := .player (choices.map Choice.unlinked) }
  | .conditional blocks => { node with kind := .conditional (blocks.map Block.unlinked) }

private theorem Node.unlinked_mapSlots (change : Slot → Slot) (node : Node) :
    (node.mapSlots change).unlinked = node.unlinked := by
  obtain ⟨id, speaker, kind⟩ := node
  cases kind with
  | npc speech =>
      obtain ⟨content, next, raises, blocks⟩ := speech
      cases blocks <;> simp [mapSlots, unlinked, Block.unlinked]
  | player choices => simp [mapSlots, unlinked, Choice.unlinked]
  | conditional blocks => simp [mapSlots, unlinked, Block.unlinked]

/-! ## Repairs -/

/-- Whether a node is an older one in which the slots that named an id are empty. Nothing else of
the node has changed. -/
structure Node.IsRepairOf (node old : Node) (id : String) : Prop where
  besides : node.unlinked = old.unlinked
  slots : node.slots = old.slots.map fun slot => if slot = some id then none else slot

private theorem Node.isRepairOf_mapSlots (node : Node) (id : String) :
    (node.mapSlots (DialogueTree.clearSlot id)).IsRepairOf node id :=
  ⟨node.unlinked_mapSlots _, node.slots_mapSlots _⟩

namespace DialogueTree

/-- Whether a tree is an older one without the node stored under an id and without the slots that
named it. The other nodes are in order under their names, and every other slot leads to the same
node as before, but for the repair of that node. -/
structure IsRepairOf (tree old : DialogueTree) (id : String) : Prop where
  heading : tree.id = old.id ∧ tree.title = old.title ∧ tree.start = old.start
  nodes : List.Forall₂ (fun entry other => entry.1 = other.1 ∧ entry.2.IsRepairOf other.2 id)
    tree.nodes.entries (old.nodes.entries.filter fun entry => entry.1 ≠ id)
  resolved : ∀ slot, slot ≠ some id →
    Option.Rel (fun node other => node.IsRepairOf other id) (tree.resolve slot) (old.resolve slot)

variable {tree edited : DialogueTree} {id : String} {removed : Node}

private theorem get?_deleteNode (deleted : tree.deleteNode id = (.ok removed, edited))
    (name : String) :
    edited.get? name =
      if name = id then none else (tree.get? name).map (Node.mapSlots (clearSlot id)) := by
  obtain ⟨-, -, rfl⟩ := of_deleteNode deleted
  have left : (tree.nodes.erase id).get? name = if name = id then none else tree.get? name :=
    OrderedMap.get?_erase tree.nodes id name
  rw [get?, OrderedMap.get?_mapValues, left]
  by_cases same : name = id
  · simp [same]
  · simp [same]

private theorem resolve_deleteNode (deleted : tree.deleteNode id = (.ok removed, edited))
    {slot : Slot} (other : slot ≠ some id) :
    edited.resolve slot = (tree.resolve slot).map (Node.mapSlots (clearSlot id)) := by
  unfold resolve
  cases target : slot.live with
  | none => rfl
  | some name =>
      have different : name ≠ id := by
        intro same
        apply other
        rw [← same]
        exact (Option.filter_eq_some_iff.mp target).1
      rw [Option.bind_some, Option.bind_some, get?_deleteNode deleted, if_neg different]

private theorem isRepairOf_deleteNode (deleted : tree.deleteNode id = (.ok removed, edited)) :
    edited.IsRepairOf tree id := by
  refine ⟨?_, ?_, ?_⟩
  · obtain ⟨-, -, rfl⟩ := of_deleteNode deleted
    exact ⟨rfl, rfl, rfl⟩
  · rw [entries_deleteNode deleted, List.forall₂_map_left_iff, List.forall₂_same]
    intro entry _
    exact ⟨rfl, entry.2.isRepairOf_mapSlots id⟩
  · intro slot other
    rw [resolve_deleteNode deleted other]
    cases tree.resolve slot with
    | none => exact .none
    | some node => exact .some (node.isRepairOf_mapSlots id)

/-- A deletion that is refused leaves the tree as it is. One that is not gives the node that was
stored, and leaves the tree without that node and without references to it. -/
theorem deleteNode_repairs (tree : DialogueTree) (id : String) :
    match tree.deleteNode id with
    | (.error error, kept) =>
        tree.afterEdit (.deleteNode id) = kept ∧ kept = tree ∧
          (id = tree.start ∧ error = .startNode id ∨
            id ≠ tree.start ∧ tree.get? id = none ∧ error = .unknownNode id)
    | (.ok removed, edited) =>
        tree.afterEdit (.deleteNode id) = edited ∧ id ≠ tree.start ∧
          tree.get? id = some removed ∧ edited.IsRepairOf tree id := by
  have after : tree.afterEdit (.deleteNode id) = (tree.deleteNode id).2 := rfl
  by_cases isStart : id = tree.start
  · rw [after, deleteNode_of_start isStart]
    exact ⟨rfl, rfl, Or.inl ⟨isStart, rfl⟩⟩
  · cases found : tree.get? id with
    | none =>
        rw [after, deleteNode_of_unknown isStart found]
        exact ⟨rfl, rfl, Or.inr ⟨isStart, rfl, rfl⟩⟩
    | some removed =>
        have deleted := deleteNode_of_stored isStart found
        rw [after, deleted]
        exact ⟨rfl, isStart, rfl, isRepairOf_deleteNode deleted⟩

end DialogueTree

end BranchingDialogue

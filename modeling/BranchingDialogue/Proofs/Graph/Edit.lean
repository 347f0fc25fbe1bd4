import Mathlib.Data.List.Nodup
import Mathlib.Data.List.Perm.Subperm
import BranchingDialogue.Graph.Edit
import BranchingDialogue.Proofs.Keyed.Ordered

/-! What is left of a tree after a deletion, and what a new node adds to it. The id of a new node is
free, as a search through more names than there are nodes finds a free one. -/

namespace BranchingDialogue

/-! ## Free names -/

/-- Whether a number is the first from `number` on that makes a free name with a stem. -/
structure IsFirstFree (names : List String) (stem : String) (number found : Nat) : Prop where
  later : number ≤ found
  free : stem ++ toString found ∉ names
  taken : ∀ other, number ≤ other → other < found → stem ++ toString other ∈ names

/-- The search passes over taken names only, and it stops at a free one unless it has used up its
attempts. -/
theorem exists_firstFreeName (taken : String → Bool) (stem : String) (number attempts : Nat) :
    ∃ found, number ≤ found ∧ found ≤ number + attempts ∧
      firstFreeName taken stem number attempts = stem ++ toString found ∧
      (∀ other, number ≤ other → other < found → taken (stem ++ toString other) = true) ∧
      (taken (stem ++ toString found) = true → found = number + attempts) := by
  induction attempts generalizing number with
  | zero =>
      refine ⟨number, Nat.le_refl _, Nat.le_refl _, rfl, ?_, fun _ => rfl⟩
      intro other later earlier
      omega
  | succ attempts inductionHypothesis =>
      rw [firstFreeName]
      by_cases here : taken (stem ++ toString number) = true
      · obtain ⟨found, later, bound, name, passed, last⟩ := inductionHypothesis (number + 1)
        rw [if_pos here]
        refine ⟨found, by omega, by omega, name, ?_, fun stillTaken => ?_⟩
        · intro other fromNumber earlier
          by_cases first : other = number
          · exact first ▸ here
          · exact passed other (by omega) earlier
        · have allUsed := last stillTaken
          omega
      · rw [if_neg here]
        refine ⟨number, Nat.le_refl _, Nat.le_add_right _ _, rfl, ?_, fun stillTaken => ?_⟩
        · intro other later earlier
          omega
        · exact absurd stillTaken here

private theorem injective_numbered (stem : String) :
    Function.Injective fun number : Nat => stem ++ toString number := by
  intro left right same
  have digits : Nat.toDigits 10 left = Nat.toDigits 10 right := by
    have texts : toString left = toString right := (String.append_right_inj stem).mp same
    rw [Nat.toString_eq_ofList_toDigits, Nat.toString_eq_ofList_toDigits] at texts
    exact String.ofList_inj.mp texts
  rw [← @Nat.ofDigitChars_ten_toDigits left, digits, Nat.ofDigitChars_ten_toDigits]

/-- The search finds the first free name when it has an attempt for each name that is taken. -/
theorem exists_isFirstFree {taken : String → Bool} {names : List String}
    (taken_iff : ∀ name, taken name = true ↔ name ∈ names) (stem : String) (number : Nat) :
    ∃ found, found ≤ number + names.length ∧ IsFirstFree names stem number found ∧
      firstFreeName taken stem number names.length = stem ++ toString found := by
  obtain ⟨found, later, bound, name, passed, last⟩ :=
    exists_firstFreeName taken stem number names.length
  have passedNames : ∀ other, number ≤ other → other < found → stem ++ toString other ∈ names :=
    fun other fromNumber earlier => (taken_iff _).mp (passed other fromNumber earlier)
  refine ⟨found, bound, ⟨later, fun listed => ?_, passedNames⟩, name⟩
  -- Otherwise the names up to the last attempt are all taken, which is one more than there are.
  have allUsed := last ((taken_iff _).mpr listed)
  let tried := (List.range' number (names.length + 1)).map fun other => stem ++ toString other
  have distinct : tried.Nodup := List.Nodup.map (injective_numbered stem) List.nodup_range'
  have inside : tried ⊆ names := by
    intro other member
    obtain ⟨tested, inRange, rfl⟩ := List.mem_map.mp member
    obtain ⟨fromNumber, below⟩ := List.mem_range'_1.mp inRange
    by_cases isLast : tested = found
    · exact isLast ▸ listed
    · exact passedNames tested fromNumber (by omega)
  have crowded : tried.length ≤ names.length := (List.subperm_of_subset distinct inside).length_le
  simp only [tried, List.length_map, List.length_range'] at crowded
  omega

/-- Whether an edit neither adds nor removes a node. -/
def Edit.isLocal : Edit → Bool
  | .deleteNode _ | .insertNode _ | .createNode _ => false
  | _ => true

namespace DialogueTree

/-! ## New nodes -/

theorem exists_freshId (tree : DialogueTree) :
    ∃ number, number ≤ 2 * tree.nodes.size + 1 ∧
      IsFirstFree tree.nodes.names "node_" (tree.nodes.size + 1) number ∧
      tree.freshId = "node_" ++ toString number := by
  obtain ⟨number, bound, first, name⟩ := exists_isFirstFree
    (fun _ => OrderedMap.contains_iff) "node_" (tree.nodes.size + 1)
  have size : tree.nodes.names.length = tree.nodes.size := List.length_map ..
  rw [size] at bound name
  exact ⟨number, by omega, first, name⟩

theorem freshId_not_mem (tree : DialogueTree) : tree.freshId ∉ tree.nodes.names := by
  obtain ⟨number, -, first, name⟩ := tree.exists_freshId
  exact name ▸ first.free

theorem contains_freshId (tree : DialogueTree) : tree.contains tree.freshId = false := by
  rw [← Bool.not_eq_true]
  exact fun stored => tree.freshId_not_mem (OrderedMap.contains_iff.mp stored)

theorem id_freshNode (id : String) (nodeType : NodeType) : (freshNode id nodeType).id = id := by
  cases nodeType <;> rfl

variable (tree : DialogueTree) (nodeType : NodeType)

/-- The new node becomes the start where none is named. -/
theorem heading_createNode :
    (tree.createNode nodeType).2.id = tree.id ∧ (tree.createNode nodeType).2.title = tree.title ∧
      (tree.createNode nodeType).2.start =
        if tree.start.isEmpty then tree.freshId else tree.start := by
  cases unnamed : tree.start.isEmpty <;> simp [createNode, withNode, unnamed]

theorem nodes_createNode :
    (tree.createNode nodeType).2.nodes =
      tree.nodes.insert tree.freshId (freshNode tree.freshId nodeType) := by
  cases unnamed : tree.start.isEmpty <;> simp [createNode, withNode, unnamed, id_freshNode]

theorem entries_createNode :
    (tree.createNode nodeType).2.nodes.entries =
      tree.nodes.entries ++ [entryOf (freshNode tree.freshId nodeType)] := by
  rw [nodes_createNode, entryOf, id_freshNode]
  exact OrderedMap.putIn_of_not_mem tree.freshId_not_mem _

theorem nodeList_createNode :
    (tree.createNode nodeType).2.nodeList =
      tree.nodeList ++ [freshNode tree.freshId nodeType] := by
  rw [nodeList, OrderedMap.values, entries_createNode, List.map_append]
  rfl

/-! ## Deleted nodes -/

variable {tree : DialogueTree} {edited : DialogueTree} {id : String} {removed : Node}

theorem deleteNode_of_start (isStart : id = tree.start) :
    tree.deleteNode id = (.error (.startNode id), tree) :=
  if_pos isStart

section NotStart

variable (notStart : id ≠ tree.start)

include notStart

theorem deleteNode_of_unknown (unknown : tree.get? id = none) :
    tree.deleteNode id = (.error (.unknownNode id), tree) := by
  rw [deleteNode, if_neg notStart, unknown]

theorem deleteNode_of_stored (found : tree.get? id = some removed) :
    tree.deleteNode id = (.ok removed, { tree with
      nodes := (tree.nodes.erase id).mapValues (Node.mapSlots (clearSlot id)) }) := by
  rw [deleteNode, if_neg notStart, found]

end NotStart

theorem of_deleteNode (deleted : tree.deleteNode id = (.ok removed, edited)) :
    id ≠ tree.start ∧ tree.get? id = some removed ∧
      edited = { tree with
        nodes := (tree.nodes.erase id).mapValues (Node.mapSlots (clearSlot id)) } := by
  by_cases isStart : id = tree.start
  · rw [deleteNode_of_start isStart] at deleted
    cases deleted
  · cases found : tree.get? id with
    | none =>
        rw [deleteNode_of_unknown isStart found] at deleted
        cases deleted
    | some node =>
        rw [deleteNode_of_stored isStart found] at deleted
        cases deleted
        exact ⟨isStart, rfl, rfl⟩

theorem entries_deleteNode (deleted : tree.deleteNode id = (.ok removed, edited)) :
    edited.nodes.entries = (tree.nodes.entries.filter fun entry => entry.1 ≠ id).map
      fun entry => (entry.1, entry.2.mapSlots (clearSlot id)) := by
  obtain ⟨-, -, rfl⟩ := of_deleteNode deleted
  rfl

private theorem id_mapSlots (change : Slot → Slot) (node : Node) :
    (node.mapSlots change).id = node.id := by
  obtain ⟨id, speaker, kind⟩ := node
  cases kind <;> rfl

/-- Where the nodes are stored under their ids, those that are left are the others, cleared. -/
theorem forall_nodes_deleteNode {property : Node → Prop} (ownIds : tree.HasOwnIds)
    (deleted : tree.deleteNode id = (.ok removed, edited)) :
    (∀ entry ∈ edited.nodes.entries, entry.1 = entry.2.id ∧ property entry.2) ↔
      ∀ node ∈ tree.nodeList, node.id ≠ id → property (node.mapSlots (clearSlot id)) := by
  rw [entries_deleteNode deleted, List.forall_mem_map, nodeList, OrderedMap.values,
    List.forall_mem_map]
  constructor
  · intro left entry listed other
    have name := ownIds entry listed
    have kept : entry ∈ tree.nodes.entries.filter fun entry => entry.1 ≠ id :=
      List.mem_filter.mpr ⟨listed, by simpa [name] using other⟩
    exact (left entry kept).2
  · intro each entry kept
    obtain ⟨listed, other⟩ := List.mem_filter.mp kept
    have name := ownIds entry listed
    refine ⟨name.trans (id_mapSlots _ _).symm, each entry listed ?_⟩
    simpa [name] using other

/-! ## Refused edits -/

/-- The outcomes of the edits that change one node: a refusal leaves the tree as it is, and otherwise
a stored node is replaced. -/
inductive RefusesOrReplaces (tree : DialogueTree) {α : Type} :
    Except EditError α × DialogueTree → Prop
  | refuses (error : EditError) : tree.RefusesOrReplaces (.error error, tree)
  | replaces (answer : α) {id : String} {node : Node} (stored : tree.get? id = some node)
      (other : Node) : tree.RefusesOrReplaces (.ok answer, tree.replaceNode id other)

theorem RefusesOrReplaces.answered {α : Type} {outcome : Except EditError α × DialogueTree}
    (either : tree.RefusesOrReplaces outcome) (give : α → EditAnswer) :
    tree.RefusesOrReplaces (answered give outcome) := by
  cases either with
  | refuses error => exact .refuses error
  | replaces answer stored other => exact .replaces (give answer) stored other

private theorem get?_of_decision {node : Node} {choices : List Choice}
    (found : tree.decision id = .ok (node, choices)) : tree.get? id = some node := by
  unfold decision at found
  cases stored : tree.get? id with
  | none =>
      rw [stored] at found
      cases found
  | some other =>
      rw [stored] at found
      cases listed : other.choices? with
      | none => simp [listed] at found
      | some _ =>
          simp only [listed, Except.ok.injEq, Prod.mk.injEq] at found
          rw [found.1]

private theorem refusesOrReplaces_connect (source target : String) :
    tree.RefusesOrReplaces (tree.connect source target) := by
  unfold connect
  by_cases unknown : (!tree.contains target) = true
  · rw [if_pos unknown]
    exact .refuses _
  · rw [if_neg unknown]
    cases stored : tree.get? source with
    | none => exact .refuses _
    | some node =>
        dsimp only
        cases node.kind with
        | npc _ => exact .replaces _ stored _
        | player _ | conditional _ => exact .refuses _

private theorem refusesOrReplaces_connectChoice (id : String) (index : Nat) (target : String) :
    tree.RefusesOrReplaces (tree.connectChoice id index target) := by
  unfold connectChoice
  by_cases unknown : (!tree.contains target) = true
  · rw [if_pos unknown]
    exact .refuses _
  · rw [if_neg unknown]
    cases found : tree.decision id with
    | error error => exact .refuses error
    | ok decision =>
        dsimp only
        cases decision.2[index]? with
        | none => exact .refuses _
        | some choice => exact .replaces _ (get?_of_decision found) _

private theorem refusesOrReplaces_editChoices (id : String) (change : List Choice → List Choice) :
    tree.RefusesOrReplaces (tree.editChoices id change) := by
  unfold editChoices
  cases found : tree.decision id with
  | error error => exact .refuses error
  | ok decision => exact .replaces _ (get?_of_decision found) _

theorem refusesOrReplaces_perform {edit : Edit} (isLocal : edit.isLocal = true) :
    tree.RefusesOrReplaces (tree.perform edit) := by
  cases edit with
  | deleteNode _ | insertNode _ | createNode _ => cases isLocal
  | connect source target => exact (refusesOrReplaces_connect source target).answered _
  | connectChoice id index target =>
      exact (refusesOrReplaces_connectChoice id index target).answered _
  | addBlankChoice id =>
      rw [perform]
      cases tree.decision id with
      | error error => exact .refuses error
      | ok decision => exact (refusesOrReplaces_editChoices id _).answered _
  | addChoice id _ | removeChoice id _ | updateChoice id _ _ =>
      exact (refusesOrReplaces_editChoices id _).answered _

/-- An edit that is refused leaves the tree as it is. -/
theorem tree_of_refused {edit : Edit} {error : EditError}
    (refused : (tree.perform edit).1 = .error error) : (tree.perform edit).2 = tree := by
  by_cases isLocal : edit.isLocal = true
  · have either := @refusesOrReplaces_perform tree edit isLocal
    cases performed : tree.perform edit
    rw [performed] at either refused
    cases either with
    | refuses _ => rfl
    | replaces _ _ _ => cases refused
  · cases edit with
    | deleteNode id =>
        rw [perform] at refused ⊢
        by_cases isStart : id = tree.start
        · rw [deleteNode_of_start isStart]
          rfl
        · cases found : tree.get? id with
          | none =>
              rw [deleteNode_of_unknown isStart found]
              rfl
          | some removed =>
              rw [deleteNode_of_stored isStart found] at refused
              cases refused
    | insertNode node =>
        rw [perform, insertNode] at refused ⊢
        by_cases taken : tree.contains node.id = true
        · rw [if_pos taken]
          rfl
        · rw [if_neg taken] at refused
          cases refused
    | createNode nodeType => cases refused
    | _ => exact absurd rfl isLocal

end DialogueTree

end BranchingDialogue

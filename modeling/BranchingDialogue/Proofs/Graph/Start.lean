import BranchingDialogue.Proofs.Graph.Edit
import BranchingDialogue.Proofs.Keyed.Ordered

/-! A tree that has a start keeps it under every edit. A tree without nodes gets one from a new node
and from an inserted node whose id is empty. An inserted node with any other id does not become the
start, so that the tree has nodes and no start until that node is deleted again. -/

namespace BranchingDialogue

/-- Whether a node that an edit adds to a tree without nodes becomes its start. -/
def Edit.givesStart : Edit → Bool
  | .createNode _ => true
  | .insertNode node => node.id.isEmpty
  | _ => false

namespace DialogueTree

variable {tree edited : DialogueTree}

theorem contains_iff {name : String} : tree.contains name = true ↔ name ∈ tree.nodes.names :=
  OrderedMap.contains_iff

/-! ## One edit -/

/-- Whether two trees have the same start and the same names. -/
structure SameNames (tree edited : DialogueTree) : Prop where
  start : edited.start = tree.start
  names : ∀ name, name ∈ edited.nodes.names ↔ name ∈ tree.nodes.names

theorem SameNames.refl (tree : DialogueTree) : tree.SameNames tree :=
  ⟨rfl, fun _ => Iff.rfl⟩

/-- A node that is replaced keeps its name. -/
theorem sameNames_replaceNode {id : String} {node : Node} (stored : tree.get? id = some node)
    (other : Node) : tree.SameNames (tree.replaceNode id other) := by
  refine ⟨rfl, fun name => ?_⟩
  have present : id ∈ tree.nodes.names := contains_iff.mp (Option.isSome_iff_exists.mpr ⟨_, stored⟩)
  rw [replaceNode, OrderedMap.mem_names_insert]
  constructor
  · intro either
    exact either.elim (fun listed => listed) fun same => same ▸ present
  · exact Or.inl

private theorem RefusesOrReplaces.sameNames {α : Type} {outcome : Except EditError α × DialogueTree}
    (either : tree.RefusesOrReplaces outcome) : tree.SameNames outcome.2 := by
  cases either with
  | refuses _ => exact .refl tree
  | replaces _ stored other => exact sameNames_replaceNode stored other

def startAfter (tree : DialogueTree) : Edit → String
  | .createNode _ => if tree.start.isEmpty then tree.freshId else tree.start
  | _ => tree.start

def HasNameAfter (tree : DialogueTree) (name : String) : Edit → Prop
  | .deleteNode id => name ∈ tree.nodes.names ∧ (id = tree.start ∨ name ≠ id)
  | .insertNode node => name ∈ tree.nodes.names ∨ name = node.id
  | .createNode _ => name ∈ tree.nodes.names ∨ name = tree.freshId
  | _ => name ∈ tree.nodes.names

/-- What an edit does to the start and to the names of a tree. -/
structure NamesAfter (tree : DialogueTree) (edit : Edit) (edited : DialogueTree) : Prop where
  start : edited.start = tree.startAfter edit
  names : ∀ name, name ∈ edited.nodes.names ↔ tree.HasNameAfter name edit

private theorem namesAfter_deleteNode (tree : DialogueTree) (id : String) :
    tree.NamesAfter (.deleteNode id) (tree.afterEdit (.deleteNode id)) := by
  have after : tree.afterEdit (.deleteNode id) = (tree.deleteNode id).2 := rfl
  by_cases isStart : id = tree.start
  · rw [after, deleteNode_of_start isStart]
    exact ⟨rfl, fun name => (and_iff_left (Or.inl isStart)).symm⟩
  · cases found : tree.get? id with
    | none =>
        rw [after, deleteNode_of_unknown isStart found]
        refine ⟨rfl, fun name => ?_⟩
        rw [HasNameAfter, iff_self_and]
        intro listed
        refine Or.inr fun same => ?_
        obtain ⟨node, stored⟩ := Option.isSome_iff_exists.mp (contains_iff.mpr (same ▸ listed))
        cases found.symm.trans stored
    | some removed =>
        rw [after, deleteNode_of_stored isStart found]
        refine ⟨rfl, fun name => ?_⟩
        dsimp only
        rw [OrderedMap.names_mapValues, OrderedMap.mem_names_erase, HasNameAfter]
        simp [isStart]

private theorem namesAfter_insertNode (tree : DialogueTree) (node : Node) :
    tree.NamesAfter (.insertNode node) (tree.afterEdit (.insertNode node)) := by
  cases taken : tree.contains node.id with
  | true =>
      have reached : tree.afterEdit (.insertNode node) = tree := by
        simp [afterEdit, perform, answered, insertNode, taken]
      rw [reached]
      refine ⟨rfl, fun name => ?_⟩
      rw [HasNameAfter, iff_self_or]
      intro same
      exact same ▸ contains_iff.mp taken
  | false =>
      have reached : tree.afterEdit (.insertNode node) = tree.withNode node := by
        simp [afterEdit, perform, answered, insertNode, taken]
      rw [reached]
      exact ⟨rfl, fun name => OrderedMap.mem_names_insert node⟩

private theorem namesAfter_createNode (tree : DialogueTree) (nodeType : NodeType) :
    tree.NamesAfter (.createNode nodeType) (tree.afterEdit (.createNode nodeType)) := by
  have reached : tree.afterEdit (.createNode nodeType) = (tree.createNode nodeType).2 := rfl
  rw [reached]
  refine ⟨(tree.heading_createNode nodeType).2.2, fun name => ?_⟩
  rw [OrderedMap.names, entries_createNode, List.map_append, List.mem_append]
  simp [HasNameAfter, OrderedMap.names, entryOf, id_freshNode]

private theorem namesAfter_afterEdit (tree : DialogueTree) (edit : Edit) :
    tree.NamesAfter edit (tree.afterEdit edit) := by
  have same (isLocal : edit.isLocal = true) : tree.SameNames (tree.afterEdit edit) :=
    (refusesOrReplaces_perform isLocal).sameNames
  cases edit with
  | deleteNode id => exact tree.namesAfter_deleteNode id
  | insertNode node => exact tree.namesAfter_insertNode node
  | createNode nodeType => exact tree.namesAfter_createNode nodeType
  | _ => exact ⟨(same rfl).start, (same rfl).names⟩

/-! ## The start after one edit -/

/-- Whether a tree names no start, and has no node under the empty name. -/
def IsUnnamed (tree : DialogueTree) : Prop :=
  tree.start = "" ∧ "" ∉ tree.nodes.names

private theorem contains_start_afterEdit (hasStart : tree.contains tree.start = true)
    (edit : Edit) : (tree.afterEdit edit).contains (tree.afterEdit edit).start = true := by
  obtain ⟨start, names⟩ := tree.namesAfter_afterEdit edit
  rw [contains_iff] at hasStart
  rw [contains_iff, start, names]
  cases edit with
  | deleteNode id =>
      refine ⟨hasStart, ?_⟩
      by_cases isStart : id = tree.start
      · exact Or.inl isStart
      · exact Or.inr (Ne.symm isStart)
  | insertNode node => exact Or.inl hasStart
  | createNode nodeType =>
      rw [startAfter, HasNameAfter]
      by_cases unnamed : tree.start.isEmpty = true
      · rw [if_pos unnamed]
        exact Or.inr rfl
      · rw [if_neg unnamed]
        exact Or.inl hasStart
  | _ => exact hasStart

private theorem contains_start_of_givesStart (unnamed : tree.IsUnnamed) {edit : Edit}
    (gives : edit.givesStart = true) :
    (tree.afterEdit edit).contains (tree.afterEdit edit).start = true := by
  obtain ⟨start, names⟩ := tree.namesAfter_afterEdit edit
  rw [contains_iff, start, names]
  cases edit with
  | createNode nodeType =>
      rw [startAfter, unnamed.1, HasNameAfter]
      exact Or.inr rfl
  | insertNode node =>
      exact Or.inr (unnamed.1.trans (String.isEmpty_iff.mp gives).symm)
  | _ => cases gives

theorem IsUnnamed.afterEdit (unnamed : tree.IsUnnamed) {edit : Edit}
    (givesNone : edit.givesStart = false) : (tree.afterEdit edit).IsUnnamed := by
  obtain ⟨noStart, noNode⟩ := unnamed
  obtain ⟨start, names⟩ := tree.namesAfter_afterEdit edit
  rw [IsUnnamed, start, names]
  cases edit with
  | createNode nodeType => cases givesNone
  | deleteNode id => exact ⟨noStart, fun kept => noNode kept.1⟩
  | insertNode node =>
      refine ⟨noStart, fun either => ?_⟩
      apply either.elim noNode
      intro same
      rw [Edit.givesStart, ← same] at givesNone
      cases givesNone
  | _ => exact ⟨noStart, noNode⟩

/-! ## The start after a sequence of edits -/

private theorem contains_start_afterEdits (hasStart : tree.contains tree.start = true)
    (edits : List Edit) :
    (tree.afterEdits edits).contains (tree.afterEdits edits).start = true := by
  induction edits generalizing tree with
  | nil => exact hasStart
  | cons edit edits inductionHypothesis =>
      exact inductionHypothesis (contains_start_afterEdit hasStart edit)

/-- A tree that names no start has one after some edits exactly when one of them gives it. -/
theorem IsUnnamed.contains_start_iff (unnamed : tree.IsUnnamed) (edits : List Edit) :
    (tree.afterEdits edits).contains (tree.afterEdits edits).start = true ↔
      ∃ edit ∈ edits, edit.givesStart = true := by
  induction edits generalizing tree with
  | nil =>
      obtain ⟨noStart, noNode⟩ := unnamed
      rw [afterEdits, List.foldl_nil, contains_iff, noStart]
      simp [noNode]
  | cons edit edits inductionHypothesis =>
      rw [List.exists_mem_cons_iff]
      cases gives : edit.givesStart with
      | true =>
          apply iff_of_true _ (Or.inl rfl)
          exact contains_start_afterEdits (contains_start_of_givesStart unnamed gives) edits
      | false =>
          refine (inductionHypothesis (unnamed.afterEdit gives)).trans ?_
          simp

/-- Whether edits insert a node under a name, and delete none under it later. -/
def InsertsForGood (edits : List Edit) (name : String) : Prop :=
  ∃ before node after, edits = before ++ .insertNode node :: after ∧ node.id = name ∧
    .deleteNode name ∉ after

private theorem insertsForGood_cons_iff {edit : Edit} {edits : List Edit} {name : String} :
    InsertsForGood (edit :: edits) name ↔
      (∃ node, edit = .insertNode node ∧ node.id = name ∧ .deleteNode name ∉ edits) ∨
        InsertsForGood edits name := by
  constructor
  · rintro ⟨before, node, after, split, named, kept⟩
    cases before with
    | nil =>
        cases split
        exact Or.inl ⟨node, rfl, named, kept⟩
    | cons first before =>
        cases split
        exact Or.inr ⟨before, node, after, rfl, named, kept⟩
  · rintro (⟨node, rfl, named, kept⟩ | ⟨before, node, after, rfl, named, kept⟩)
    · exact ⟨[], node, edits, rfl, named, kept⟩
    · exact ⟨edit :: before, node, after, rfl, named, kept⟩

/-- The names in a tree without start after edits that give it none. -/
theorem IsUnnamed.mem_names_afterEdits_iff (unnamed : tree.IsUnnamed) {edits : List Edit}
    (givesNone : ∀ edit ∈ edits, edit.givesStart = false) {name : String} :
    name ∈ (tree.afterEdits edits).nodes.names ↔
      name ∈ tree.nodes.names ∧ .deleteNode name ∉ edits ∨ InsertsForGood edits name := by
  induction edits generalizing tree with
  | nil => simp [afterEdits, InsertsForGood]
  | cons edit edits inductionHypothesis =>
      obtain ⟨here, others⟩ := List.forall_mem_cons.mp givesNone
      have run := inductionHypothesis (unnamed.afterEdit here) others
      rw [afterEdits, List.foldl_cons, insertsForGood_cons_iff, ← afterEdits, run,
        (tree.namesAfter_afterEdit edit).names]
      cases edit with
      | createNode nodeType => cases here
      | deleteNode id =>
          have apart : name ∈ tree.nodes.names → (id = tree.start ∨ name ≠ id ↔ name ≠ id) := by
            intro listed
            rw [or_iff_right_iff_imp]
            rintro rfl rfl
            exact unnamed.2 (unnamed.1 ▸ listed)
          rw [HasNameAfter, and_congr_right_iff.mpr apart]
          simp [and_assoc]
      | insertNode node =>
          rw [HasNameAfter]
          simp [or_and_right, or_assoc, eq_comm]
      | _ => simp [HasNameAfter]

/-- Whether a tree has no nodes, or a node under the name of its start. -/
def IsRooted (tree : DialogueTree) : Prop :=
  tree.isEmpty = true ∨ tree.contains tree.start = true

instance (tree : DialogueTree) : Decidable tree.IsRooted :=
  inferInstanceAs (Decidable (tree.isEmpty = true ∨ tree.contains tree.start = true))

/-- From a tree with a start, or without nodes and without the name of a start, edits lead to a tree
without nodes or with a start exactly when there was a start at first, or an edit gives one, or all
inserted nodes are deleted later. -/
theorem isRooted_afterEdits_iff (edits : List Edit)
    (begins : tree.isEmpty = true ∧ tree.start = "" ∨ tree.contains tree.start = true) :
    (tree.afterEdits edits).IsRooted ↔
      tree.contains tree.start = true ∨ (∃ edit ∈ edits, edit.givesStart = true) ∨
        ∀ before node after, edits = before ++ .insertNode node :: after →
          .deleteNode node.id ∈ after := by
  by_cases hasStart : tree.contains tree.start = true
  · exact iff_of_true (Or.inr (contains_start_afterEdits hasStart edits)) (Or.inl hasStart)
  · obtain ⟨noNodes, noStart⟩ := begins.resolve_right hasStart
    have noNames : ∀ name, name ∉ tree.nodes.names := OrderedMap.isEmpty_iff.mp noNodes
    have unnamed : tree.IsUnnamed := ⟨noStart, noNames ""⟩
    rw [IsRooted, unnamed.contains_start_iff, or_iff_right hasStart]
    by_cases given : ∃ edit ∈ edits, edit.givesStart = true
    · exact iff_of_true (Or.inr given) (Or.inl given)
    · rw [or_iff_left given, or_iff_right given]
      have givesNone : ∀ edit ∈ edits, edit.givesStart = false := by simpa using given
      rw [isEmpty, OrderedMap.isEmpty_iff]
      simp only [unnamed.mem_names_afterEdits_iff givesNone, noNames, false_and, false_or,
        InsertsForGood, not_exists, not_and, not_not]
      constructor
      · intro gone before node after split
        exact gone node.id before node after split rfl
      · rintro gone name before node after split rfl
        exact gone before node after split

/-- A dialogue to which no node has been added yet. -/
def emptyInn : DialogueTree :=
  bare "inn" "The inn" ""

/-- Its first node does not become the start, but the next one that is made does. -/
def innEdits : List Edit :=
  [.insertNode (.npc "door" "Knock."), .connect "door" "hearth", .createNode .player,
    .deleteNode "node_2"]

theorem isRooted_after_innEdits :
    emptyInn.isEmpty = true ∧ emptyInn.start = "" ∧ (emptyInn.afterEdits innEdits).IsRooted := by
  have begins : emptyInn.isEmpty = true ∧ emptyInn.start = "" := ⟨rfl, rfl⟩
  have gives : ∃ edit ∈ innEdits, edit.givesStart = true := by decide
  exact ⟨begins.1, begins.2,
    (isRooted_afterEdits_iff innEdits (Or.inl begins)).mpr (Or.inr (Or.inl gives))⟩

/-- A tree without nodes has one after an insertion, and still no start. -/
theorem no_start_after_insertion :
    emptyInn.isEmpty = true ∧ emptyInn.start = "" ∧
      ¬ (emptyInn.afterEdits [.insertNode (.npc "door" "Knock.")]).IsRooted := by
  decide

end DialogueTree

end BranchingDialogue

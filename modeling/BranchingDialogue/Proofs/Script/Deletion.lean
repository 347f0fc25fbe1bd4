import BranchingDialogue.Proofs.Graph.Edit
import BranchingDialogue.Proofs.Script.Survival

/-! A deletion empties the slots that named the deleted node. What it leaves survives saving, unless
a speech with blocks had nothing else besides them: blocks that stand alone are read as a node of
another kind. -/

namespace BranchingDialogue

open DialogueTree Script

/-- Whether a speech has blocks and nothing besides them but its way to a target. -/
def Speech.RestsOn (speech : Speech) (target : String) : Prop :=
  speech.blocks ≠ none ∧ speech.content = "" ∧ speech.raises = none ∧ speech.next = some target

instance (speech : Speech) (target : String) : Decidable (speech.RestsOn target) :=
  inferInstanceAs (Decidable (speech.blocks ≠ none ∧ speech.content = "" ∧ speech.raises = none ∧
    speech.next = some target))

/-- Whether a node is a speech that rests on a target. -/
def Node.RestsOn (node : Node) (target : String) : Prop :=
  match node.kind with
  | .npc speech => speech.RestsOn target
  | .player _ => False
  | .conditional _ => False

instance (target : String) : DecidablePred fun node : Node => node.RestsOn target
  | ⟨_, _, .npc speech⟩ => inferInstanceAs (Decidable (speech.RestsOn target))
  | ⟨_, _, .player _⟩ => inferInstanceAs (Decidable False)
  | ⟨_, _, .conditional _⟩ => inferInstanceAs (Decidable False)

/-! ## Cleared slots -/

private theorem clearSlot_eq_none_iff {id : String} {slot : Slot} :
    clearSlot id slot = none ↔ slot = none ∨ slot = some id := by
  unfold clearSlot
  split
  · rename_i same
    exact iff_of_true rfl (Or.inr same)
  · rename_i other
    exact ⟨Or.inl, fun either => either.resolve_right other⟩

theorem Slot.Scriptable.clear {slot : Slot} (scriptable : slot.Scriptable) (id : String) :
    Slot.Scriptable (clearSlot id slot) := by
  unfold clearSlot
  split
  · rintro target ⟨⟩
  · exact scriptable

def Block.mapSlot (change : Slot → Slot) (block : Block) : Block :=
  { block with next := change block.next }

theorem Block.Scriptable.clear {block : Block} (scriptable : block.Scriptable) (id : String) :
    (block.mapSlot (clearSlot id)).Scriptable :=
  ⟨scriptable.conditions, scriptable.content, scriptable.speaker, scriptable.next.clear id⟩

private theorem continuesGroup_map (change : Slot → Slot) (blocks : List Block) :
    continuesGroup (blocks.map (Block.mapSlot change)) = continuesGroup blocks := by
  induction blocks with
  | nil => rfl
  | cons block blocks inductionHypothesis =>
      rw [List.map_cons, continuesGroup, continuesGroup, inductionHypothesis]
      simp [Block.mapSlot]

private theorem isGroup_map (change : Slot → Slot) (blocks : List Block) :
    isGroup (blocks.map (Block.mapSlot change)) = isGroup blocks := by
  cases blocks with
  | nil => rfl
  | cons block blocks =>
      rw [List.map_cons, isGroup, isGroup, continuesGroup_map]
      rfl

private theorem forall_scriptable_map {blocks : List Block}
    (scriptable : ∀ block ∈ blocks, block.Scriptable) (id : String) :
    ∀ block ∈ blocks.map (Block.mapSlot (clearSlot id)), block.Scriptable := by
  intro block listed
  obtain ⟨origin, originListed, rfl⟩ := List.mem_map.mp listed
  exact (scriptable origin originListed).clear id

/-! ## Nodes -/

theorem Choice.Scriptable.clear {choice : Choice} (scriptable : choice.Scriptable) (id : String) :
    ({ choice with next := clearSlot id choice.next } : Choice).Scriptable :=
  ⟨scriptable.text, scriptable.open_end, scriptable.conditions, scriptable.raises,
    scriptable.next.clear id⟩

def Speech.mapSlots (change : Slot → Slot) (speech : Speech) : Speech :=
  { speech with
    next := change speech.next
    blocks := speech.blocks.map fun blocks => blocks.map (Block.mapSlot change) }

/-- A scriptable speech stays scriptable without a target, unless it rests on it. -/
theorem Speech.scriptable_mapSlots_iff {speaker : Option String} {speech : Speech}
    (scriptable : speech.Scriptable speaker) (id : String) :
    (speech.mapSlots (clearSlot id)).Scriptable speaker ↔ ¬ speech.RestsOn id := by
  constructor
  · rintro cleared ⟨hasBlocks, noContent, noRaises, rests⟩
    obtain ⟨blocks, blocksEq⟩ := Option.ne_none_iff_exists'.mp hasBlocks
    have listed : (speech.mapSlots (clearSlot id)).blocks =
        some (blocks.map (Block.mapSlot (clearSlot id))) := by
      rw [mapSlots, blocksEq, Option.map_some]
    rcases (cleared.blocks _ listed).2.2 with hasContent | hasRaises | hasNext
    · exact hasContent noContent
    · exact hasRaises noRaises
    · exact hasNext (clearSlot_eq_none_iff.mpr (Or.inr rests))
  · intro apart
    refine ⟨scriptable.content, scriptable.speaker, scriptable.next.clear id, scriptable.raises, ?_⟩
    intro after afterEq
    obtain ⟨blocks, blocksEq, rfl⟩ := Option.map_eq_some_iff.mp afterEq
    obtain ⟨group, blocksScriptable, besides⟩ := scriptable.blocks blocks blocksEq
    refine ⟨(isGroup_map _ blocks).trans group, forall_scriptable_map blocksScriptable id, ?_⟩
    by_cases noContent : speech.content = ""
    · by_cases noRaises : speech.raises = none
      · have hasNext : speech.next ≠ none :=
          (besides.resolve_left (not_not.mpr noContent)).resolve_left (not_not.mpr noRaises)
        refine Or.inr (Or.inr fun noNext => ?_)
        have rests := (clearSlot_eq_none_iff.mp noNext).resolve_left hasNext
        exact apart ⟨Option.ne_none_iff_exists'.mpr ⟨blocks, blocksEq⟩, noContent, noRaises, rests⟩
      · exact Or.inr (Or.inl noRaises)
    · exact Or.inl noContent

/-- A scriptable node stays scriptable without one of its targets, unless it rests on that target. -/
theorem Node.scriptable_mapSlots_iff {node : Node} (scriptable : node.Scriptable) (id : String) :
    (node.mapSlots (clearSlot id)).Scriptable ↔ ¬ node.RestsOn id := by
  obtain ⟨name, speaker, kind⟩ := node
  obtain ⟨label, ofKind⟩ := scriptable
  cases kind with
  | npc speech =>
      have ofSpeech := Speech.scriptable_mapSlots_iff ofKind id
      exact ⟨fun cleared => ofSpeech.mp cleared.2, fun apart => ⟨label, ofSpeech.mpr apart⟩⟩
  | player choices =>
      obtain ⟨labels, filled, numbered, choicesScriptable⟩ := ofKind
      refine iff_of_true ⟨label, labels, by simpa using filled, ?_, ?_⟩ not_false
      · rw [List.map_map, List.length_map]
        exact numbered
      · intro choice listed
        obtain ⟨origin, originListed, rfl⟩ := List.mem_map.mp listed
        exact (choicesScriptable origin originListed).clear id
  | conditional blocks =>
      obtain ⟨labels, group, blocksScriptable⟩ := ofKind
      exact iff_of_true
        ⟨label, labels, (isGroup_map _ blocks).trans group,
          forall_scriptable_map blocksScriptable id⟩ not_false

/-! ## Trees -/

namespace DialogueTree

variable {tree edited : DialogueTree} {id : String} {removed : Node}

/-- What a deletion leaves of a tree survives saving exactly when no other node rests on the deleted
one. -/
theorem survives_deleteNode_iff (survives : tree.Survives)
    (deleted : tree.deleteNode id = (.ok removed, edited)) :
    edited.Survives ↔ ∀ node ∈ tree.nodeList, node.id ≠ id → ¬ node.RestsOn id := by
  obtain ⟨notStart, found, editedEq⟩ := of_deleteNode deleted
  have filled : tree.nodeList ≠ [] :=
    List.ne_nil_of_mem (List.mem_map_of_mem (mem_of_lookup found))
  have scriptable := (survives_iff filled).mp survives
  have ownIds : tree.HasOwnIds := fun entry listed => (scriptable.nodes entry listed).1
  obtain ⟨startNode, startFound⟩ := Option.isSome_iff_exists.mp scriptable.start
  have startKept : (tree.start, startNode.mapSlots (clearSlot id)) ∈ edited.nodes.entries := by
    rw [entries_deleteNode deleted]
    refine List.mem_map.mpr ⟨(tree.start, startNode), List.mem_filter.mpr ⟨?_, ?_⟩, rfl⟩
    · exact mem_of_lookup startFound
    · simpa using Ne.symm notStart
  have start : edited.contains edited.start = true := by
    have sameStart : edited.start = tree.start := by rw [editedEq]
    rw [sameStart]
    exact Option.isSome_iff_exists.mpr
      ⟨_, lookup_of_mem edited.nodes.distinct startKept⟩
  have editedFilled : edited.nodeList ≠ [] := List.ne_nil_of_mem (List.mem_map_of_mem startKept)
  have nodes := @forall_nodes_deleteNode _ _ _ _ Node.Scriptable ownIds deleted
  rw [survives_iff editedFilled]
  constructor
  · intro editedScriptable node listed other
    have cleared := nodes.mp editedScriptable.nodes node listed other
    exact (Node.scriptable_mapSlots_iff (scriptable_of_mem scriptable node listed) id).mp cleared
  · intro apart
    have labels : IsLabel edited.id ∧ IsLabel edited.title := by
      rw [editedEq]
      exact ⟨scriptable.id, scriptable.title⟩
    refine ⟨labels.1, labels.2, start, nodes.mpr fun node listed other => ?_⟩
    exact (Node.scriptable_mapSlots_iff (scriptable_of_mem scriptable node listed) id).mpr
      (apart node listed other)

/-- A guard who says different things and sends the player on. -/
def guardTree : DialogueTree :=
  (bare "guard" "guard" "guard").withNodes
    [ { id := "guard"
        kind := .npc
          { next := some "gate"
            blocks := some
              [ { kind := .«if»
                  conditions := [.isSet "met"]
                  content := "You again."
                  next := some "inn" } ] } },
      .npc "gate" "The gate is open.",
      .npc "inn" "A warm room." ]

theorem survives_guardTree_without_inn :
    ∃ removed edited, guardTree.Survives ∧ guardTree.deleteNode "inn" = (.ok removed, edited) ∧
      edited.Survives := by
  have survives : guardTree.Survives := ⟨by decide +kernel, by decide +kernel⟩
  obtain ⟨edited, deleted⟩ : ∃ edited,
      guardTree.deleteNode "inn" = (.ok (.npc "inn" "A warm room."), edited) := ⟨_, rfl⟩
  exact ⟨_, edited, survives, deleted,
    (survives_deleteNode_iff survives deleted).mpr (by decide +kernel)⟩

/-- Without the gate the guard is read as a group of blocks. -/
theorem guard_lost_without_gate :
    ∃ removed edited, guardTree.Survives ∧ guardTree.deleteNode "gate" = (.ok removed, edited) ∧
      ¬ edited.Survives := by
  have survives : guardTree.Survives := ⟨by decide +kernel, by decide +kernel⟩
  refine ⟨_, _, survives, rfl, fun editedSurvives => ?_⟩
  exact absurd editedSurvives.same (by decide +kernel)

end DialogueTree

end BranchingDialogue

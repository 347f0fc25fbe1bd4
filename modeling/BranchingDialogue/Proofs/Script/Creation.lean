import BranchingDialogue.Proofs.Graph.Edit
import BranchingDialogue.Proofs.Script.Survival

/-! A new speech is read back from the script of its tree. A new decision and a new group of blocks
are not: the strict reading stops at the line of the choice without text, and at the `else` that no
`if` goes before. -/

namespace BranchingDialogue

open DialogueTree Script Text

/-! ## Names of new nodes -/

private theorem isLabel_freshId (tree : DialogueTree) : IsLabel tree.freshId := by
  obtain ⟨number, -, -, name⟩ := tree.exists_freshId
  have text : tree.freshId.toList = "node_".toList ++ Nat.toDigits 10 number := by
    rw [name, Nat.toString_eq_ofList_toDigits]
    simp
  have stem : ∀ character ∈ "node_".toList, isBlank character = false := by decide
  have shown : ∀ character ∈ tree.freshId.toList, isBlank character = false := by
    rw [text]
    intro character member
    rcases List.mem_append.mp member with inStem | inDigits
    · exact stem character inStem
    · exact isBlank_of_isDigit (Nat.isDigit_of_mem_toDigits (by decide) (by decide) inDigits)
  refine ⟨by simp [text], trimmed_of_forall shown, fun feed => ?_⟩
  cases shown '\n' feed

/-! ## Trees that survive saving -/

namespace DialogueTree

variable {tree : DialogueTree}

private theorem Survives.forall_scriptable (survives : tree.Survives) :
    ∀ node ∈ tree.nodeList, node.Scriptable := by
  intro node listed
  exact scriptable_of_mem ((survives_iff (List.ne_nil_of_mem listed)).mp survives) node listed

private theorem Survives.hasOwnIds (survives : tree.Survives) : tree.HasOwnIds := by
  intro entry listed
  have filled : tree.nodeList ≠ [] := List.ne_nil_of_mem (List.mem_map_of_mem listed)
  exact (((survives_iff filled).mp survives).nodes entry listed).1

private theorem start_eq_of_empty {mode : Mode} {script : List Char}
    (parsed : read mode script = .ok tree) (empty : tree.nodeList = []) : tree.start = "" := by
  obtain ⟨nodes, gathered, rfl⟩ := exists_of_read parsed
  rw [nodeList_tree _ gathered.distinct] at empty
  subst empty
  cases told : (Preamble.ofLines (numberedLines script)).start <;>
    simp [Preamble.tree, told, withNodes, bare]

/-- The names of a tree that survives saving are labels or empty. -/
theorem Survives.names (survives : tree.Survives) :
    (tree.start ≠ "" → IsLabel tree.start) ∧ (tree.id ≠ "" → IsLabel tree.id) ∧
      (tree.title ≠ "" → IsLabel tree.title) := by
  have parsed : Script.read .lenient (write tree) = .ok tree := by
    rw [read_lenient, survives.same]
  have start : tree.start ≠ "" → IsLabel tree.start := by
    intro named
    have filled : tree.nodeList ≠ [] := fun empty => named (start_eq_of_empty parsed empty)
    exact isLabel_start ((survives_iff filled).mp survives).sound
  have others := @names_of_read _ _ _ (fun name => name ≠ "" → IsLabel name) parsed
    (fun _ label _ => label) start
  exact ⟨start, others⟩

/-- The script of a tree with a new node keeps its sections, if the new one keeps its own. -/
theorem Survives.keepsSections_createNode (survives : tree.Survives) {nodeType : NodeType}
    (keeps : (freshNode tree.freshId nodeType).KeepsSection) :
    (tree.createNode nodeType).2.KeepsSections := by
  obtain ⟨sameId, sameTitle, start⟩ := heading_createNode tree nodeType
  obtain ⟨startLabel, id, title⟩ := survives.names
  refine ⟨sameId ▸ id, sameTitle ▸ title, ?_, ?_⟩
  · rw [start]
    split
    · exact isLabel_freshId tree
    · rename_i named
      exact startLabel fun empty => named (by rw [empty]; rfl)
  · rw [nodeList_createNode]
    intro node listed
    rcases List.mem_append.mp listed with old | new
    · exact (survives.forall_scriptable node old).sound.keepsSection
    · rw [List.mem_singleton.mp new]
      exact keeps

private theorem hasOwnIds_createNode (ownIds : tree.HasOwnIds) (nodeType : NodeType) :
    (tree.createNode nodeType).2.HasOwnIds := by
  unfold HasOwnIds
  rw [entries_createNode]
  intro entry listed
  rcases List.mem_append.mp listed with old | new
  · exact ownIds entry old
  · rw [List.mem_singleton.mp new]
    rfl

end DialogueTree

/-! ## Sections of new nodes -/

namespace Script

variable {id : String} {nodeType : NodeType}

/-- The lines of the body of a new node. -/
def freshBody : NodeType → List (List Char)
  | .npc => []
  | .player => ["-> ".toList]
  | .conditional => [markup "else" [], markup "endif" []]

private theorem writeBody_freshNode (id : String) (nodeType : NodeType) :
    writeBody (freshNode id nodeType) = freshBody nodeType := by
  cases nodeType <;> rfl

private theorem headingSpeaker_freshNode (id : String) (nodeType : NodeType) :
    headingSpeaker (freshNode id nodeType) = none := by
  cases nodeType <;> rfl

private theorem isSectionLine_freshBody {line : List Char} (listed : line ∈ freshBody nodeType) :
    IsSectionLine line := by
  cases nodeType with
  | npc => cases listed
  | player =>
      rw [List.mem_singleton.mp listed]
      exact ⟨⟨by decide, by decide⟩, by decide⟩
  | conditional =>
      rcases List.mem_cons.mp listed with rfl | isLast
      · exact (isSectionLine_markup (by decide) (by decide)).2
      · rw [List.mem_singleton.mp isLast]
        exact (isSectionLine_markup (by decide) (by decide)).2

private theorem keepsSection_freshNode (label : IsLabel id) (nodeType : NodeType) :
    (freshNode id nodeType).KeepsSection := by
  refine ⟨?_, ?_, ?_⟩
  · rw [id_freshNode]
    exact label
  · rw [headingSpeaker_freshNode]
    exact fun _ named => by cases named
  · rw [writeBody_freshNode]
    exact fun _ listed => isSectionLine_freshBody listed

private theorem addLine_blankChoice (id : List Char) :
    ({ id } : Draft).addLine "->".toList = none := by
  rfl

private theorem addLine_loneElse (id : List Char) :
    ({ id } : Draft).addLine (markup "else" []) = none := by
  rw [Draft.addLine_markup_eq _ (by decide) (by decide) trimmed_nil]
  rfl

private theorem addLine_loneEndif (id : List Char) :
    ({ id } : Draft).addLine (markup "endif" []) = some { id } := by
  rw [Draft.addLine_markup_eq _ (by decide) (by decide) trimmed_nil]
  rfl

/-- The lines of the body of a new node leave a draft as it is, and all but a speech have a line
that is not recognized. -/
theorem read_freshBody {body : List NumberedLine}
    (texts : body.map NumberedLine.text = (freshBody nodeType).map trim) (id : List Char) :
    Draft.passOver { id } body = { id } ∧
      (unrecognizedLines { id } body = [] ↔ nodeType = .npc) := by
  cases nodeType with
  | npc =>
      obtain rfl := List.map_eq_nil_iff.mp texts
      exact ⟨rfl, iff_of_true rfl rfl⟩
  | player =>
      obtain ⟨line, rest, rfl, textEq, restEq⟩ := List.map_eq_cons_iff.mp texts
      obtain rfl := List.map_eq_nil_iff.mp restEq
      have refused : ({ id } : Draft).addLine line.text = none := by
        rw [textEq]
        exact addLine_blankChoice id
      simp [Draft.passOver, unrecognizedLines, refused]
  | conditional =>
      obtain ⟨first, rest, rfl, firstEq, restEq⟩ := List.map_eq_cons_iff.mp texts
      obtain ⟨last, others, rfl, lastEq, othersEq⟩ := List.map_eq_cons_iff.mp restEq
      obtain rfl := List.map_eq_nil_iff.mp othersEq
      have refused : ({ id } : Draft).addLine first.text = none := by
        rw [firstEq]
        exact addLine_loneElse id
      have closed : ({ id } : Draft).addLine last.text = some { id } := by
        rw [lastEq]
        exact addLine_loneEndif id
      simp [Draft.passOver, unrecognizedLines, refused, closed]

/-- A new node is read as a new speech. Of a decision and of a group of blocks the line that makes
it one is not recognized. -/
theorem readSection_freshNode {part : Section} (written : IsWritten (freshNode id nodeType) part) :
    ∃ lost : List NumberedLine, (lost = [] ↔ nodeType = .npc) ∧
      ∀ mode, readSection mode part =
        mode.settle (lost.map (.unrecognized id.toList)) (some (freshNode id .npc)) := by
  obtain ⟨body, heading, texts⟩ := written
  rw [id_freshNode, headingSpeaker_freshNode] at heading
  rw [writeBody_freshNode] at texts
  obtain ⟨passed, refused⟩ := read_freshBody texts id.toList
  have node : ({ id := id.toList } : Draft).finish none = freshNode id .npc := by
    have same : String.ofList id.toList = id := String.ofList_toList
    unfold Draft.finish
    rw [same]
    rfl
  refine ⟨unrecognizedLines { id := id.toList } body, refused, fun mode => ?_⟩
  have own : part.ownDiscards =
      (unrecognizedLines { id := id.toList } body).map (.unrecognized id.toList) := by
    unfold Section.ownDiscards
    rw [heading]
  have found : part.node? = some (freshNode id .npc) := by
    unfold Section.node?
    rw [heading]
    show some ((Draft.passOver _ body).finish none) = _
    rw [passed, node]
  rw [readSection_eq_settle, own, found]

/-- The last node is written as the last section. -/
theorem exists_parts {nodes : List Node} {last : Node} {parts : List Section}
    (written : List.Forall₂ IsWritten (nodes ++ [last]) parts) :
    ∃ front part, parts = front ++ [part] ∧ List.Forall₂ IsWritten nodes front ∧
      IsWritten last part := by
  have divided := written.flip
  have front := (List.forall₂_take_append _ _ _ divided).flip
  have back := (List.forall₂_drop_append _ _ _ divided).flip
  obtain ⟨part, others, lastWritten, othersWritten, backEq⟩ := List.forall₂_cons_left_iff.mp back
  rw [List.forall₂_nil_left_iff.mp othersWritten] at backEq
  refine ⟨_, part, ?_, front, lastWritten⟩
  rw [← backEq, List.take_append_drop]

end Script

namespace DialogueTree

variable {tree : DialogueTree}

/-- The section of a new node is read after the others, whose ids are not its own. -/
theorem addSection_freshNode (ownIds : tree.HasOwnIds) {nodeType : NodeType} {part : Section}
    (written : IsWritten (freshNode tree.freshId nodeType) part) :
    ∃ lost : List NumberedLine, (lost = [] ↔ nodeType = .npc) ∧
      ∀ mode, addSection mode tree.nodeList part =
        mode.settle (lost.map (.unrecognized tree.freshId.toList))
          (tree.createNode .npc).2.nodeList := by
  obtain ⟨lost, nothingLost, sectionRead⟩ := readSection_freshNode written
  have free : (tree.nodeList.any fun other => other.id = (freshNode tree.freshId .npc).id) =
      false := by
    rw [id_freshNode, List.any_eq_false]
    intro other listed
    simp only [decide_eq_true_eq]
    intro same
    have taken := ownIds.contains_iff.mpr ⟨other, listed, same⟩
    rw [tree.contains_freshId] at taken
    cases taken
  refine ⟨lost, nothingLost, fun mode => ?_⟩
  unfold addSection
  rw [sectionRead mode, nodeList_createNode]
  conv_rhs => rw [← List.append_nil (lost.map _)]
  refine settle_bind ?_
  show (if (tree.nodeList.any fun other => other.id = _) = true then _ else _) = _
  rw [free]
  exact (settle_nil _).symm

/-- The sections of the old nodes are read as before, and the last one is that of the new node. -/
theorem Survives.readNodes_createNode (survives : tree.Survives) (nodeType : NodeType) :
    ∃ lost : List NumberedLine, (lost = [] ↔ nodeType = .npc) ∧
      ∀ mode, readNodes mode
          (sectionsFrom 1 (numberedLines (write (tree.createNode nodeType).2))) =
        mode.settle (lost.map (.unrecognized tree.freshId.toList))
          (tree.createNode .npc).2.nodeList := by
  have keeps := survives.keepsSections_createNode
    (keepsSection_freshNode (isLabel_freshId tree) nodeType)
  have written := sectionsFrom_write keeps (by rw [nodeList_createNode]; simp)
  rw [nodeList_createNode] at written
  obtain ⟨front, last, partsEq, oldWritten, newWritten⟩ := exists_parts written
  obtain ⟨lost, nothingLost, added⟩ := addSection_freshNode survives.hasOwnIds newWritten
  refine ⟨lost, nothingLost, fun mode => ?_⟩
  have oldRead : front.foldlM (addSection mode) [] = .ok tree.nodeList :=
    foldlM_addSection_of_isWritten mode oldWritten survives.forall_scriptable
      survives.hasOwnIds.nodup_ids
  unfold readNodes
  rw [partsEq, List.foldlM_append, oldRead]
  show ([last].foldlM (addSection mode) tree.nodeList) = _
  rw [List.foldlM_cons, added mode]
  exact bind_pure _

/-- Both readings of the script of a tree with a new node come from the tree with a new speech and
from the lines that make the new node something else. -/
theorem Survives.read_createNode (survives : tree.Survives) (nodeType : NodeType) :
    ∃ (lost : List NumberedLine) (result : DialogueTree), (lost = [] ↔ nodeType = .npc) ∧
      result.nodes = (tree.createNode .npc).2.nodes ∧
      ∀ mode, Script.read mode (write (tree.createNode nodeType).2) =
        mode.settle (lost.map (.unrecognized tree.freshId.toList)) result := by
  obtain ⟨lost, nothingLost, nodesRead⟩ := survives.readNodes_createNode nodeType
  have ownIds := hasOwnIds_createNode survives.hasOwnIds .npc
  let told := Preamble.ofLines (numberedLines (write (tree.createNode nodeType).2))
  refine ⟨lost, told.tree (tree.createNode .npc).2.nodeList, nothingLost, ?_, fun mode => ?_⟩
  · apply OrderedMap.ext_entries
    rw [entries_tree told ownIds.nodup_ids, ownIds.map_entryOf_nodeList]
  · unfold Script.read
    dsimp only
    rw [nodesRead mode, map_settle]

/-- The strict reading of the script of a tree with a new node gives the nodes of the tree back
exactly when the new one is a speech. Otherwise it stops in the body of the new node, which the
lenient reading takes for that of a speech. -/
theorem strict_createNode_iff (survives : tree.Survives) (nodeType : NodeType) :
    ((∃ result, Script.read .strict (write (tree.createNode nodeType).2) = .ok result ∧
        result.nodes = (tree.createNode nodeType).2.nodes) ↔ nodeType = .npc) ∧
      (nodeType ≠ .npc → ∃ line text,
        Script.read .strict (write (tree.createNode nodeType).2) =
          .error (.unrecognizedLine tree.freshId line text)) ∧
      (readLeniently (write (tree.createNode nodeType).2)).nodes =
        (tree.createNode .npc).2.nodes := by
  obtain ⟨lost, result, nothingLost, nodes, bothRead⟩ := survives.read_createNode nodeType
  have refused : nodeType ≠ .npc → ∃ line text,
      Script.read .strict (write (tree.createNode nodeType).2) =
        .error (.unrecognizedLine tree.freshId line text) := by
    intro other
    obtain ⟨first, others, lostEq⟩ := List.exists_cons_of_ne_nil (mt nothingLost.mp other)
    refine ⟨first.number, String.ofList first.text, ?_⟩
    rw [bothRead .strict, lostEq]
    show Except.error (ScriptError.unrecognizedLine (String.ofList _) _ _) = _
    rw [String.ofList_toList]
  refine ⟨⟨?_, ?_⟩, refused, ?_⟩
  · rintro ⟨found, accepted, -⟩
    by_contra other
    obtain ⟨line, text, stopped⟩ := refused other
    rw [stopped] at accepted
    cases accepted
  · intro speech
    refine ⟨result, ?_, ?_⟩
    · rw [bothRead .strict, nothingLost.mpr speech]
      rfl
    · rw [speech]
      exact nodes
  · unfold readLeniently
    rw [bothRead .lenient]
    exact nodes

def doorTree : DialogueTree :=
  (bare "door" "door" "door").withNodes [.npc "door" "Knock."]

theorem strict_createNode_doorTree :
    doorTree.Survives ∧ ∃ result,
      Script.read .strict (write (doorTree.createNode .npc).2) = .ok result ∧
        result.nodes = (doorTree.createNode .npc).2.nodes := by
  have survives : doorTree.Survives := ⟨by decide +kernel, by decide +kernel⟩
  exact ⟨survives, (strict_createNode_iff survives .npc).1.mpr rfl⟩

/-- The scripts with a new decision and with a new group of blocks are both refused. -/
theorem new_decision_refused :
    doorTree.Survives ∧
      Script.read .strict (write (doorTree.createNode .player).2) =
        .error (.unrecognizedLine "node_2" 12 "->") ∧
      Script.read .strict (write (doorTree.createNode .conditional).2) =
        .error (.unrecognizedLine "node_2" 12 "<<else>>") := by
  refine ⟨⟨?_, ?_⟩, ?_, ?_⟩ <;> decide +kernel

end DialogueTree

end BranchingDialogue

import BranchingDialogue.Proofs.Script.Written

/-! A scriptable tree is read back from its script, in the lenient and in the strict reading, with
its nodes in the same order. -/

namespace BranchingDialogue.Script

open Text

variable {tree : DialogueTree}

private theorem readSection_of_isWritten (mode : Mode) {node : Node} (scriptable : node.Scriptable)
    {part : Section} (written : IsWritten node part) :
    readSection mode part = .ok (some node) := by
  obtain ⟨body, heading, bodyEq⟩ := written
  obtain ⟨draft, read, finished⟩ := exists_draft_writeBody scriptable
  rw [← bodyEq] at read
  unfold readSection
  rw [heading]
  dsimp only
  rw [readBody_of_addLines mode read]
  show Except.ok (some (draft.finish _)) = _
  rw [finished]

theorem foldlM_addSection_of_isWritten (mode : Mode) {nodes done : List Node}
    {parts : List Section} (written : List.Forall₂ IsWritten nodes parts)
    (scriptable : ∀ node ∈ nodes, node.Scriptable)
    (distinct : ((done ++ nodes).map Node.id).Nodup) :
    parts.foldlM (addSection mode) done = .ok (done ++ nodes) := by
  induction written generalizing done with
  | nil =>
      rw [List.append_nil]
      rfl
  | @cons node part nodes parts nodeWritten _ inductionHypothesis =>
      obtain ⟨nodeScriptable, othersScriptable⟩ := List.forall_mem_cons.mp scriptable
      have fresh : (done.any fun other => other.id = node.id) = false := by
        rw [List.any_eq_false]
        intro other member
        rw [List.map_append, List.nodup_append] at distinct
        simpa using distinct.2.2 other.id (List.mem_map_of_mem member) node.id (by simp)
      have added : addSection mode done part = .ok (done ++ [node]) := by
        unfold addSection
        rw [readSection_of_isWritten mode nodeScriptable nodeWritten]
        show (if (done.any fun other => other.id = node.id) = true then _ else _) = _
        rw [fresh]
        rfl
      have others :=
        @inductionHypothesis (done ++ [node]) othersScriptable (by simpa using distinct)
      rw [List.append_assoc, List.singleton_append] at others
      rw [List.foldlM_cons, added]
      exact others

theorem scriptable_of_mem (scriptable : tree.Scriptable) :
    ∀ node ∈ tree.nodeList, node.Scriptable := by
  intro node member
  obtain ⟨entry, listed, rfl⟩ := List.mem_map.mp member
  exact (scriptable.nodes entry listed).2

/-- A scriptable tree is read back from its script in every mode. -/
theorem read_write (scriptable : tree.Scriptable) (mode : Mode) :
    read mode (write tree) = .ok tree := by
  have sound := scriptable.sound
  have nodes : readNodes mode (sectionsFrom 1 (numberedLines (write tree))) = .ok tree.nodeList :=
    foldlM_addSection_of_isWritten mode
      (sectionsFrom_write sound.keepsSections (nodeList_ne_nil sound)) (scriptable_of_mem scriptable)
      (ownIds_of_sound sound).nodup_ids
  have named : tree.nodeList.any (fun node => node.id = tree.start) = true := by
    obtain ⟨startNode, startListed, startId, -⟩ := exists_start sound
    exact List.any_eq_true.mpr ⟨startNode, startListed, by simpa using startId⟩
  unfold read
  dsimp only
  rw [nodes, ofLines_write sound]
  show Except.ok (Preamble.tree _ _) = _
  congr 1
  unfold Preamble.tree
  simp only [Option.filter_some, named]
  exact DialogueTree.withNodes_nodeList fun entry member => (scriptable.nodes entry member).1

/-- Both readings give a scriptable tree back from its script, with its nodes in the same order, and
what they give has the same script. -/
theorem round_trip_of_scriptable (tree : DialogueTree) (scriptable : tree.Scriptable) :
    readLeniently (write tree) = tree ∧
      ∀ mode, ∃ result, read mode (write tree) = .ok result ∧ result = tree ∧
        result.nodes.names = tree.nodes.names ∧ write result = write tree := by
  constructor
  · unfold readLeniently
    rw [read_write scriptable .lenient]
  · intro mode
    exact ⟨tree, read_write scriptable mode, rfl, rfl, rfl⟩

/-- A small scriptable tree with nodes of every kind. -/
def gateTree : DialogueTree :=
  (DialogueTree.bare "gate" "At the gate: night" "hello").withNodes
    [ { id := "hello"
        speaker := some "Guard"
        kind := .npc
          { content := "Halt: who goes there?\n<<set $visits = $visits + 1>>\nC:\\keys are lost"
            next := some "answer"
            raises := some ["met_guard"]
            blocks := some
              [ { kind := .«if»
                  conditions := [.compare "name" .equals (.text "A \"B\" and && C"), .isSet "met"]
                  content := "You again.\n<<set $met = true>>"
                  speaker := some "Second guard"
                  next := some "answer" },
                { kind := .«else», conditions := [], content := "Nobody: comes here" } ] } },
      { id := "answer"
        speaker := some "You: a traveller"
        kind := .player
          [ { id := "answer_choice_1"
              text := "Pay -> enter"
              next := some "inside"
              conditions := some [.compare "coins" .greaterEqual (.number 2.5), .isNotSet "banned"]
              raises := some ["paid", "entered"] },
            { id := "answer_choice_2", text := "Leave." } ] },
      { id := "inside"
        kind := .conditional
          [ { kind := .«if»
              conditions := [.compare "rich" .notEquals (.bool false)]
              content := "" },
            { kind := .elseIf, conditions := [], content := "--- \\: a mark" } ] } ]

theorem round_trip_gateTree :
    gateTree.Scriptable ∧ readLeniently (write gateTree) = gateTree ∧
      ∀ mode, ∃ result, read mode (write gateTree) = .ok result ∧ result = gateTree ∧
        result.nodes.names = gateTree.nodes.names ∧ write result = write gateTree := by
  have scriptable : gateTree.Scriptable := by decide +kernel
  exact ⟨scriptable, round_trip_of_scriptable gateTree scriptable⟩

end BranchingDialogue.Script

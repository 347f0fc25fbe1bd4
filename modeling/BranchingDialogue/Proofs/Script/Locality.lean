import BranchingDialogue.Proofs.Keyed.Ordered
import BranchingDialogue.Proofs.Script.Portion

/-! The mark at the end of a section ends all that the reading has in hand. A script that ends with
a mark and another script after it are read as the nodes of the first, and after them those nodes of
the second whose ids are free. -/

namespace BranchingDialogue.Script

open Text

/-! ## Portions of both -/

/-- Whether a script ends with a line that marks the end of a section, and the line feed after it.
-/
def EndsWithMark (script : List Char) : Prop :=
  ∃ before mark, script = before ++ mark ++ ['\n'] ∧
    (before = [] ∨ ∃ earlier, before = earlier ++ ['\n']) ∧ OneLine mark ∧ trim mark = sectionEnd

private theorem shownLines_mark {mark : List Char} (oneLine : OneLine mark)
    (isMark : trim mark = sectionEnd) (after : List Char) :
    shownLines (mark ++ '\n' :: after) = sectionEnd :: shownLines after := by
  have single : shownLines mark = [sectionEnd] := by
    rw [shownLines_of_oneLine oneLine, shownRows, List.map_singleton, isMark]
    rfl
  rw [shownLines_append_feed, single]
  rfl

/-- The lines of a script that ends with a mark come before all lines of what follows. -/
theorem exists_shownLines_append {first : List Char} (ends : EndsWithMark first) :
    ∃ lines, ∀ second, shownLines (first ++ second) = lines ++ sectionEnd :: shownLines second := by
  obtain ⟨before, mark, rfl, begins, oneLine, isMark⟩ := ends
  rcases begins with rfl | ⟨earlier, rfl⟩
  · refine ⟨[], fun second => ?_⟩
    rw [← shownLines_mark oneLine isMark]
    simp
  · refine ⟨shownLines earlier, fun second => ?_⟩
    rw [← shownLines_mark oneLine isMark, ← shownLines_append_feed]
    simp

private theorem portionsOf_append_mark (before after : List (List Char)) :
    portionsOf (before ++ sectionEnd :: after) = portionsOf before ++ portionsOf after := by
  rw [portionsOf, List.splitOn_append_cons_self, List.filter_append, portionsOf, portionsOf]

private theorem portions_append {first : List Char} (ends : EndsWithMark first)
    (second : List Char) : portions (first ++ second) = portions first ++ portions second := by
  obtain ⟨lines, split⟩ := exists_shownLines_append ends
  have ofFirst : shownLines first = lines ++ [sectionEnd] := by
    have alone := split []
    rwa [List.append_nil] at alone
  have telling (after : List (List Char)) :
      (sectionEnd :: after).filter (fun line => !isComment line) =
        sectionEnd :: after.filter fun line => !isComment line := rfl
  have nothing : portionsOf [] = [] := rfl
  rw [portions, portions, portions, split, ofFirst, List.filter_append, List.filter_append,
    telling, telling, List.filter_nil, portionsOf_append_mark, portionsOf_append_mark, nothing,
    List.append_nil]

/-! ## Nodes of both -/

private theorem keepNode_of_mem {nodes : List Node} {node : Node}
    (taken : node.id ∈ nodes.map Node.id) : keepNode nodes node = nodes := by
  rw [keepNode, if_pos]
  simpa using taken

private theorem keepNode_of_not_mem {nodes : List Node} {node : Node}
    (free : node.id ∉ nodes.map Node.id) : keepNode nodes node = nodes ++ [node] := by
  rw [keepNode, if_neg]
  simpa using free

/-- Nodes that are kept after others are those that would be kept alone, except those whose ids the
others have. -/
theorem foldl_keepNode (nodes more : List Node) :
    more.foldl keepNode nodes =
      nodes ++ (more.foldl keepNode []).filter fun node => node.id ∉ nodes.map Node.id := by
  induction more using List.reverseRecOn with
  | nil => simp
  | append_singleton more node inductionHypothesis =>
      rw [List.foldl_append, List.foldl_append, inductionHypothesis, List.foldl_cons,
        List.foldl_cons, List.foldl_nil, List.foldl_nil]
      generalize more.foldl keepNode [] = kept
      by_cases inNodes : node.id ∈ nodes.map Node.id
      · have inBoth : node.id ∈
            (nodes ++ kept.filter fun node => node.id ∉ nodes.map Node.id).map Node.id := by
          rw [List.map_append]
          exact List.mem_append_left _ inNodes
        rw [keepNode_of_mem inBoth]
        by_cases inKept : node.id ∈ kept.map Node.id
        · rw [keepNode_of_mem inKept]
        · have dropped : decide (node.id ∉ nodes.map Node.id) = false :=
            decide_eq_false (not_not_intro inNodes)
          rw [keepNode_of_not_mem inKept, List.filter_append, List.filter_singleton, dropped]
          exact (congrArg _ (List.append_nil _)).symm
      · by_cases inKept : node.id ∈ kept.map Node.id
        · obtain ⟨other, listed, sameId⟩ := List.mem_map.mp inKept
          have inBoth : node.id ∈
              (nodes ++ kept.filter fun node => node.id ∉ nodes.map Node.id).map Node.id := by
            rw [List.map_append]
            apply List.mem_append_right
            refine List.mem_map.mpr ⟨other, List.mem_filter.mpr ⟨listed, ?_⟩, sameId⟩
            simpa [sameId] using inNodes
          rw [keepNode_of_mem inKept, keepNode_of_mem inBoth]
        · have inNeither : node.id ∉
              (nodes ++ kept.filter fun node => node.id ∉ nodes.map Node.id).map Node.id := by
            rw [List.map_append, List.mem_append, not_or]
            refine ⟨inNodes, fun inFiltered => inKept ?_⟩
            obtain ⟨other, listed, sameId⟩ := List.mem_map.mp inFiltered
            exact List.mem_map.mpr ⟨other, List.mem_of_mem_filter listed, sameId⟩
          rw [keepNode_of_not_mem inKept, keepNode_of_not_mem inNeither, List.filter_append,
            List.append_assoc, List.filter_singleton, decide_eq_true inNodes]
          rfl

private theorem entries_readLeniently (script : List Char) :
    (readLeniently script).nodes.entries =
      ((writtenNodes script).foldl keepNode []).map DialogueTree.entryOf := by
  have parsed := read_lenient script
  rw [read_eq_settle, settle_lenient, foldl_keepSection_sectionsFrom] at parsed
  have gathered := @gathered_of_foldlM .lenient (sectionsFrom 1 (numberedLines script)) [] _
    List.nodup_nil (readNodes_eq_settle _)
  rw [foldl_keepSection_sectionsFrom] at gathered
  rw [← Except.ok.inj parsed, entries_tree _ gathered.distinct]

private theorem contains_readLeniently {script : List Char} {name : String} :
    (readLeniently script).contains name = true ↔
      name ∈ ((writtenNodes script).foldl keepNode []).map Node.id := by
  have names : (readLeniently script).nodes.names =
      ((writtenNodes script).foldl keepNode []).map Node.id := by
    rw [OrderedMap.names, entries_readLeniently, List.map_map]
    rfl
  rw [← names]
  exact OrderedMap.contains_iff

/-- A script that ends with the mark of an end, and another one after it, are read as the nodes of
the first, in order under their names, and after them as those nodes of the second whose names the
first does not have. -/
theorem entries_readLeniently_append {first : List Char} (ends : EndsWithMark first)
    (second : List Char) :
    (readLeniently (first ++ second)).nodes.entries =
      (readLeniently first).nodes.entries ++
        (readLeniently second).nodes.entries.filter fun entry =>
          !(readLeniently first).contains entry.1 := by
  have written : writtenNodes (first ++ second) = writtenNodes first ++ writtenNodes second := by
    rw [writtenNodes, portions_append ends, List.filterMap_append]
    rfl
  rw [entries_readLeniently, written, List.foldl_append, foldl_keepNode, List.map_append,
    ← entries_readLeniently first, entries_readLeniently second, List.filter_map]
  congr 2
  apply List.filter_congr
  intro node _
  rw [Bool.eq_iff_iff, decide_eq_true_iff, Function.comp_apply, Bool.not_eq_true',
    Bool.eq_false_iff, ne_eq, contains_readLeniently]
  rfl

/-- A script with one scene that ends with a mark. -/
def gateScene : List Char :=
  "title: gate\n---\nHalt!\n<<jump yard>>\n ===\r\n".toList

/-- A scene whose title is taken, and one that has no mark at its end. -/
def yardScenes : List Char :=
  "title: gate\n---\nAgain?\n===\nspeaker: Cook\ntitle: yard\n---\n-> Leave.".toList

theorem entries_gateScene_append :
    EndsWithMark gateScene ∧
      (readLeniently (gateScene ++ yardScenes)).nodes.entries =
        (readLeniently gateScene).nodes.entries ++
          [("yard",
            { id := "yard"
              speaker := some "Cook"
              kind := .player [{ id := "yard_choice_1", text := "Leave." }] })] := by
  have ends : EndsWithMark gateScene := by
    refine ⟨"title: gate\n---\nHalt!\n<<jump yard>>\n".toList, " ===\r".toList, ?_, Or.inr ?_, ?_,
      ?_⟩
    · decide +kernel
    · exact ⟨"title: gate\n---\nHalt!\n<<jump yard>>".toList, by decide +kernel⟩
    · decide +kernel
    · decide +kernel
  refine ⟨ends, ?_⟩
  rw [entries_readLeniently_append ends]
  decide +kernel

end BranchingDialogue.Script

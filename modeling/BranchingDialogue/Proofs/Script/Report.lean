import BranchingDialogue.Proofs.Script.Group
import BranchingDialogue.Proofs.Script.SoundTree

/-! The tree of a script has a start as soon as it has nodes, its decisions have choices, and its
comparisons have values. What the checks can find wrong with it are groups: the blocks of all groups
of a body become one list, and the list is out of order when a body begins more than one group. -/

namespace BranchingDialogue

/-- No block of a node is reported exactly when its blocks are in order. -/
theorem blockIssues_eq_nil_iff {node : Node} :
    node.blockIssues = [] ↔ InOrder (node.blocks.map Block.kind) := by
  rw [List.eq_nil_iff_forall_not_mem]
  constructor
  · intro noIssues index kind found
    rw [List.getElem?_map] at found
    obtain ⟨block, here, rfl⟩ := Option.map_eq_some_iff.mp found
    rw [List.length_map, Bool.eq_false_iff]
    intro misplaced
    exact noIssues _ (mem_blockIssues_iff.mpr ⟨index, block, here, misplaced, rfl⟩)
  · rintro inOrder issue listed
    obtain ⟨index, block, here, misplaced, -⟩ := mem_blockIssues_iff.mp listed
    have placed := inOrder index block.kind (by rw [List.getElem?_map, here, Option.map_some])
    rw [List.length_map, misplaced] at placed
    cases placed

namespace Script

open Text

/-! ## Nodes of drafts -/

section Nodes

variable {draft : Draft}

/-- The blocks of a node are those of its draft, which a draft with choices loses. -/
theorem kinds_finish (draft : Draft) (heading : Option (List Char)) :
    (draft.finish heading).blocks.map Block.kind =
      if draft.choices = [] then draft.kinds else [] := by
  have closed : draft.closeBlock.blocks.map Block.kind = draft.kinds := by
    rw [← draft.kinds_closeBlock, Draft.kinds, draft.openBlock_closeBlock]
    exact (List.append_nil _).symm
  rw [finish_eq, ← closed, ← draft.choices_closeBlock]
  rcases draft.closeBlock.kind_cases with
    ⟨chosen, kindEq⟩ | ⟨noChoices, -, -, kindEq⟩ | ⟨noChoices, kindEq, -⟩
  · rw [kindEq, if_neg chosen]
    rfl
  · rw [kindEq, if_pos noChoices]
    rfl
  · rw [kindEq, if_pos noChoices, Draft.blocks_speech]

/-- A decision is made of a draft with choices only. -/
theorem choices?_finish (draft : Draft) (heading : Option (List Char)) :
    (draft.finish heading).choices? ≠ some [] := by
  rw [draft.choices?_finish]
  cases draft.choices <;> simp

private theorem complete_finish (regular : draft.Regular) (heading : Option (List Char)) :
    ∀ condition ∈ (draft.finish heading).conditions, condition.IsComplete := by
  obtain ⟨-, choices, blocks, -⟩ := regular.closeBlock
  rw [finish_eq]
  intro condition listed
  rcases draft.closeBlock.kind_cases with ⟨-, kindEq⟩ | ⟨-, -, -, kindEq⟩ | ⟨-, kindEq, -⟩
  · rw [kindEq] at listed
    obtain ⟨choice, member, inGate⟩ := List.mem_flatMap.mp listed
    exact choices choice member condition inGate
  · rw [kindEq] at listed
    obtain ⟨block, member, inBlock⟩ := List.mem_flatMap.mp listed
    exact blocks block member condition inBlock
  · rw [kindEq] at listed
    obtain ⟨block, member, inBlock⟩ := List.mem_flatMap.mp listed
    rw [Draft.blocks_speech] at member
    exact blocks block member condition inBlock

end Nodes

/-! ## Nodes of sections -/

def Section.bodyLines (part : Section) : List (List Char) :=
  ((readHeading {} part.lines).2.getD []).map NumberedLine.text

/-- Whether the body of a section begins more than one group of blocks, and makes no choice, with
which all blocks would be lost. -/
def Section.repeatsGroup (part : Section) : Bool :=
  part.bodyLines.all (fun line => !makesChoice line) && 1 < groupCount false part.bodyLines

structure Section.Makes (part : Section) (node : Node) : Prop where
  title : part.title?.map String.ofList = some node.id
  choices : node.choices? ≠ some []
  complete : ∀ condition ∈ node.conditions, condition.IsComplete
  inOrder : InOrder (node.blocks.map Block.kind) ↔ part.repeatsGroup = false

private theorem makes_of_node? {part : Section} {node : Node} (found : part.node? = some node) :
    part.Makes node := by
  have title := id_node? part
  rw [found] at title
  unfold Section.node? at found
  split at found
  · rename_i id speaker body heading
    cases found
    have regular := Draft.regular_passOver (.empty id) body
    have bodyLines : part.bodyLines = body.map NumberedLine.text := by
      simp [Section.bodyLines, heading]
    have groups : (Draft.passOver { id } body).kinds.count .«if» =
        groupCount false part.bodyLines := by
      rw [Draft.count_if_passOver, bodyLines]
      exact Nat.zero_add _
    have noChoices : (Draft.passOver { id } body).choices = [] ↔
        part.bodyLines.all (fun line => !makesChoice line) = true := by
      rw [Draft.choices_passOver_eq_nil_iff, bodyLines]
      simp
    refine ⟨title.symm, choices?_finish _ speaker, complete_finish regular speaker, ?_⟩
    rw [kinds_finish, Section.repeatsGroup]
    by_cases chosen : (Draft.passOver { id } body).choices = []
    · rw [if_pos chosen, noChoices.mp chosen, inOrder_iff_count_le_one regular.order, groups]
      simp
    · rw [if_neg chosen, Bool.eq_false_iff.mpr (mt noChoices.mpr chosen)]
      simp [InOrder]
  · cases found

/-! ## Nodes of scripts -/

/-- The sections that have a title, which was not taken before. -/
def keptSections (taken : List (List Char)) : List Section → List Section
  | [] => []
  | part :: rest =>
      let others := keptSections (part.title?.toList ++ taken) rest
      if part.title?.any fun title => title ∉ taken then part :: others else others

private theorem keptSections_cons (taken : List (List Char)) (part : Section)
    (rest : List Section) :
    keptSections taken (part :: rest) =
      if part.title?.any fun title => title ∉ taken then
        part :: keptSections (part.title?.toList ++ taken) rest
      else
        keptSections (part.title?.toList ++ taken) rest := by
  rfl

private theorem keepSection_eq {nodes : List Node} {taken : List (List Char)}
    (holds : Holds nodes taken) (part : Section) :
    keepSection nodes part =
      nodes ++ if part.title?.any fun title => title ∉ taken then part.node?.toList else [] := by
  unfold keepSection
  rcases node?_cases part with ⟨absent, untitled⟩ | ⟨node, title, found, titled, named⟩
  · simp [absent, untitled]
  · rw [found, titled]
    have present := holds.any_iff named
    by_cases isTaken : title ∈ taken
    · simp [present.mpr isTaken, isTaken]
    · simp [Bool.eq_false_iff.mpr (present.not.mpr isTaken), isTaken]

private theorem foldl_keepSection {nodes : List Node} {taken : List (List Char)}
    (holds : Holds nodes taken) (parts : List Section) :
    parts.foldl keepSection nodes =
      nodes ++ (keptSections taken parts).filterMap Section.node? := by
  induction parts generalizing nodes taken with
  | nil => exact (List.append_nil nodes).symm
  | cons part parts inductionHypothesis =>
      rw [List.foldl_cons, inductionHypothesis (holds.keepSection part), keepSection_eq holds,
        keptSections_cons]
      split
      · rw [List.append_assoc]
        cases found : part.node? with
        | none => rw [List.filterMap_cons_none found, Option.toList_none, List.nil_append]
        | some node =>
            rw [List.filterMap_cons_some found, Option.toList_some, List.singleton_append]
      · rw [List.append_nil]

private theorem exists_node_of_kept {taken : List (List Char)} {parts : List Section}
    {part : Section} (kept : part ∈ keptSections taken parts) : ∃ node, part.node? = some node := by
  induction parts generalizing taken with
  | nil => cases kept
  | cons first parts inductionHypothesis =>
      rw [keptSections_cons] at kept
      split at kept
      · rename_i fresh
        rcases List.mem_cons.mp kept with rfl | inOthers
        · rcases node?_cases part with ⟨-, untitled⟩ | ⟨node, -, found, -, -⟩
          · rw [untitled] at fresh
            cases fresh
          · exact ⟨node, found⟩
        · exact inductionHypothesis inOthers
      · exact inductionHypothesis kept

/-- The sections of a script that give nodes. -/
def nodeSections (script : List Char) : List Section :=
  keptSections [] (sectionsFrom 1 (numberedLines script))

private theorem nodeList_readLeniently (script : List Char) :
    (readLeniently script).nodeList = (nodeSections script).filterMap Section.node? := by
  have parsed := read_lenient script
  rw [read_eq_settle, settle_lenient] at parsed
  have gathered := @gathered_of_foldlM .lenient (sectionsFrom 1 (numberedLines script)) [] _
    List.nodup_nil (readNodes_eq_settle _)
  have noneTaken : Holds [] [] := fun title => by simp
  rw [← Except.ok.inj parsed, nodeList_tree _ gathered.distinct, foldl_keepSection noneTaken]
  rfl

private theorem exists_start_tree (preamble : Preamble) {nodes : List Node} (filled : nodes ≠ []) :
    ∃ node ∈ nodes, node.id = (preamble.tree nodes).start := by
  obtain ⟨first, others, rfl⟩ := List.exists_cons_of_ne_nil filled
  unfold Preamble.tree
  dsimp only
  rw [(DialogueTree.heading_withNodes (DialogueTree.bare _ _ _) (first :: others)).2.2]
  unfold DialogueTree.bare
  dsimp only
  cases named : preamble.start.filter fun start =>
    (first :: others).any fun node => node.id = start with
  | none => exact ⟨first, List.mem_cons_self, rfl⟩
  | some start =>
      obtain ⟨-, present⟩ := Option.filter_eq_some_iff.mp named
      simpa using present

/-- A tree that is read has a start exactly when it has nodes. -/
theorem contains_start_iff_of_read {mode : Mode} {script : List Char} {tree : DialogueTree}
    (parsed : read mode script = .ok tree) :
    tree.contains tree.start = true ↔ tree.nodeList ≠ [] := by
  rw [(ownIds_of_read parsed).contains_iff]
  obtain ⟨nodes, gathered, rfl⟩ := exists_of_read parsed
  rw [nodeList_tree _ gathered.distinct]
  constructor
  · rintro ⟨node, listed, -⟩
    exact List.ne_nil_of_mem listed
  · exact exists_start_tree _

/-! ## Errors -/

section Errors

variable {script : List Char} {schema : FlagSchema}

private theorem exists_makes_of_mem {node : Node}
    (listed : node ∈ (readLeniently script).nodeList) :
    ∃ part ∈ nodeSections script, part.Makes node := by
  rw [nodeList_readLeniently] at listed
  obtain ⟨part, kept, found⟩ := List.mem_filterMap.mp listed
  exact ⟨part, kept, makes_of_node? found⟩

private theorem exists_makes_of_kept {part : Section} (kept : part ∈ nodeSections script) :
    ∃ node ∈ (readLeniently script).nodeList, part.Makes node := by
  obtain ⟨node, found⟩ := exists_node_of_kept kept
  refine ⟨node, ?_, makes_of_node? found⟩
  rw [nodeList_readLeniently]
  exact List.mem_filterMap.mpr ⟨part, kept, found⟩

/-- Besides a missing start, the errors of a script are blocks out of order. -/
theorem error_mem_lint_iff {issue : Issue} (isError : issue.isError = true)
    (other : issue ≠ ⟨none, .missingStart⟩) :
    issue ∈ (readLeniently script).lint schema ↔
      ∃ node ∈ (readLeniently script).nodeList,
        issue.node = some node.id ∧ issue.kind ∈ node.blockIssues := by
  have severe : issue.kind.severity = .error := of_decide_eq_true isError
  rw [mem_lint_iff_of_error severe other]
  refine exists_congr fun node => and_congr_right fun listed => and_congr_right fun _ => ?_
  obtain ⟨part, -, -, choices, complete, -⟩ := exists_makes_of_mem listed
  have noChoiceIssue : issue.kind ∉ node.choiceIssues := fun found =>
    choices (mem_choiceIssues_iff.mp found).1
  have noValueIssue : issue.kind ∉ node.valueIssues := by
    intro found
    obtain ⟨condition, inNode, compares, noValue, -⟩ := mem_valueIssues_iff.mp found
    have valued := complete condition inNode compares
    rw [noValue] at valued
    cases valued
  rw [or_iff_right noChoiceIssue, or_iff_left noValueIssue]

/-- An error besides a missing start is a block of a section with more than one group. -/
theorem exists_repeatsGroup_of_error {issue : Issue}
    (reported : issue ∈ (readLeniently script).lint schema) (isError : issue.isError = true)
    (other : issue ≠ ⟨none, .missingStart⟩) :
    ∃ part ∈ nodeSections script, part.repeatsGroup = true ∧
      issue.node = part.title?.map String.ofList ∧ ∃ index, issue.kind = .blockOrder index := by
  obtain ⟨node, listed, place, found⟩ := (error_mem_lint_iff isError other).mp reported
  obtain ⟨part, kept, makes⟩ := exists_makes_of_mem listed
  obtain ⟨index, -, -, -, kind⟩ := mem_blockIssues_iff.mp found
  refine ⟨part, kept, ?_, by rw [place, makes.title], index, kind⟩
  rw [← Bool.not_eq_false, ← makes.inOrder, ← blockIssues_eq_nil_iff]
  exact List.ne_nil_of_mem found

/-- A section with more than one group gives a node whose blocks are reported. -/
theorem exists_blockOrder_of_repeatsGroup {part : Section} (kept : part ∈ nodeSections script)
    (repeats : part.repeatsGroup = true) (schema : FlagSchema) :
    ∃ index, ⟨part.title?.map String.ofList, .blockOrder index⟩ ∈
      (readLeniently script).lint schema := by
  obtain ⟨node, listed, makes⟩ := exists_makes_of_kept kept
  have disorder : node.blockIssues ≠ [] := by
    rw [ne_eq, blockIssues_eq_nil_iff, makes.inOrder, repeats]
    simp
  obtain ⟨kind, found⟩ := List.exists_mem_of_ne_nil _ disorder
  obtain ⟨index, -, -, -, rfl⟩ := mem_blockIssues_iff.mp found
  exact ⟨index, (error_mem_lint_iff rfl (by simp)).mpr ⟨node, listed, makes.title, found⟩⟩

/-- The blocks of all nodes are in order exactly when no section has more than one group. -/
theorem forall_inOrder_iff :
    (∀ node ∈ (readLeniently script).nodeList, InOrder (node.blocks.map Block.kind)) ↔
      ∀ part ∈ nodeSections script, part.repeatsGroup = false := by
  constructor
  · intro inOrder part kept
    obtain ⟨node, listed, makes⟩ := exists_makes_of_kept kept
    exact makes.inOrder.mp (inOrder node listed)
  · intro noRepeat node listed
    obtain ⟨part, kept, makes⟩ := exists_makes_of_mem listed
    exact makes.inOrder.mpr (noRepeat part kept)

end Errors

/-- The checks of a script report a missing start exactly when no node was read, and otherwise no
errors exactly when no section repeats its group. All errors are blocks of such sections: the
decisions have choices and the comparisons have values in every script. -/
theorem errors_readLeniently (script : List Char) (schema : FlagSchema) :
    let tree := readLeniently script
    (⟨none, .missingStart⟩ ∈ tree.lint schema ↔ tree.nodeList = []) ∧
      (tree.contains tree.start = true ↔ tree.nodeList ≠ []) ∧
      ((∀ issue ∈ tree.lint schema, issue.isError = true → issue = ⟨none, .missingStart⟩) ↔
        ∀ part ∈ nodeSections script, part.repeatsGroup = false) ∧
      (∀ issue ∈ tree.lint schema, issue.isError = true → issue ≠ ⟨none, .missingStart⟩ →
        ∃ part ∈ nodeSections script, part.repeatsGroup = true ∧
          issue.node = part.title?.map String.ofList ∧ ∃ index, issue.kind = .blockOrder index) ∧
      (∀ node ∈ tree.nodeList, node.choices? ≠ some [] ∧
        ∀ condition ∈ node.conditions, condition.IsComplete) ∧
      ((∀ node ∈ tree.nodeList, InOrder (node.blocks.map Block.kind)) ↔
        ∀ part ∈ nodeSections script, part.repeatsGroup = false) := by
  intro tree
  have start := contains_start_iff_of_read (read_lenient script)
  refine ⟨?_, start, ⟨?_, ?_⟩, fun _ => exists_repeatsGroup_of_error, ?_, forall_inOrder_iff⟩
  · rw [missingStart_mem_lint_iff, ← Bool.not_eq_true, start, not_not]
  · intro noOther part kept
    rw [Bool.eq_false_iff]
    intro repeats
    obtain ⟨index, reported⟩ := exists_blockOrder_of_repeatsGroup kept repeats schema
    cases congrArg Issue.kind (noOther _ reported rfl)
  · intro noRepeat issue reported isError
    by_contra other
    obtain ⟨part, kept, repeats, -⟩ := exists_repeatsGroup_of_error reported isError other
    rw [noRepeat part kept] at repeats
    cases repeats
  · intro node listed
    obtain ⟨part, -, -, choices, complete, -⟩ := exists_makes_of_mem listed
    exact ⟨choices, complete⟩

/-- A script of one node with two groups of blocks. -/
def twoGroupScript : List Char :=
  "title: a\n---\n<<if $met>>\nHi.\n<<endif>>\n<<if $late>>\nGo.\n<<endif>>\n===\n".toList

/-- Two groups are accepted by the strict reading too, and give an error without a schema. -/
theorem second_group_reported :
    (read .strict twoGroupScript).isOk = true ∧
      ∃ issue ∈ (readLeniently twoGroupScript).lint .empty,
        issue.isError = true ∧ issue ≠ ⟨none, .missingStart⟩ := by
  refine ⟨by decide +kernel, ⟨some "a", .blockOrder 1⟩, by decide +kernel, rfl, by decide⟩

end Script

end BranchingDialogue

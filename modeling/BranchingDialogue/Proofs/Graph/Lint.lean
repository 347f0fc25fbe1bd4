import BranchingDialogue.Graph.Lint

/-! What the checks find in a node is among the issues of the tree, and nothing else is but what is
wrong with flags and a missing start. A tree without errors therefore has a start and has no blocks
out of order. -/

namespace BranchingDialogue

variable {tree : DialogueTree} {schema : FlagSchema}

/-! ## Issues of nodes -/

/-- Whether a kind of issues is about the name of a flag. -/
def IssueKind.isOfFlag : IssueKind → Bool
  | .undeclaredFlag _ | .unscriptableFlag _ => true
  | _ => false

private theorem isOfFlag_of_mem_flagIssues {reported : ReportedFlags} {flag : String}
    {kind : IssueKind}
    (listed : kind ∈ (flagIssues schema reported flag).1) : kind.isOfFlag = true := by
  unfold flagIssues at listed
  rcases List.mem_append.mp listed with unscriptable | undeclared
  · split at unscriptable
    · cases List.mem_singleton.mp unscriptable
      rfl
    · cases unscriptable
  · split at undeclared
    · cases List.mem_singleton.mp undeclared
      rfl
    · cases undeclared

private theorem isOfFlag_of_mem_flagListIssues {flags : List String} {reported : ReportedFlags}
    {kind : IssueKind} (listed : kind ∈ (flagListIssues schema reported flags).1) :
    kind.isOfFlag = true := by
  induction flags generalizing reported with
  | nil => cases listed
  | cons flag flags inductionHypothesis =>
      rcases List.mem_append.mp listed with first | others
      · exact isOfFlag_of_mem_flagIssues first
      · exact inductionHypothesis others

private theorem mem_nodeListIssues {nodes : List Node} {node : Node} (listed : node ∈ nodes)
    {reachable : List String} {kind : IssueKind} (found : kind ∈ tree.nodeIssues reachable node)
    (reported : ReportedFlags) :
    ⟨some node.id, kind⟩ ∈ tree.nodeListIssues schema reachable reported nodes := by
  induction nodes generalizing reported with
  | nil => cases listed
  | cons first rest inductionHypothesis =>
      unfold DialogueTree.nodeListIssues
      rcases List.mem_cons.mp listed with rfl | inRest
      · apply List.mem_append_left
        exact List.mem_map_of_mem (List.mem_append_left _ found)
      · apply List.mem_append_right
        exact inductionHypothesis inRest _

/-- The issues that are not about names of flags are those of the single nodes. -/
theorem mem_nodeListIssues_iff {nodes : List Node} {reachable : List String} {kind : IssueKind}
    (notOfFlag : kind.isOfFlag = false) {reported : ReportedFlags} {place : Option String} :
    ⟨place, kind⟩ ∈ tree.nodeListIssues schema reachable reported nodes ↔
      ∃ node ∈ nodes, place = some node.id ∧ kind ∈ tree.nodeIssues reachable node := by
  constructor
  · intro listed
    induction nodes generalizing reported with
    | nil => cases listed
    | cons first rest inductionHypothesis =>
        unfold DialogueTree.nodeListIssues at listed
        rcases List.mem_append.mp listed with inFirst | inRest
        · obtain ⟨_, found, equality⟩ := List.mem_map.mp inFirst
          cases equality
          refine ⟨first, List.mem_cons_self, rfl, ?_⟩
          rcases List.mem_append.mp found with own | ofFlag
          · exact own
          · rw [isOfFlag_of_mem_flagListIssues ofFlag] at notOfFlag
            cases notOfFlag
        · obtain ⟨node, inNodes, found⟩ := inductionHypothesis inRest
          exact ⟨node, List.mem_cons_of_mem _ inNodes, found⟩
  · rintro ⟨node, listed, rfl, found⟩
    exact mem_nodeListIssues listed found reported

/-- The start is missing in the report where it is missing in the tree. -/
theorem missingStart_mem_lint_iff :
    ⟨none, .missingStart⟩ ∈ tree.lint schema ↔ tree.contains tree.start = false := by
  have notInNodes (reachable : List String) :
      ⟨none, .missingStart⟩ ∉ tree.nodeListIssues schema reachable {} tree.nodeList := by
    intro listed
    obtain ⟨node, _, place, _⟩ := (mem_nodeListIssues_iff rfl).mp listed
    cases place
  unfold DialogueTree.lint
  cases tree.contains tree.start <;> simp [notInNodes]

/-- The other issues that are not about names of flags are those of the nodes. -/
theorem mem_lint_iff {kind : IssueKind} (notOfFlag : kind.isOfFlag = false)
    {place : Option String} (other : Issue.mk place kind ≠ ⟨none, .missingStart⟩) :
    ⟨place, kind⟩ ∈ tree.lint schema ↔
      ∃ node ∈ tree.nodeList, place = some node.id ∧
        kind ∈ tree.nodeIssues tree.reachableIds node := by
  have noStart : ⟨place, kind⟩ ∉ (if tree.contains tree.start then [] else
      [⟨none, .missingStart⟩] : List Issue) := by
    split
    · simp
    · simpa using other
  exact (List.mem_append.trans (or_iff_right noStart)).trans (mem_nodeListIssues_iff notOfFlag)

/-! ## Errors of nodes -/

theorem mem_choiceIssues_iff {node : Node} {kind : IssueKind} :
    kind ∈ node.choiceIssues ↔ node.choices? = some [] ∧ kind = .noChoices := by
  unfold Node.choiceIssues
  split <;> simp_all

theorem mem_blockIssues_iff {node : Node} {kind : IssueKind} :
    kind ∈ node.blockIssues ↔ ∃ index block, node.blocks[index]? = some block ∧
      Node.misplaced node.blocks.length index block.kind = true ∧ kind = .blockOrder index := by
  unfold Node.blockIssues
  rw [List.mem_filterMap]
  constructor
  · rintro ⟨⟨block, index⟩, listed, found⟩
    obtain ⟨misplaced, rfl⟩ := Option.ite_some_none_eq_some.mp found
    exact ⟨index, block, List.mk_mem_zipIdx_iff_getElem?.mp listed, misplaced, rfl⟩
  · rintro ⟨index, block, found, misplaced, rfl⟩
    exact ⟨(block, index), List.mk_mem_zipIdx_iff_getElem?.mpr found, if_pos misplaced⟩

theorem mem_valueIssues_iff {node : Node} {kind : IssueKind} :
    kind ∈ node.valueIssues ↔ ∃ condition ∈ node.conditions,
      condition.operator.comparesValue = true ∧ condition.value = none ∧
        kind = .missingValue condition.flag := by
  unfold Node.valueIssues
  rw [List.mem_filterMap]
  constructor
  · rintro ⟨condition, listed, found⟩
    obtain ⟨missing, rfl⟩ := Option.ite_some_none_eq_some.mp found
    obtain ⟨compares, noValue⟩ : condition.operator.comparesValue = true ∧
        condition.value = none := by simpa using missing
    exact ⟨condition, listed, compares, noValue, rfl⟩
  · rintro ⟨condition, listed, compares, noValue, rfl⟩
    exact ⟨condition, listed, by simp [compares, noValue]⟩

/-- The errors of a node are those of its choices, its blocks and its conditions. -/
theorem mem_nodeIssues_iff_of_error {kind : IssueKind} (isError : kind.severity = .error)
    {reachable : List String} {node : Node} :
    kind ∈ tree.nodeIssues reachable node ↔
      kind ∈ node.choiceIssues ∨ kind ∈ node.blockIssues ∨ kind ∈ node.valueIssues := by
  have noDangling : kind ∉ tree.danglingIssues node := by
    intro listed
    obtain ⟨slot, -, found⟩ := List.mem_filterMap.mp listed
    obtain ⟨target, -, rfl⟩ := Option.map_eq_some_iff.mp found
    cases isError
  have connected : kind ≠ .unreachable := by
    rintro rfl
    cases isError
  unfold DialogueTree.nodeIssues
  simp [noDangling, connected]

/-- The errors of a tree besides a missing start are those of its nodes. -/
theorem mem_lint_iff_of_error {kind : IssueKind} (isError : kind.severity = .error)
    {place : Option String} (other : Issue.mk place kind ≠ ⟨none, .missingStart⟩) :
    ⟨place, kind⟩ ∈ tree.lint schema ↔ ∃ node ∈ tree.nodeList, place = some node.id ∧
      (kind ∈ node.choiceIssues ∨ kind ∈ node.blockIssues ∨ kind ∈ node.valueIssues) := by
  have notOfFlag : kind.isOfFlag = false := by cases kind <;> first | rfl | cases isError
  simp only [mem_lint_iff notOfFlag other, mem_nodeIssues_iff_of_error isError]

/-! ## Trees without errors -/

/-- A tree without errors starts at one of its nodes. -/
theorem contains_start_of_lint (noErrors : ∀ issue ∈ tree.lint schema, issue.isError = false) :
    tree.contains tree.start = true := by
  cases present : tree.contains tree.start with
  | true => rfl
  | false =>
      have found : ⟨none, .missingStart⟩ ∈ tree.lint schema :=
        missingStart_mem_lint_iff.mpr present
      cases noErrors _ found

/-- A tree without errors has every block in its place. -/
theorem misplaced_of_lint (noErrors : ∀ issue ∈ tree.lint schema, issue.isError = false)
    {node : Node} (listed : node ∈ tree.nodeList) {index : Nat} {block : Block}
    (found : node.blocks[index]? = some block) :
    Node.misplaced node.blocks.length index block.kind = false := by
  cases misplaced : Node.misplaced node.blocks.length index block.kind with
  | false => rfl
  | true =>
      have inBlocks : .blockOrder index ∈ node.blockIssues :=
        mem_blockIssues_iff.mpr ⟨index, block, found, misplaced, rfl⟩
      have inTree : ⟨some node.id, .blockOrder index⟩ ∈ tree.lint schema :=
        (mem_lint_iff_of_error rfl (by simp)).mpr
          ⟨node, listed, rfl, Or.inr (Or.inl inBlocks)⟩
      cases noErrors _ inTree

end BranchingDialogue

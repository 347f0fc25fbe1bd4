import BranchingDialogue.Proofs.Graph.Tree
import BranchingDialogue.Proofs.Script.Section
import BranchingDialogue.Proofs.Script.Step

/-! What has been read comes from somewhere: a tree from its nodes, a node from a section with a
heading and a body, and the draft of a body from steps of its lines. -/

namespace BranchingDialogue.Script

open Text

variable {mode : Mode} {script : List Char}

/-! ## Lines -/

theorem text_of_mem_numberedLines {line : NumberedLine} (member : line ∈ numberedLines script) :
    Trimmed line.text ∧ OneLine line.text := by
  have listed : line.text ∈ (lines script).map trim := by
    rw [← texts_numberedLines]
    exact List.mem_map_of_mem member
  obtain ⟨raw, inLines, textEq⟩ := List.mem_map.mp listed
  rw [← textEq]
  refine ⟨trimmed_trim raw, ?_⟩
  intro feed
  exact oneLine_of_mem_lines inLines (mem_of_mem_trim feed)

theorem mem_of_mem_sectionsFrom {all : List NumberedLine} {firstLine : Nat} {part : Section}
    (listed : part ∈ sectionsFrom firstLine all) {line : NumberedLine}
    (member : line ∈ part.lines) : line ∈ all ∧ line.text ≠ sectionEnd := by
  induction all generalizing firstLine part with
  | nil => cases listed
  | cons first rest inductionHypothesis =>
      have fromRest {number : Nat} {other : Section} (inRest : other ∈ sectionsFrom number rest)
          (inOther : line ∈ other.lines) : line ∈ first :: rest ∧ line.text ≠ sectionEnd := by
        obtain ⟨inLines, different⟩ := inductionHypothesis inRest inOther
        exact ⟨List.mem_cons_of_mem _ inLines, different⟩
      unfold sectionsFrom at listed
      split at listed
      · rcases List.mem_cons.mp listed with rfl | inRest
        · cases member
        · exact fromRest inRest member
      · rename_i different
        split at listed
        · split at listed
          · cases listed
          · rw [List.mem_singleton.mp listed] at member
            rw [List.mem_singleton.mp member]
            exact ⟨List.mem_cons_self, different⟩
        · rename_i found others rest
          rcases List.mem_cons.mp listed with rfl | inOthers
          · rcases List.mem_cons.mp member with rfl | inFound
            · exact ⟨List.mem_cons_self, different⟩
            · exact fromRest (by rw [rest]; exact List.mem_cons_self) inFound
          · exact fromRest (by rw [rest]; exact List.mem_cons_of_mem _ inOthers) member

/-- The lines of a section are trimmed, and none of them is the mark of an end. -/
theorem text_of_mem_section {part : Section}
    (listed : part ∈ sectionsFrom 1 (numberedLines script)) {line : NumberedLine}
    (member : line ∈ part.lines) :
    Trimmed line.text ∧ OneLine line.text ∧ line.text ≠ sectionEnd := by
  obtain ⟨inScript, apart⟩ := mem_of_mem_sectionsFrom listed member
  obtain ⟨trimmed, oneLine⟩ := text_of_mem_numberedLines inScript
  exact ⟨trimmed, oneLine, apart⟩

/-- A heading with a body comes from the lines before the mark of the body. -/
theorem exists_of_readHeading {heading result : Heading} {all body : List NumberedLine}
    (read : readHeading heading all = (result, some body)) :
    ∃ front mark, all = front ++ mark :: body ∧ mark.text = bodyStart ∧
      result = front.foldl (fun heading line => heading.readLine line.text) heading := by
  induction all generalizing heading with
  | nil => cases read
  | cons line all inductionHypothesis =>
      unfold readHeading at read
      split at read
      · rename_i isMark
        cases read
        exact ⟨[], line, rfl, isMark, rfl⟩
      · obtain ⟨front, mark, rfl, isMark, resultEq⟩ := inductionHypothesis read
        exact ⟨line :: front, mark, rfl, isMark, resultEq⟩

theorem mem_of_mem_body {heading result : Heading} {all body : List NumberedLine}
    (read : readHeading heading all = (result, some body)) {line : NumberedLine}
    (member : line ∈ body) : line ∈ all := by
  obtain ⟨front, mark, rfl, -, -⟩ := exists_of_readHeading read
  exact List.mem_append_right _ (List.mem_cons_of_mem _ member)

/-! ## Bodies -/

/-- A property that every step keeps holds after a body, whether lines are passed over or not. -/
theorem readBody_induction {property : Draft → Prop} {draft result : Draft}
    {body : List NumberedLine} (start : property draft)
    (step : ∀ before line after, line ∈ body → before.Step line.text after →
      property before → property after)
    (read : readBody mode draft body = .ok result) : property result := by
  induction body generalizing draft with
  | nil =>
      cases read
      exact start
  | cons line body inductionHypothesis =>
      have others (before : Draft) (other : NumberedLine) (after : Draft) (member : other ∈ body) :=
        step before other after (List.mem_cons_of_mem _ member)
      unfold readBody at read inductionHypothesis
      rw [List.foldlM_cons] at read
      unfold readLine at read
      cases added : draft.addLine line.text with
      | some next =>
          rw [added] at read
          have kept := step draft line next List.mem_cons_self (Draft.step_of_addLine added) start
          exact inductionHypothesis kept others read
      | none =>
          rw [added] at read
          cases mode with
          | strict => cases read
          | lenient => exact inductionHypothesis start others read

theorem id_of_step {draft next : Draft} {line : List Char} (made : draft.Step line next) :
    next.id = draft.id := by
  cases made with
  | beginGroup | continueGroup | endWithElse | endGroup => exact draft.id_closeBlock
  | _ => rfl

theorem id_of_readBody {draft result : Draft} {body : List NumberedLine}
    (bodyRead : readBody mode draft body = .ok result) : result.id = draft.id :=
  @readBody_induction mode (fun reached => reached.id = draft.id) draft result body rfl
    (fun _ _ _ _ made same => (id_of_step made).trans same) bodyRead

/-- The strict reading of a body recognizes all of its lines. -/
theorem addLines_of_readBody_strict {draft result : Draft} {body : List NumberedLine}
    (read : readBody .strict draft body = .ok result) :
    draft.addLines (body.map NumberedLine.text) = some result := by
  induction body generalizing draft with
  | nil =>
      cases read
      rfl
  | cons line body inductionHypothesis =>
      unfold readBody at read inductionHypothesis
      rw [List.foldlM_cons] at read
      unfold readLine at read
      rw [List.map_cons, Draft.addLines_cons]
      cases added : draft.addLine line.text with
      | some next =>
          rw [added] at read
          exact inductionHypothesis read
      | none =>
          rw [added] at read
          cases read

/-! ## Sections -/

/-- A section with a title and a body is read as the node of its draft. -/
theorem exists_draft_of_readSection {part : Section} {found : Option Node}
    (sectionRead : readSection mode part = .ok found) {title : List Char}
    {speaker : Option (List Char)} {body : List NumberedLine}
    (heading : readHeading {} part.lines = (⟨some title, speaker⟩, some body)) :
    ∃ draft, readBody mode { id := title } body = .ok draft ∧
      found = some (draft.finish speaker) := by
  unfold readSection at sectionRead
  rw [heading] at sectionRead
  dsimp only at sectionRead
  cases bodyRead : readBody mode { id := title } body with
  | error problem =>
      rw [bodyRead] at sectionRead
      cases sectionRead
  | ok draft =>
      rw [bodyRead] at sectionRead
      cases sectionRead
      exact ⟨draft, rfl, rfl⟩

/-- The node of a section comes from its heading and its body. -/
theorem exists_of_readSection {part : Section} {node : Node}
    (sectionRead : readSection mode part = .ok (some node)) :
    ∃ title speaker body draft,
      readHeading {} part.lines = (⟨some title, speaker⟩, some body) ∧
        readBody mode { id := title } body = .ok draft ∧ node = draft.finish speaker := by
  have unfolded := sectionRead
  unfold readSection at unfolded
  split at unfolded
  · rename_i title speaker body heading
    obtain ⟨draft, bodyRead, nodeEq⟩ := exists_draft_of_readSection sectionRead heading
    exact ⟨title, speaker, body, draft, heading, bodyRead, Option.some.inj nodeEq⟩
  · split at unfolded
    · cases unfolded
    · cases mode <;> cases unfolded

/-- A section is passed over, or its node comes last, or a node with its id is there already. -/
theorem addSection_cases {nodes next : List Node} {part : Section}
    (added : addSection mode nodes part = .ok next) :
    readSection mode part = .ok none ∧ next = nodes ∨
      ∃ node, readSection mode part = .ok (some node) ∧
        (node.id ∉ nodes.map Node.id ∧ next = nodes ++ [node] ∨
          mode = .lenient ∧ next = nodes) := by
  unfold addSection at added
  cases sectionRead : readSection mode part with
  | error problem =>
      rw [sectionRead] at added
      cases added
  | ok found =>
      rw [sectionRead] at added
      cases found with
      | none =>
          cases added
          exact Or.inl ⟨rfl, rfl⟩
      | some node =>
          refine Or.inr ⟨node, rfl, ?_⟩
          change (if (nodes.any fun other => other.id = node.id) = true then _ else _) = _ at added
          split at added
          · cases mode with
            | strict => cases added
            | lenient =>
                cases added
                exact Or.inr ⟨rfl, rfl⟩
          · rename_i fresh
            cases added
            refine Or.inl ⟨?_, rfl⟩
            simpa using fresh

/-- What the nodes of sections are, read after other nodes. -/
structure Gathered (mode : Mode) (parts : List Section) (before nodes : List Node) : Prop where
  distinct : (nodes.map Node.id).Nodup
  kept : ∀ node ∈ before, node ∈ nodes
  source : ∀ node ∈ nodes, node ∈ before ∨ ∃ part ∈ parts, readSection mode part = .ok (some node)
  complete : mode = .strict → ∀ part ∈ parts, ∃ found, readSection mode part = .ok found ∧
    ∀ node ∈ found, node ∈ nodes

theorem gathered_of_foldlM {parts : List Section} {before nodes : List Node}
    (distinct : (before.map Node.id).Nodup)
    (read : parts.foldlM (addSection mode) before = .ok nodes) :
    Gathered mode parts before nodes := by
  induction parts generalizing before with
  | nil =>
      cases read
      exact ⟨distinct, fun _ member => member, fun _ member => Or.inl member, by simp⟩
  | cons part parts inductionHypothesis =>
      rw [List.foldlM_cons] at read
      cases added : addSection mode before part with
      | error problem =>
          rw [added] at read
          cases read
      | ok middle =>
          rw [added] at read
          rcases addSection_cases added with ⟨found, rfl⟩ | ⟨node, found, ⟨fresh, rfl⟩ | ⟨rfl, rfl⟩⟩
          · obtain ⟨nodup, kept, source, complete⟩ := inductionHypothesis distinct read
            refine ⟨nodup, kept, fun node member => ?_, fun strict => ?_⟩
            · exact (source node member).imp_right fun ⟨other, listed, otherRead⟩ =>
                ⟨other, List.mem_cons_of_mem _ listed, otherRead⟩
            · exact List.forall_mem_cons.mpr ⟨⟨none, found, by simp⟩, complete strict⟩
          · have more : ((before ++ [node]).map Node.id).Nodup := by
              rw [List.map_append, List.map_singleton, List.nodup_append]
              refine ⟨distinct, by simp, ?_⟩
              intro left leftMember right rightMember same
              rw [same, List.mem_singleton.mp rightMember] at leftMember
              exact fresh leftMember
            obtain ⟨nodup, kept, source, complete⟩ := inductionHypothesis more read
            refine ⟨nodup, fun other member => kept other (List.mem_append_left _ member),
              fun other member => ?_, fun strict => ?_⟩
            · rcases source other member with inMiddle | ⟨origin, listed, otherRead⟩
              · rcases List.mem_append.mp inMiddle with inBefore | isNode
                · exact Or.inl inBefore
                · rw [List.mem_singleton.mp isNode]
                  exact Or.inr ⟨part, List.mem_cons_self, found⟩
              · exact Or.inr ⟨origin, List.mem_cons_of_mem _ listed, otherRead⟩
            · refine List.forall_mem_cons.mpr ⟨⟨some node, found, ?_⟩, complete strict⟩
              rintro _ ⟨⟩
              exact kept node (by simp)
          · obtain ⟨nodup, kept, source, complete⟩ := inductionHypothesis distinct read
            refine ⟨nodup, kept, fun other member => ?_, fun strict => by cases strict⟩
            exact (source other member).imp_right fun ⟨origin, listed, otherRead⟩ =>
              ⟨origin, List.mem_cons_of_mem _ listed, otherRead⟩

/-! ## Trees -/

/-- A tree is made of the nodes of its script. -/
theorem exists_of_read {tree : DialogueTree} (parsed : read mode script = .ok tree) :
    ∃ nodes, Gathered mode (sectionsFrom 1 (numberedLines script)) [] nodes ∧
      tree = (Preamble.ofLines (numberedLines script)).tree nodes := by
  unfold read at parsed
  dsimp only at parsed
  cases nodesRead : readNodes mode (sectionsFrom 1 (numberedLines script)) with
  | error problem =>
      rw [nodesRead] at parsed
      cases parsed
  | ok nodes =>
      rw [nodesRead] at parsed
      cases parsed
      exact ⟨nodes, gathered_of_foldlM List.nodup_nil nodesRead, rfl⟩

theorem entries_tree (preamble : Preamble) {nodes : List Node}
    (distinct : (nodes.map Node.id).Nodup) :
    (preamble.tree nodes).nodes.entries = nodes.map DialogueTree.entryOf :=
  DialogueTree.entries_withNodes distinct

theorem nodeList_tree (preamble : Preamble) {nodes : List Node}
    (distinct : (nodes.map Node.id).Nodup) : (preamble.tree nodes).nodeList = nodes := by
  unfold DialogueTree.nodeList OrderedMap.values
  rw [entries_tree preamble distinct, List.map_map]
  exact List.map_id nodes

theorem get?_tree (preamble : Preamble) {nodes : List Node} (distinct : (nodes.map Node.id).Nodup)
    {node : Node} (listed : node ∈ nodes) : (preamble.tree nodes).get? node.id = some node := by
  have entries := entries_tree preamble distinct
  have member : (node.id, node) ∈ (preamble.tree nodes).nodes.entries := by
    rw [entries]
    exact List.mem_map_of_mem listed
  exact lookup_of_mem (preamble.tree nodes).nodes.distinct member

end BranchingDialogue.Script

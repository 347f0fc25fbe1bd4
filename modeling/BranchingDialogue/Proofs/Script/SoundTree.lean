import BranchingDialogue.Proofs.Graph.Lint
import BranchingDialogue.Proofs.Script.Reading
import BranchingDialogue.Proofs.Script.SoundReading

/-! The headings of sections and the comments about a dialogue give labels, and the bodies of
sections give sound nodes. A tree without errors starts at one of its nodes and has its blocks in
groups. -/

namespace BranchingDialogue.Script

open Text

/-! ## Headings -/

private theorem of_keyAndValue {line key value : List Char}
    (found : keyAndValue line = some (key, value)) (oneLine : OneLine line) :
    Trimmed value ∧ OneLine value := by
  obtain ⟨⟨before, after⟩, cutEq, equality⟩ := Option.map_eq_some_iff.mp found
  cases equality
  refine ⟨trimmed_trim after, fun feed => oneLine ?_⟩
  rw [eq_append_of_cut cutEq]
  exact List.mem_append_right _ (mem_of_mem_trim feed)

/-- Whether the names of a heading are labels. -/
structure Heading.Sound (heading : Heading) : Prop where
  title : ∀ name ∈ heading.title, IsLabel (String.ofList name)
  speaker : ∀ name ∈ heading.speaker, IsLabel (String.ofList name)

theorem Heading.Sound.readLine {heading : Heading} (sound : heading.Sound) {line : List Char}
    (oneLine : OneLine line) : (heading.readLine line).Sound := by
  unfold Heading.readLine
  split
  · exact sound
  · rename_i key value found
    obtain ⟨trimmed, valueLine⟩ := of_keyAndValue found oneLine
    split
    · exact sound
    · rename_i filled
      have label := isLabel_ofList (by simpa using filled) trimmed valueLine
      split
      · exact ⟨by rintro _ ⟨⟩; exact label, sound.speaker⟩
      · split
        · exact ⟨sound.title, by rintro _ ⟨⟩; exact label⟩
        · exact sound

theorem Heading.Sound.foldl {lines : List NumberedLine}
    (areLines : ∀ line ∈ lines, OneLine line.text) {heading : Heading} (sound : heading.Sound) :
    (lines.foldl (fun heading line => heading.readLine line.text) heading).Sound := by
  induction lines generalizing heading with
  | nil => exact sound
  | cons line lines inductionHypothesis =>
      obtain ⟨oneLine, othersAreLines⟩ := List.forall_mem_cons.mp areLines
      exact inductionHypothesis othersAreLines (sound.readLine oneLine)

/-! ## Comments about the dialogue -/

/-- Whether the names of a preamble are labels. -/
structure Preamble.Sound (preamble : Preamble) : Prop where
  id : ∀ name ∈ preamble.id, IsLabel name
  title : ∀ name ∈ preamble.title, IsLabel name

theorem Preamble.Sound.readLine {preamble : Preamble} (sound : preamble.Sound) {line : List Char}
    (oneLine : OneLine line) : (preamble.readLine line).Sound := by
  unfold Preamble.readLine
  split
  · exact sound
  · rename_i key value found
    obtain ⟨rest, lead, restFound⟩ := Option.bind_eq_some_iff.mp found
    have restLine : OneLine rest := by
      intro feed
      apply oneLine
      rw [← List.append_eq_of_isPrefixOf?_eq_some lead]
      exact List.mem_append_right _ feed
    obtain ⟨trimmed, valueLine⟩ := of_keyAndValue restFound restLine
    dsimp only
    split
    · exact sound
    · rename_i filled
      have label := isLabel_ofList (by simpa using filled) trimmed valueLine
      split
      · exact ⟨by rintro _ ⟨⟩; exact label, sound.title⟩
      · split
        · exact ⟨sound.id, by rintro _ ⟨⟩; exact label⟩
        · split
          · exact ⟨sound.id, sound.title⟩
          · exact sound

private theorem Preamble.sound_ofLines {lines : List NumberedLine}
    (areLines : ∀ line ∈ lines, OneLine line.text) : (Preamble.ofLines lines).Sound := by
  have run (before : List NumberedLine) (beforeLines : ∀ line ∈ before, OneLine line.text)
      (preamble : Preamble) (sound : preamble.Sound) :
      (before.foldl (fun preamble line => preamble.readLine line.text) preamble).Sound := by
    induction before generalizing preamble with
    | nil => exact sound
    | cons line before inductionHypothesis =>
        obtain ⟨oneLine, othersAreLines⟩ := List.forall_mem_cons.mp beforeLines
        exact inductionHypothesis othersAreLines _ (sound.readLine oneLine)
  refine run _ (fun line member => ?_) {} ⟨by rintro _ ⟨⟩, by rintro _ ⟨⟩⟩
  exact areLines line ((List.takeWhile_prefix _).subset member)

/-! ## Trees -/

variable {mode : Mode} {script : List Char} {tree : DialogueTree}

/-- Every node of a tree comes of a sound draft. -/
theorem exists_draft_of_read (parsed : read mode script = .ok tree) {node : Node}
    (listed : node ∈ tree.nodeList) :
    ∃ (draft : Draft) (heading : Option (List Char)),
      draft.Sound ∧ IsLabel (String.ofList draft.id) ∧
      (∀ name ∈ heading, IsLabel (String.ofList name)) ∧ node = draft.finish heading := by
  obtain ⟨nodes, gathered, rfl⟩ := exists_of_read parsed
  rw [nodeList_tree _ gathered.distinct] at listed
  rcases gathered.source node listed with inNone | ⟨part, partListed, partRead⟩
  · cases inNone
  · obtain ⟨title, speaker, body, draft, heading, bodyRead, rfl⟩ := exists_of_readSection partRead
    obtain ⟨front, mark, partEq, -, headingEq⟩ := exists_of_readHeading heading
    have headingSound : Heading.Sound ⟨some title, speaker⟩ := by
      rw [headingEq]
      refine Heading.Sound.foldl (fun line inFront => ?_) ⟨by rintro _ ⟨⟩, by rintro _ ⟨⟩⟩
      have inPart : line ∈ part.lines := by
        rw [partEq]
        exact List.mem_append_left _ inFront
      exact (text_of_mem_section partListed inPart).2.1
    have draftSound : draft.Sound := by
      apply readBody_induction (Draft.Sound.empty title) _ bodyRead
      intro before line after inBody made sound
      obtain ⟨trimmed, oneLine, apart⟩ :=
        text_of_mem_section partListed (mem_of_mem_body heading inBody)
      exact sound.step trimmed oneLine apart made
    refine ⟨draft, speaker, draftSound, ?_, headingSound.speaker, rfl⟩
    rw [id_of_readBody bodyRead]
    exact headingSound.title title rfl

theorem finish_eq (draft : Draft) (heading : Option (List Char)) :
    draft.finish heading =
      ⟨String.ofList draft.closeBlock.id,
        (heading.or draft.passage.speaker).map String.ofList, draft.closeBlock.kind⟩ := by
  unfold Draft.finish
  rw [draft.id_closeBlock, Option.orElse_eq_orElse, Option.orElse_eq_or]

private theorem node_sound_of_read (parsed : read mode script = .ok tree) {node : Node}
    (listed : node ∈ tree.nodeList) (defined : DefinedValues node) : node.Sound := by
  obtain ⟨draft, heading, draftSound, label, labels, rfl⟩ := exists_draft_of_read parsed listed
  rw [finish_eq] at defined ⊢
  refine sound_kind draftSound.closeBlock (by rw [draft.id_closeBlock]; exact label) ?_ ?_ defined
  · intro name named
    obtain ⟨found, member, rfl⟩ := Option.map_eq_some_iff.mp named
    rcases Option.or_eq_some_iff.mp member with inHeading | ⟨-, inBody⟩
    · exact labels found inHeading
    · exact (draftSound.passage.speaker found inBody).label
  · intro nameless
    rw [draft.passage_closeBlock]
    exact (Option.or_eq_none_iff.mp (Option.map_eq_none_iff.mp nameless)).2

theorem ownIds_of_read (parsed : read mode script = .ok tree) : tree.HasOwnIds := by
  obtain ⟨nodes, gathered, rfl⟩ := exists_of_read parsed
  unfold DialogueTree.HasOwnIds
  rw [entries_tree _ gathered.distinct]
  intro entry member
  obtain ⟨node, -, rfl⟩ := List.mem_map.mp member
  rfl

/-- The names of a tree have a property that all labels have, if its start has it. -/
theorem names_of_read {property : String → Prop} (parsed : read mode script = .ok tree)
    (ofLabel : ∀ name, IsLabel name → property name) (start : property tree.start) :
    property tree.id ∧ property tree.title := by
  have told (name : Option String) (labels : ∀ found ∈ name, IsLabel found) {other : String}
      (otherHas : property other) : property (name.getD other) := by
    cases name with
    | none => exact otherHas
    | some found => exact ofLabel found (labels found rfl)
  have preamble : (Preamble.ofLines (numberedLines script)).Sound :=
    Preamble.sound_ofLines fun line member => (text_of_mem_numberedLines member).2
  have names : tree.id = (Preamble.ofLines (numberedLines script)).id.getD tree.start ∧
      tree.title = (Preamble.ofLines (numberedLines script)).title.getD tree.id := by
    obtain ⟨nodes, gathered, rfl⟩ := exists_of_read parsed
    unfold Preamble.tree
    dsimp only
    obtain ⟨idEq, titleEq, startEq⟩ := DialogueTree.heading_withNodes
      (DialogueTree.bare _ _ _) nodes
    rw [idEq, titleEq, startEq]
    exact ⟨rfl, rfl⟩
  have id : property tree.id := by
    rw [names.1]
    exact told _ preamble.id start
  refine ⟨id, ?_⟩
  rw [names.2]
  exact told _ preamble.title id

/-- A tree that is read is sound, when it has a start and its values are defined. -/
theorem sound_of_read (parsed : read mode script = .ok tree)
    (start : tree.contains tree.start = true)
    (defined : ∀ node ∈ tree.nodeList, DefinedValues node) : tree.Sound := by
  have nodesSound : ∀ node ∈ tree.nodeList, node.Sound := by
    intro node listed
    exact node_sound_of_read parsed listed (defined node listed)
  have ownIds := ownIds_of_read parsed
  have startLabel : IsLabel tree.start := by
    obtain ⟨node, listed, id⟩ := ownIds.contains_iff.mp start
    rw [← id]
    exact (nodesSound node listed).1
  obtain ⟨idLabel, titleLabel⟩ := names_of_read parsed (fun _ label => label) startLabel
  refine ⟨idLabel, titleLabel, start, fun entry member => ?_⟩
  exact ⟨ownIds entry member, nodesSound entry.2 (List.mem_map_of_mem member)⟩

/-- The blocks of the nodes of a tree without errors are groups. -/
theorem isGroup_of_read {schema : FlagSchema} (parsed : read mode script = .ok tree)
    (noErrors : ∀ issue ∈ tree.lint schema, issue.isError = false) {node : Node}
    (listed : node ∈ tree.nodeList) : ∀ blocks ∈ node.blocks?, isGroup blocks = true := by
  obtain ⟨draft, heading, sound, -, -, rfl⟩ := exists_draft_of_read parsed listed
  have placed := fun index block => @misplaced_of_lint tree schema noErrors _ listed index block
  rw [finish_eq] at placed ⊢
  exact isGroup_kind sound.closeBlock draft.openBlock_closeBlock placed

/-- A tree that is read without errors is scriptable when its nodes are recoverable. -/
theorem scriptable_of_read {schema : FlagSchema} (parsed : read mode script = .ok tree)
    (noErrors : ∀ issue ∈ tree.lint schema, issue.isError = false)
    (defined : ∀ node ∈ tree.nodeList, DefinedValues node)
    (recoverable : ∀ node ∈ tree.nodeList, node.Recoverable) : tree.Scriptable := by
  have sound := sound_of_read parsed (contains_start_of_lint noErrors) defined
  refine ⟨sound.id, sound.title, sound.start, fun entry member => ?_⟩
  obtain ⟨ownId, nodeSound⟩ := sound.nodes entry member
  have listed : entry.2 ∈ tree.nodeList := List.mem_map_of_mem member
  have group := isGroup_of_read parsed noErrors listed
  exact ⟨ownId, nodeSound.scriptable (recoverable _ listed) group⟩

end BranchingDialogue.Script

import Mathlib.Data.List.Nodup
import BranchingDialogue.Proofs.Script.Discard
import BranchingDialogue.Proofs.Script.RoundTrip
import BranchingDialogue.Proofs.Script.SoundTree
import BranchingDialogue.Proofs.Script.Tidy

/-! A tree that has been read without errors is read back from its own script exactly when its nodes
are recoverable: every line of content that begins like a command is one, and every speaker has
dialogue that its name can stand before. -/

namespace BranchingDialogue.Script

open Text

variable {tree : DialogueTree} {node : Node}

/-! ## Lines of a body -/

private theorem headingSpeaker_eq_none {id : String} {speaker : Option String} {speech : Speech}
    (dialogue : hasDialogue speech.content = true) :
    headingSpeaker ⟨id, speaker, .npc speech⟩ = none := by
  unfold headingSpeaker
  exact if_pos dialogue

/-- The lines of a written body are safe, but for the choices of a player. -/
theorem isSafeLine_writeBody (sound : node.Sound)
    (valid : headingSpeaker node = none → ∀ name ∈ node.speaker, IsSpeaker name)
    (noChoices : ∀ choices, node.kind ≠ .player choices) {line : List Char}
    (member : line ∈ writeBody node) : IsSafeLine (trim line) := by
  obtain ⟨id, speaker, kind⟩ := node
  obtain ⟨-, ofKind⟩ := sound
  cases kind with
  | npc speech =>
      have trimmed := (isSectionLine_speech ofKind member).1
      rw [trimmed]
      apply isSafeLine_speech ofKind _ member
      intro dialogue
      exact valid (headingSpeaker_eq_none dialogue)
  | player choices => exact absurd rfl (noChoices choices)
  | conditional blocks =>
      have trimmed := (isSectionLine_writeBlocks ofKind.2 member).1
      rw [trimmed]
      exact isSafeLine_writeBlocks ofKind.2 member

/-! ## Drafts of written bodies -/

theorem Draft.Tidy.recoverable {draft : Draft} (tidy : draft.Tidy) (sound : draft.Sound)
    {id : String} {speaker : Option String}
    (valid : headingSpeaker ⟨id, speaker, draft.kind⟩ = none → ∀ name ∈ speaker, IsSpeaker name) :
    Node.Recoverable ⟨id, speaker, draft.kind⟩ := by
  rcases draft.kind_cases with ⟨-, kindEq⟩ | ⟨-, -, -, kindEq⟩ | ⟨-, kindEq, -⟩
  · rw [kindEq]
    exact ⟨trivial, by rintro _ ⟨⟩⟩
  · rw [kindEq]
    exact ⟨trivial, tidy.blocks⟩
  · rw [kindEq] at valid ⊢
    have content : lines draft.speech.content.toList = draft.passage.lines :=
      sound.passage.lines_content
    refine ⟨⟨?_, fun dialogue => valid (headingSpeaker_eq_none dialogue)⟩, ?_⟩
    · unfold CompleteCommands
      rw [content]
      exact tidy.passage.commands
    · rw [draft.blocks_speech]
      exact tidy.blocks

section OwnBody

variable {body : List NumberedLine} {draft : Draft}

private theorem exists_written {line : NumberedLine} (inBody : line ∈ body)
    (texts : body.map NumberedLine.text = (writeBody node).map trim) :
    ∃ raw ∈ writeBody node, line.text = trim raw := by
  have listed : line.text ∈ (writeBody node).map trim := by
    rw [← texts]
    exact List.mem_map_of_mem inBody
  obtain ⟨raw, inWritten, textEq⟩ := List.mem_map.mp listed
  exact ⟨raw, inWritten, textEq.symm⟩

private theorem oneLine_trim_writeBody (sound : node.Sound) {raw : List Char}
    (listed : raw ∈ writeBody node) : OneLine (trim raw) := by
  intro feed
  exact (isSectionLine_writeBody sound listed).isLine.oneLine (mem_of_mem_trim feed)

theorem sound_of_readBody (sound : node.Sound)
    (texts : body.map NumberedLine.text = (writeBody node).map trim)
    (bodyRead : readBody .lenient { id := node.id.toList } body = .ok draft) : draft.Sound := by
  apply readBody_induction (.empty _) _ bodyRead
  intro before line after inBody made beforeSound
  obtain ⟨raw, listed, textEq⟩ := exists_written inBody texts
  rw [textEq] at made
  exact beforeSound.step (trimmed_trim raw) (oneLine_trim_writeBody sound listed)
    (isSectionLine_writeBody sound listed).apart made

private theorem tidy_of_readBody (sound : node.Sound)
    (valid : headingSpeaker node = none → ∀ name ∈ node.speaker, IsSpeaker name)
    (noChoices : ∀ choices, node.kind ≠ .player choices)
    (texts : body.map NumberedLine.text = (writeBody node).map trim)
    (bodyRead : readBody .lenient { id := node.id.toList } body = .ok draft) : draft.Tidy := by
  have both : draft.Sound ∧ draft.Tidy := by
    apply @readBody_induction .lenient (fun reached => reached.Sound ∧ reached.Tidy)
      { id := node.id.toList } draft body ⟨.empty _, .empty _⟩ _ bodyRead
    intro before line after inBody made beforeBoth
    obtain ⟨beforeSound, beforeTidy⟩ := beforeBoth
    obtain ⟨raw, listed, textEq⟩ := exists_written inBody texts
    have trimmed := trimmed_trim raw
    have oneLine := oneLine_trim_writeBody sound listed
    rw [textEq] at made
    constructor
    · exact beforeSound.step trimmed oneLine (isSectionLine_writeBody sound listed).apart made
    · exact beforeTidy.step beforeSound trimmed oneLine
        (isSafeLine_writeBody sound valid noChoices listed) made
  exact both.2

/-- A node that is read from its own written body is recoverable. -/
theorem recoverable_of_readBody (sound : node.Sound)
    (texts : body.map NumberedLine.text = (writeBody node).map trim)
    (bodyRead : readBody .lenient { id := node.id.toList } body = .ok draft)
    (nodeEq : node = draft.finish ((headingSpeaker node).map String.toList)) :
    node.Recoverable := by
  have draftSound := sound_of_readBody sound texts bodyRead
  rw [finish_eq] at nodeEq
  -- Without a speaker in the heading the speaker is one that a dialogue line has named.
  have valid : headingSpeaker node = none → ∀ name ∈ node.speaker, IsSpeaker name := by
    intro nameless name named
    rw [nameless] at nodeEq
    rw [nodeEq] at named
    obtain ⟨found, inBody, rfl⟩ := Option.map_eq_some_iff.mp named
    exact draftSound.passage.speaker found inBody
  by_cases player : ∃ choices, node.kind = .player choices
  · obtain ⟨choices, kindEq⟩ := player
    obtain ⟨id, speaker, kind⟩ := node
    cases kindEq
    exact ⟨trivial, by rintro _ ⟨⟩⟩
  · have noChoices : ∀ choices, node.kind ≠ .player choices := by
      intro choices same
      exact player ⟨choices, same⟩
    have draftTidy := tidy_of_readBody sound valid noChoices texts bodyRead
    rw [nodeEq] at valid ⊢
    exact (draftTidy.closeBlock draftSound).recoverable draftSound.closeBlock valid

end OwnBody

/-! ## Trees that are read back -/

private theorem exists_isWritten {nodes : List Node} {parts : List Section}
    (written : List.Forall₂ IsWritten nodes parts) {part : Section} (listed : part ∈ parts) :
    ∃ node ∈ nodes, IsWritten node part := by
  induction written with
  | nil => cases listed
  | @cons node first nodes parts isWritten _ inductionHypothesis =>
      rcases List.mem_cons.mp listed with rfl | inOthers
      · exact ⟨node, List.mem_cons_self, isWritten⟩
      · obtain ⟨found, member, foundWritten⟩ := inductionHypothesis inOthers
        exact ⟨found, List.mem_cons_of_mem _ member, foundWritten⟩

/-- Each node of a tree that is read back is read from the body that was written for it. -/
theorem exists_draft_of_reload (sound : tree.Sound)
    (parsed : read .lenient (write tree) = .ok tree) (listed : node ∈ tree.nodeList) :
    ∃ (body : List NumberedLine) (draft : Draft),
      body.map NumberedLine.text = (writeBody node).map trim ∧
        readBody .lenient { id := node.id.toList } body = .ok draft ∧
        node = draft.finish ((headingSpeaker node).map String.toList) := by
  obtain ⟨nodes, gathered, treeEq⟩ := exists_of_read parsed
  have nodesEq : tree.nodeList = nodes := by
    rw [treeEq]
    exact nodeList_tree _ gathered.distinct
  have inNodes : node ∈ nodes := by
    rw [← nodesEq]
    exact listed
  rcases gathered.source node inNodes with inNone | ⟨part, partListed, partRead⟩
  · cases inNone
  · obtain ⟨origin, originListed, body, heading, texts⟩ :=
      exists_isWritten (sectionsFrom_write sound.keepsSections (nodeList_ne_nil sound)) partListed
    obtain ⟨draft, bodyRead, found⟩ := exists_draft_of_readSection partRead heading
    have nodeEq := Option.some.inj found
    have sameId : origin.id = node.id := by
      rw [nodeEq, finish_eq, draft.id_closeBlock, id_of_readBody bodyRead, String.ofList_toList]
    have same : origin = node :=
      List.inj_on_of_nodup_map (ownIds_of_sound sound).nodup_ids originListed listed sameId
    rw [same] at texts bodyRead nodeEq
    exact ⟨body, draft, texts, bodyRead, nodeEq⟩

/-- The tree of a script without errors is read back from its own script exactly when all of its
nodes are recoverable. -/
theorem readLeniently_write_iff {script : List Char} (accepted : read .strict script = .ok tree)
    (noErrors : ∀ issue ∈ tree.lint .empty, issue.isError = false)
    (defined : ∀ node ∈ tree.nodeList, DefinedValues node) :
    readLeniently (write tree) = tree ↔ ∀ node ∈ tree.nodeList, node.Recoverable := by
  have sound : tree.Sound := sound_of_read accepted (contains_start_of_lint noErrors) defined
  constructor
  · intro same node listed
    have parsed : read .lenient (write tree) = .ok tree := by rw [read_lenient, same]
    obtain ⟨body, draft, texts, bodyRead, nodeEq⟩ := exists_draft_of_reload sound parsed listed
    exact recoverable_of_readBody (sound_of_mem sound node listed) texts bodyRead nodeEq
  · intro recoverable
    have scriptable := scriptable_of_read accepted noErrors defined recoverable
    unfold readLeniently
    rw [read_write scriptable .lenient]

/-- A script with a speech, blocks and choices. -/
def tollScript : List Char :=
  ("title: gate\n---\nGuard: Halt: a toll.\n<<if $met>>\nYou again.\n<<endif>>\n" ++
    "<<jump toll>>\n===\ntitle: toll\nspeaker: A: B\n---\n-> Pay.\n" ++
    "    <<set $paid = true>>\n-> Leave.\n===\n").toList

theorem readLeniently_write_tollScript :
    ∃ tree, read .strict tollScript = .ok tree ∧
      (∀ issue ∈ tree.lint .empty, issue.isError = false) ∧
      (∀ node ∈ tree.nodeList, DefinedValues node) ∧
      (readLeniently (write tree) = tree ↔ ∀ node ∈ tree.nodeList, node.Recoverable) := by
  have accepted : read .strict tollScript = .ok (readLeniently tollScript) := by decide +kernel
  have noErrors : ∀ issue ∈ (readLeniently tollScript).lint .empty, issue.isError = false := by
    decide +kernel
  have defined : ∀ node ∈ (readLeniently tollScript).nodeList, DefinedValues node := by
    decide +kernel
  exact ⟨_, accepted, noErrors, defined, readLeniently_write_iff accepted noErrors defined⟩

/-- A script with a line that looks like a command behind the name of its speaker. -/
def bowScript : List Char :=
  "title: a\n---\nGuard: <<bow>>\n===\n".toList

/-- The writer leaves the name before such a line out, and the reader passes the line over. -/
theorem speech_lost_behind_speaker :
    ∃ tree, read .strict bowScript = .ok tree ∧
      (∀ issue ∈ tree.lint .empty, issue.isError = false) ∧
      (∀ node ∈ tree.nodeList, DefinedValues node) ∧ readLeniently (write tree) ≠ tree := by
  refine ⟨readLeniently bowScript, ?_, ?_, ?_, ?_⟩ <;> decide +kernel

end BranchingDialogue.Script

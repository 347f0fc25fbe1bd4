import BranchingDialogue.Proofs.Script.SoundReading
import BranchingDialogue.Proofs.Script.Node

/-! Behind the names of speakers the writer puts dialogue only. A body of such lines gives content
in which every line that begins like a command is one, and speakers that have something to say. -/

namespace BranchingDialogue.Script

open Text

/-! ## Lines -/

/-- Whether a line has nothing that begins like a command behind the name of a speaker. -/
def IsSafeLine (line : List Char) : Prop :=
  isSpokenLine line = true → ∀ name text, splitSpeaker line = (some name, text) →
    List.isPrefixOf ['<', '<'] (unescapeLine text) = false

private theorem isSafeLine_of_markup {line : List Char}
    (markup : List.isPrefixOf ['<', '<'] line = true) : IsSafeLine line := by
  intro spoken
  rw [(isSpokenLine_iff.mp spoken).2.2] at markup
  cases markup

private theorem isSafeLine_writtenLine {speaker : Option String} {line : List Char}
    (sound : IsSoundLine speaker line)
    (valid : isDialogue line = true → ∀ name ∈ speaker, IsSpeaker name) :
    IsSafeLine (writtenLine speaker line) := by
  have dialogue := isDialogue_eq sound.filled sound.trimmed
  unfold writtenLine
  split
  · rename_i markup
    exact isSafeLine_of_markup markup
  · rename_i noMarkup
    have plain : List.isPrefixOf ['<', '<'] line = false := (Bool.not_eq_true _).mp noMarkup
    intro _ name text split
    cases speaker with
    | none =>
        dsimp only at split
        rw [splitSpeaker_escapeLine] at split
        cases split
    | some owner =>
        obtain ⟨isName, label, -⟩ := valid (by rw [dialogue, plain]; rfl) owner rfl
        dsimp only at split
        rw [splitSpeaker_append isName label.trimmed (trimmed_escapeLine sound.trimmed)] at split
        cases split
        rw [unescapeLine_escapeLine]
        exact plain

private theorem isSafeLine_writeContent {speaker : Option String} {content : String}
    (sound : SoundContent speaker content)
    (valid : hasDialogue content = true → ∀ name ∈ speaker, IsSpeaker name) {written : List Char}
    (member : written ∈ writeContent speaker content) : IsSafeLine written := by
  obtain ⟨line, listed, rfl⟩ := exists_of_mem_writeContent sound member
  refine isSafeLine_writtenLine (sound.lines line listed) fun dialogue => ?_
  exact valid (List.any_eq_true.mpr ⟨line, listed, dialogue⟩)

private theorem isSafeLine_writeJump {slot : Slot} {line : List Char}
    (member : line ∈ writeJump slot) : IsSafeLine line := by
  obtain ⟨target, -, rfl⟩ := Option.map_eq_some_iff.mp (Option.mem_toList.mp member)
  exact isSafeLine_of_markup rfl

theorem isSafeLine_writeBlocks {blocks : List Block} (sound : ∀ block ∈ blocks, block.Sound)
    {line : List Char} (member : line ∈ writeBlocks blocks) : IsSafeLine line := by
  unfold writeBlocks at member
  split at member
  · cases member
  · rcases List.mem_append.mp member with inBlocks | inEnd
    · obtain ⟨block, listed, inBlock⟩ := List.mem_flatMap.mp inBlocks
      have blockSound := sound block listed
      unfold writeBlock at inBlock
      rcases List.mem_append.mp inBlock with inFront | inJump
      · rcases List.mem_cons.mp inFront with rfl | inContent
        · cases block.kind <;> exact isSafeLine_of_markup rfl
        · exact isSafeLine_writeContent blockSound.content (fun _ => blockSound.speaker) inContent
      · exact isSafeLine_writeJump inJump
    · rw [List.mem_singleton.mp inEnd]
      exact isSafeLine_of_markup rfl

theorem isSafeLine_speech {speaker : Option String} {speech : Speech}
    (sound : speech.Sound speaker)
    (valid : hasDialogue speech.content = true → ∀ name ∈ speaker, IsSpeaker name)
    {line : List Char}
    (member : line ∈ writeContent speaker speech.content ++ writeBlocks (speech.blocks.getD []) ++
      (speech.raises.getD []).map raiseCommand ++ writeJump speech.next) : IsSafeLine line := by
  rcases List.mem_append.mp member with inFront | inJump
  · rcases List.mem_append.mp inFront with inLines | inRaises
    · rcases List.mem_append.mp inLines with inContent | inBlocks
      · exact isSafeLine_writeContent sound.content valid inContent
      · exact isSafeLine_writeBlocks sound.forall_blocks inBlocks
    · obtain ⟨flag, -, rfl⟩ := List.mem_map.mp inRaises
      exact isSafeLine_of_markup rfl
  · exact isSafeLine_writeJump inJump

/-! ## Passages -/

/-- Whether the lines of a passage that begin like commands are commands, and its speaker, if it has
one, has dialogue. -/
structure Passage.Tidy (place : Place) (passage : Passage) : Prop where
  commands : ∀ line ∈ passage.lines, List.isPrefixOf ['<', '<'] line = true →
    ∃ command ∈ readCommand line, place = .node → command.expression.isTrue = false
  speaker : passage.speaker.isSome = true → passage.lines.any isDialogue = true

namespace Passage.Tidy

variable {place : Place} {passage : Passage} {line : List Char}

theorem empty : Passage.Tidy place {} :=
  ⟨by simp, by simp⟩

theorem addCommand (tidy : passage.Tidy place) {command : SetCommand}
    (read : readCommand line = some command)
    (noRaise : place = .node → command.expression.isTrue = false) :
    (passage.addCommand line).Tidy place := by
  refine ⟨List.forall_mem_append.mpr ⟨tidy.commands, ?_⟩, fun named => ?_⟩
  · exact List.forall_mem_singleton.mpr fun _ => ⟨command, read, noRaise⟩
  · unfold Passage.addCommand
    dsimp only
    rw [List.any_append, tidy.speaker named, Bool.true_or]

theorem addDialogue (tidy : passage.Tidy place) (spoken : isSpokenLine line = true)
    (trimmed : Trimmed line) (oneLine : OneLine line) (safe : IsSafeLine line) :
    (passage.addDialogue line).Tidy place := by
  have plain {text : List Char} (noMarkup : List.isPrefixOf ['<', '<'] text = false) :
      List.isPrefixOf ['<', '<'] text = true →
        ∃ command ∈ readCommand text, place = .node → command.expression.isTrue = false := by
    intro markup
    rw [noMarkup] at markup
    cases markup
  rcases addDialogue_cases passage line with ⟨name, text, split, -, equality⟩ | equality
  · obtain ⟨textFilled, textTrimmed, -⟩ := text_of_splitSpeaker split trimmed oneLine
    have noMarkup := safe spoken name text split
    rw [equality]
    refine ⟨List.forall_mem_append.mpr ⟨tidy.commands, ?_⟩, fun _ => ?_⟩
    · exact List.forall_mem_singleton.mpr (plain noMarkup)
    · have dialogue : isDialogue (unescapeLine text) = true := by
        rw [isDialogue_eq (unescapeLine_ne_nil textFilled) (trimmed_unescapeLine textTrimmed),
          noMarkup]
        rfl
      dsimp only
      rw [List.any_append, List.any_cons, dialogue, Bool.true_or, Bool.or_true]
  · rw [equality]
    refine ⟨List.forall_mem_append.mpr ⟨tidy.commands, ?_⟩, fun named => ?_⟩
    · refine List.forall_mem_singleton.mpr (plain ?_)
      rw [Bool.eq_false_iff]
      intro begins
      have markup := isPrefixOf_of_unescapeLine (by decide) begins
      rw [(isSpokenLine_iff.mp spoken).2.2] at markup
      cases markup
    · dsimp only at named ⊢
      rw [List.any_append, tidy.speaker named, Bool.true_or]

end Passage.Tidy

/-! ## Drafts -/

/-- Whether a draft gives a recoverable node, but for the speaker in its heading. -/
structure Draft.Tidy (draft : Draft) : Prop where
  passage : draft.passage.Tidy .node
  blocks : ∀ block ∈ draft.blocks, block.Recoverable
  openBlock : ∀ block ∈ draft.openBlock, block.passage.Tidy .block

private theorem OpenBlock.recoverable_close {block : OpenBlock} (sound : block.passage.Sound)
    (tidy : block.passage.Tidy .block) : block.close.Recoverable := by
  have lines : lines block.close.content.toList = block.passage.lines := sound.lines_content
  refine ⟨?_, fun named => ?_⟩
  · unfold CompleteCommands
    rw [lines]
    exact tidy.commands
  · unfold hasDialogue
    rw [lines]
    exact tidy.speaker (by simpa [OpenBlock.close] using named)

namespace Draft.Tidy

variable {draft next : Draft} {line : List Char}

theorem empty (id : List Char) : Draft.Tidy { id } :=
  ⟨.empty, by simp, by rintro _ ⟨⟩⟩

theorem closeBlock (tidy : draft.Tidy) (sound : draft.Sound) : draft.closeBlock.Tidy := by
  obtain ⟨id, passage, slot, raises, choices, blocks, openBlock⟩ := draft
  cases openBlock with
  | none => exact tidy
  | some block =>
      have last :=
        OpenBlock.recoverable_close (sound.openBlock block rfl).passage (tidy.openBlock block rfl)
      exact ⟨tidy.passage,
        List.forall_mem_append.mpr ⟨tidy.blocks, List.forall_mem_singleton.mpr last⟩,
        by rintro _ ⟨⟩⟩

theorem openNext (tidy : draft.Tidy) (sound : draft.Sound) (kind : BlockKind)
    (conditions : List Condition) : (draft.openNext kind conditions).Tidy := by
  obtain ⟨passage, blocks, -⟩ := tidy.closeBlock sound
  refine ⟨passage, blocks, ?_⟩
  rintro _ ⟨⟩
  exact .empty

theorem step (tidy : draft.Tidy) (sound : draft.Sound) (trimmed : Trimmed line)
    (oneLine : OneLine line) (safe : IsSafeLine line) (made : draft.Step line next) :
    next.Tidy := by
  cases made with
  | idle idle => exact tidy
  | choice arrow split filled => exact ⟨tidy.passage, tidy.blocks, tidy.openBlock⟩
  | beginGroup keyword closed read => exact tidy.openNext sound _ _
  | continueGroup keyword opened unfinished read => exact tidy.openNext sound _ _
  | endWithElse keyword opened unfinished => exact tidy.openNext sound _ _
  | endGroup keyword => exact tidy.closeBlock sound
  | @jumpFromBlock target block keyword filled shown opened =>
      refine ⟨tidy.passage, tidy.blocks, ?_⟩
      rintro _ ⟨⟩
      exact tidy.openBlock block opened
  | jumpFromChoice keyword filled shown closed chosen =>
      exact ⟨tidy.passage, tidy.blocks, tidy.openBlock⟩
  | jump keyword filled shown closed noChoices =>
      exact ⟨tidy.passage, tidy.blocks, tidy.openBlock⟩
  | @commandInBlock argument command block keyword read opened =>
      refine ⟨tidy.passage, tidy.blocks, ?_⟩
      rintro _ ⟨⟩
      exact (tidy.openBlock block opened).addCommand read (by rintro ⟨⟩)
  | raiseInChoice keyword read raises closed chosen =>
      exact ⟨tidy.passage, tidy.blocks, tidy.openBlock⟩
  | raise keyword read raises closed noChoices =>
      exact ⟨tidy.passage, tidy.blocks, tidy.openBlock⟩
  | command keyword read noRaise closed noChoices =>
      exact ⟨tidy.passage.addCommand read fun _ => noRaise, tidy.blocks, tidy.openBlock⟩
  | @dialogueInBlock block spoken opened =>
      refine ⟨tidy.passage, tidy.blocks, ?_⟩
      rintro _ ⟨⟩
      exact (tidy.openBlock block opened).addDialogue spoken trimmed oneLine safe
  | dialogue spoken closed noChoices =>
      exact ⟨tidy.passage.addDialogue spoken trimmed oneLine safe, tidy.blocks, tidy.openBlock⟩

end Draft.Tidy

end BranchingDialogue.Script

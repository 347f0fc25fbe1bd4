import BranchingDialogue.Proofs.Script.Choice

/-! The body of a node is read into a draft that becomes the node, when the speaker in its heading
is given to the draft. -/

namespace BranchingDialogue

namespace Script

open Text

/-! ## Headings and bodies -/

/-- The speaker that is written in the heading of a node. -/
def headingSpeaker (node : Node) : Option String :=
  match node.kind with
  | .npc speech => if hasDialogue speech.content then none else node.speaker
  | .player _ => node.speaker
  | .conditional _ => node.speaker

def writeBody (node : Node) : List (List Char) :=
  match node.kind with
  | .npc speech =>
      writeContent node.speaker speech.content ++ writeBlocks (speech.blocks.getD []) ++
        (speech.raises.getD []).map raiseCommand ++ writeJump speech.next
  | .player choices => choices.flatMap writeChoice
  | .conditional blocks => writeBlocks blocks

theorem writeNode_eq (node : Node) :
    writeNode node =
      ("title: ".toList ++ node.id.toList) :: writeSpeaker (headingSpeaker node) ++
        bodyStart :: writeBody node ++ [sectionEnd] := by
  obtain ⟨id, speaker, kind⟩ := node
  cases kind with
  | npc speech =>
      unfold writeNode writeKind headingSpeaker writeBody hasDialogue
      dsimp only
      cases (lines speech.content.toList).any isDialogue <;> simp [writeSpeaker]
  | player choices => simp [writeNode, writeKind, headingSpeaker, writeBody]
  | conditional blocks => simp [writeNode, writeKind, headingSpeaker, writeBody]

private theorem isLabel_headingSpeaker {node : Node} (sound : node.Sound) {name : String}
    (named : name ∈ headingSpeaker node) : IsLabel name := by
  obtain ⟨id, speaker, kind⟩ := node
  obtain ⟨-, ofKind⟩ := sound
  cases kind with
  | npc speech =>
      unfold headingSpeaker at named
      dsimp only at named ofKind
      split at named
      · cases named
      · exact ofKind.speaker name named
  | player choices => exact ofKind.1 name named
  | conditional blocks => exact ofKind.1 name named

/-! ## Bodies -/

variable {id : String} {speaker : Option String}

private theorem speaker_of_hasDialogue {speech : Speech} (scriptable : speech.Scriptable speaker)
    (dialogue : hasDialogue speech.content = true) : ∀ name ∈ speaker, IsSpeaker name := by
  intro name named
  have whole := scriptable.speaker name named
  rw [if_pos dialogue] at whole
  exact whole

private theorem addLines_speech_blocks {speech : Speech} (scriptable : speech.Scriptable speaker)
    {draft : Draft} (closed : draft.openBlock = none) (first : draft.blocks = []) :
    draft.addLines (writeBlocks (speech.blocks.getD [])) =
      some { draft with blocks := speech.blocks.getD [] } := by
  cases listed : speech.blocks with
  | none =>
      cases draft
      cases first
      rfl
  | some blocks =>
      obtain ⟨group, blocksScriptable, -⟩ := scriptable.blocks blocks listed
      have read := draft.addLines_writeBlocks closed group blocksScriptable
      rw [first, List.nil_append] at read
      exact read

/-- The draft that the lines of a speech are read into. -/
def speechDraft (id : String) (speaker : Option String) (speech : Speech) : Draft :=
  { id := id.toList
    passage := spoken speaker (lines speech.content.toList)
    next := speech.next
    raises := speech.raises.getD []
    blocks := speech.blocks.getD [] }

/-- The lines of a speech are read into a draft with all that it consists of. -/
theorem addLines_speech {speech : Speech} (scriptable : speech.Scriptable speaker) :
    ({ id := id.toList } : Draft).addLines
      (writeContent speaker speech.content ++ writeBlocks (speech.blocks.getD []) ++
        (speech.raises.getD []).map raiseCommand ++ writeJump speech.next) =
      some (speechDraft id speaker speech) := by
  let spokenOnly : Draft :=
    { id := id.toList, passage := spoken speaker (lines speech.content.toList) }
  let withBlocks : Draft := { spokenOnly with blocks := speech.blocks.getD [] }
  let withRaises : Draft := { withBlocks with raises := speech.raises.getD [] }
  have content : ({ id := id.toList } : Draft).addLines (writeContent speaker speech.content) =
      some spokenOnly :=
    addLines_writtenLines (@takesContent_node { id := id.toList } rfl rfl) scriptable.content.lines
      (speaker_of_hasDialogue scriptable) []
  have blocks : spokenOnly.addLines (writeBlocks (speech.blocks.getD [])) = some withBlocks :=
    addLines_speech_blocks scriptable rfl rfl
  have raises : withBlocks.addLines ((speech.raises.getD []).map raiseCommand) =
      some withRaises := by
    let put (raises : List String) : Draft := { withBlocks with raises }
    have takes : ∀ before flag line, readCommand line = some ⟨flag, .literal (.bool true)⟩ →
        (put before).addCommand line = some (put (before ++ [flag])) := by
      intro before flag line read
      simp [put, Draft.addCommand, read, withBlocks, spokenOnly, SetExpression.isTrue]
    exact addLines_raises takes scriptable.raises.forall_getD []
  have jump : withRaises.addLines (writeJump speech.next) =
      some (speechDraft id speaker speech) := by
    let put (next : Slot) : Draft := { withRaises with next }
    have takes : ∀ target : String, target.toList ≠ [] → target.toList.any isBlank = false →
        (put none).addJump target.toList = some (put (some target)) := by
      intro target filled shown
      simp [put, Draft.addJump, filled, shown, withRaises, withBlocks, spokenOnly]
    exact addLines_writeJump takes scriptable.next
  rw [Draft.addLines_append, Draft.addLines_append, Draft.addLines_append, content,
    Option.bind_some, blocks, Option.bind_some, raises, Option.bind_some, jump]

/-- What else a speech consists of keeps its blocks from being a node of their own. -/
theorem besides_speech {speech : Speech} (scriptable : speech.Scriptable speaker)
    (filled : speech.blocks.getD [] ≠ []) :
    (spoken speaker (lines speech.content.toList)).lines ≠ [] ∨ speech.raises.getD [] ≠ [] ∨
      speech.next ≠ none := by
  obtain ⟨blocks, listed⟩ : ∃ blocks, speech.blocks = some blocks := by
    cases listed : speech.blocks with
    | none =>
        rw [listed] at filled
        exact absurd rfl filled
    | some blocks => exact ⟨blocks, rfl⟩
  rcases (scriptable.blocks blocks listed).2.2 with content | raised | follows
  · left
    intro none
    have same := content_spoken scriptable.content
    unfold Passage.content at same
    rw [none] at same
    exact content same.symm
  · right
    left
    intro none
    have raises := scriptable.raises.eq_ite
    rw [none] at raises
    exact raised raises
  · exact Or.inr (Or.inr follows)

private theorem speech_speechDraft {speech : Speech} (scriptable : speech.Scriptable speaker) :
    (speechDraft id speaker speech).speech = speech := by
  have content : (speechDraft id speaker speech).passage.content = speech.content :=
    content_spoken scriptable.content
  have raises : speech.raises =
      if (speech.raises.getD []).isEmpty then none else some (speech.raises.getD []) :=
    scriptable.raises.eq_ite
  have blocks : speech.blocks =
      if (speech.blocks.getD []).isEmpty then none else some (speech.blocks.getD []) := by
    cases listed : speech.blocks with
    | none => rfl
    | some blocks =>
        have group := (scriptable.blocks blocks listed).1
        cases blocks with
        | nil => cases group
        | cons block others => rfl
  unfold Draft.speech
  rw [content]
  unfold speechDraft
  dsimp only
  rw [← raises, ← blocks]

private theorem finish_speechDraft {speech : Speech} (scriptable : speech.Scriptable speaker) :
    (speechDraft id speaker speech).finish
        ((headingSpeaker ⟨id, speaker, .npc speech⟩).map String.toList) =
      ⟨id, speaker, .npc speech⟩ := by
  have speakerEq : ((((headingSpeaker ⟨id, speaker, .npc speech⟩).map String.toList) <|>
      (spoken speaker (lines speech.content.toList)).speaker).map String.ofList) = speaker := by
    unfold headingSpeaker spoken hasDialogue
    dsimp only
    cases (lines speech.content.toList).any isDialogue <;> cases speaker <;> simp
  have kindEq : (speechDraft id speaker speech).kind = .npc speech := by
    rw [Draft.kind_eq_speech rfl (besides_speech scriptable), speech_speechDraft scriptable]
  have closed : (speechDraft id speaker speech).closeBlock = speechDraft id speaker speech := rfl
  unfold Draft.finish
  rw [closed, kindEq]
  unfold speechDraft
  dsimp only
  rw [speakerEq, String.ofList_toList]

theorem isSectionLine_speech {speech : Speech} (sound : speech.Sound speaker) {line : List Char}
    (member : line ∈ writeContent speaker speech.content ++ writeBlocks (speech.blocks.getD []) ++
      (speech.raises.getD []).map raiseCommand ++ writeJump speech.next) :
    Trimmed line ∧ IsSectionLine line := by
  rcases List.mem_append.mp member with inFront | inJump
  · rcases List.mem_append.mp inFront with inLines | inRaises
    · rcases List.mem_append.mp inLines with inContent | inBlocks
      · exact isSectionLine_writeContent sound.content (fun _ => sound.speaker) inContent
      · exact isSectionLine_writeBlocks sound.forall_blocks inBlocks
    · obtain ⟨flag, listed, rfl⟩ := List.mem_map.mp inRaises
      exact isSectionLine_raiseCommand (sound.raises.forall_getD flag listed)
  · exact isSectionLine_writeJump sound.next inJump

theorem map_trim_eq_self {lines : List (List Char)} (trimmed : ∀ line ∈ lines, Trimmed line) :
    lines.map trim = lines := by
  calc lines.map trim = lines.map id := List.map_congr_left trimmed
    _ = lines := List.map_id lines

theorem exists_draft_writeBody {node : Node} (scriptable : node.Scriptable) :
    ∃ draft, ({ id := node.id.toList } : Draft).addLines ((writeBody node).map trim) =
      some draft ∧ draft.finish ((headingSpeaker node).map String.toList) = node := by
  obtain ⟨id, speaker, kind⟩ := node
  obtain ⟨-, ofKind⟩ := scriptable
  cases kind with
  | npc speech =>
      have sound := Speech.Scriptable.sound ofKind
      have trimmed := map_trim_eq_self fun line member => (isSectionLine_speech sound member).1
      refine ⟨_, ?_, finish_speechDraft ofKind⟩
      unfold writeBody
      rw [trimmed]
      exact addLines_speech ofKind
  | player choices =>
      obtain ⟨-, filled, numbered, scriptable⟩ := ofKind
      rw [List.range_eq_range'] at numbered
      have read := @addLines_writeChoices { id := id.toList } rfl choices scriptable
        (by rw [String.ofList_toList]; exact numbered)
      refine ⟨_, read, ?_⟩
      unfold Draft.finish headingSpeaker
      cases speaker <;> simp [Draft.closeBlock, Draft.kind, filled]
  | conditional blocks =>
      obtain ⟨-, group, scriptable⟩ := ofKind
      have sound := fun block member => Block.Scriptable.sound (scriptable block member)
      have trimmed := map_trim_eq_self fun line member => (isSectionLine_writeBlocks sound member).1
      have read := @Draft.addLines_writeBlocks { id := id.toList } rfl blocks group scriptable
      have filled : blocks ≠ [] := by
        rintro rfl
        cases group
      refine ⟨{ id := id.toList, blocks }, ?_, ?_⟩
      · unfold writeBody
        rw [trimmed]
        exact read
      · unfold Draft.finish headingSpeaker
        cases speaker <;> simp [Draft.closeBlock, Draft.kind, filled]

/-- The lines of a body can stand in a section. -/
theorem isSectionLine_writeBody {node : Node} (sound : node.Sound) {line : List Char}
    (member : line ∈ writeBody node) : IsSectionLine line := by
  obtain ⟨id, speaker, kind⟩ := node
  obtain ⟨-, ofKind⟩ := sound
  cases kind with
  | npc speech => exact (isSectionLine_speech ofKind member).2
  | player choices =>
      obtain ⟨choice, listed, inChoice⟩ := List.mem_flatMap.mp member
      exact isSectionLine_writeChoice (ofKind.2.2.2 choice listed) inChoice
  | conditional blocks => exact (isSectionLine_writeBlocks ofKind.2 member).2

end Script

/-- Whether the lines of the written section of a node stay lines of one section. -/
structure Node.KeepsSection (node : Node) : Prop where
  id : IsLabel node.id
  speaker : ∀ name ∈ Script.headingSpeaker node, IsLabel name
  body : ∀ line ∈ Script.writeBody node, Script.IsSectionLine line

theorem Node.Sound.keepsSection {node : Node} (sound : node.Sound) : node.KeepsSection :=
  ⟨sound.1, fun _ named => Script.isLabel_headingSpeaker sound named,
    fun _ member => Script.isSectionLine_writeBody sound member⟩

end BranchingDialogue

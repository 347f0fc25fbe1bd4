import BranchingDialogue.Proofs.Script.Content

/-! The arms of a group of blocks are read one after another. Each arm closes the one before it, and
the mark at the end closes the last. -/

namespace BranchingDialogue.Script

open Text

/-! ## Lines of markup -/

theorem Draft.addLine_markup_eq (draft : Draft) {word : String} {argument : List Char}
    (shown : ∀ character ∈ word.toList, isBlank character = false) (filled : word.toList ≠ [])
    (trimmed : Trimmed argument) :
    draft.addLine (markup word argument) = draft.follow (markup word argument) word argument := by
  have begins : List.isPrefixOf ['<', '<'] (markup word argument) = true := rfl
  rw [addLine_markup begins, addMarkup_eq, keywordAndArgument_markup shown filled trimmed,
    Option.bind_some]
  dsimp only
  rw [String.ofList_toList]

theorem isSectionLine_markup {word : String} {argument : List Char} (wordLine : OneLine word.toList)
    (argumentLine : OneLine argument) :
    Trimmed (markup word argument) ∧ IsSectionLine (markup word argument) := by
  have trimmed : Trimmed (markup word argument) := by
    have ends := Trimmed.append (show Trimmed ['<', '<'] from rfl) (by simp)
      (show Trimmed ['>', '>'] from rfl) (by simp)
      (word.toList ++ if argument.isEmpty then [] else ' ' :: argument)
    rw [markup, List.append_assoc ['<', '<']]
    exact ends
  have opening : OneLine ['<', '<'] := by decide
  have closing : OneLine ['>', '>'] := by decide
  have inner : OneLine (if argument.isEmpty then [] else ' ' :: argument) := by
    split
    · exact isLine_nil.oneLine
    · exact argumentLine.cons (by decide)
  have whole := ((opening.append wordLine).append inner).append closing
  refine ⟨trimmed, isSectionLine_of_trimmed trimmed whole ?_⟩
  intro same
  cases same

/-! ## Jumps -/

theorem writeJump_eq {slot : Slot} (scriptable : slot.Scriptable) :
    writeJump slot = (slot.map fun target => markup "jump" target.toList).toList := by
  cases slot with
  | none => rfl
  | some target =>
      have filled : target ≠ "" := by
        rintro rfl
        exact (scriptable "" rfl).1 rfl
      simp [writeJump, Slot.live, filled]

/-- A jump is read into the slot that takes it. -/
theorem addLines_writeJump {put : Slot → Draft}
    (takes : ∀ target : String, target.toList ≠ [] → target.toList.any isBlank = false →
      (put none).addJump target.toList = some (put (some target)))
    {slot : Slot} (scriptable : slot.Scriptable) :
    (put none).addLines (writeJump slot) = some (put slot) := by
  rw [writeJump_eq scriptable]
  cases slot with
  | none => rfl
  | some target =>
      obtain ⟨filled, shown⟩ := scriptable target rfl
      have noBlank : target.toList.any isBlank = false := by simpa using shown
      have step := takes target filled noBlank
      rw [Option.map_some, Option.toList_some, Draft.addLines_cons,
        Draft.addLine_markup_eq _ (by decide) (by decide) (trimmed_of_forall shown)]
      simp [Draft.follow, step, Draft.addLines]

theorem isSectionLine_writeJump {slot : Slot} (scriptable : slot.Scriptable) {line : List Char}
    (member : line ∈ writeJump slot) : Trimmed line ∧ IsSectionLine line := by
  rw [writeJump_eq scriptable] at member
  cases slot with
  | none => cases member
  | some target =>
      obtain rfl : line = markup "jump" target.toList := by simpa using member
      refine isSectionLine_markup (by decide) ?_
      intro feed
      have shown := (scriptable target rfl).2 '\n' feed
      cases shown

/-! ## Blocks -/

def asOpen (block : Block) : OpenBlock :=
  { kind := block.kind
    conditions := block.conditions
    passage := spoken block.speaker (lines block.content.toList)
    next := block.next }

theorem content_spoken {place : Place} {speaker : Option String} {content : String}
    (scriptable : ScriptableContent place speaker content) :
    (spoken speaker (lines content.toList)).content = content := by
  unfold spoken Passage.content
  rw [scriptable.joined, String.ofList_toList]

private theorem speaker_spoken {speaker : Option String} {parts : List (List Char)}
    (written : ∀ name ∈ speaker, parts.any isDialogue = true) :
    (spoken speaker parts).speaker.map String.ofList = speaker := by
  unfold spoken
  cases speaker with
  | none => cases parts.any isDialogue <;> rfl
  | some name => simp [written name rfl]

private theorem close_asOpen {block : Block} (scriptable : block.Scriptable) :
    (asOpen block).close = block := by
  have content := content_spoken scriptable.content
  have speaker := speaker_spoken fun name named => (scriptable.speaker name named).2
  unfold OpenBlock.close asOpen
  rw [content, speaker]

/-- The draft with a block opened and all of its lines read. -/
def Draft.openedAs (draft : Draft) (block : Block) : Draft :=
  { draft.closeBlock with openBlock := some (asOpen block) }

/-- The lines after the opening of a block. -/
theorem Draft.addLines_writeBlock_rest (draft : Draft) {block : Block}
    (scriptable : block.Scriptable) :
    (draft.openNext block.kind block.conditions).addLines
      (writeContent block.speaker block.content ++ writeJump block.next) =
        some (draft.openedAs block) := by
  let opened := OpenBlock.mk block.kind block.conditions {} none
  have content : (draft.openNext block.kind block.conditions).addLines
      (writeContent block.speaker block.content) =
        some { draft.closeBlock with openBlock := some { asOpen block with next := none } } :=
    addLines_writtenLines (takesContent_block draft.closeBlock opened) scriptable.content.lines
      (fun _ name named => (scriptable.speaker name named).1) []
  have jump := @addLines_writeJump
    (fun next => { draft.closeBlock with openBlock := some { asOpen block with next } })
    (fun target filled shown => by simp [addJump, filled, shown]) block.next scriptable.next
  rw [addLines_append, content]
  exact jump

private theorem Draft.addLines_writeBlock_if {draft : Draft} (closed : draft.openBlock = none)
    {block : Block} (kind : block.kind = .«if») (scriptable : block.Scriptable) :
    draft.addLines (writeBlock block) = some (draft.openedAs block) := by
  have rest := draft.addLines_writeBlock_rest scriptable
  rw [kind] at rest
  unfold writeBlock
  rw [kind]
  dsimp only
  rw [List.cons_append, addLines_cons,
    addLine_markup_eq _ (by decide) (by decide) (trimmed_writeExpression scriptable.conditions)]
  simp only [follow, beginGroup, closed, readExpression_writeExpression scriptable.conditions,
    Option.map_some, Option.bind_some]
  exact rest

private theorem Draft.addLines_writeBlock_elseIf {draft : Draft} {before block : Block}
    (unfinished : before.kind ≠ .«else») (kind : block.kind = .elseIf)
    (scriptable : block.Scriptable) :
    (draft.openedAs before).addLines (writeBlock block) =
      some ((draft.openedAs before).openedAs block) := by
  have rest := (draft.openedAs before).addLines_writeBlock_rest scriptable
  have goesOn : (asOpen before).kind ≠ .«else» := unfinished
  rw [kind] at rest
  unfold writeBlock
  rw [kind]
  dsimp only
  rw [List.cons_append, addLines_cons,
    addLine_markup_eq _ (by decide) (by decide) (trimmed_writeExpression scriptable.conditions)]
  simp only [follow, continueGroup, openedAs, goesOn, if_false,
    readExpression_writeExpression scriptable.conditions, Option.map_some, Option.bind_some]
  exact rest

private theorem Draft.addLines_writeBlock_else {draft : Draft} {before block : Block}
    (unfinished : before.kind ≠ .«else») (kind : block.kind = .«else»)
    (always : block.conditions = []) (scriptable : block.Scriptable) :
    (draft.openedAs before).addLines (writeBlock block) =
      some ((draft.openedAs before).openedAs block) := by
  have rest := (draft.openedAs before).addLines_writeBlock_rest scriptable
  have goesOn : (asOpen before).kind ≠ .«else» := unfinished
  rw [kind, always] at rest
  unfold writeBlock
  rw [kind]
  dsimp only
  rw [List.cons_append, addLines_cons,
    addLine_markup_eq _ (by decide) (by decide) trimmed_nil]
  simp only [follow, endGroupWithElse, openedAs, goesOn, decide_false, List.isEmpty_nil,
    Bool.not_true, Bool.or_self, Bool.false_eq_true, if_false, Option.bind_some]
  exact rest

/-! ## Groups -/

/-- The arms after one that is open are read one after another. -/
theorem Draft.addLines_continuesGroup {draft : Draft} {before : Block} {blocks : List Block}
    (goesOn : continuesGroup blocks = true) (unfinished : before.kind = .«else» → blocks = [])
    (scriptable : ∀ block ∈ blocks, block.Scriptable) :
    (draft.openedAs before).addLines (blocks.flatMap writeBlock) =
      some (blocks.foldl openedAs (draft.openedAs before)) := by
  induction blocks generalizing draft before with
  | nil => rfl
  | cons block blocks inductionHypothesis =>
      obtain ⟨blockScriptable, othersScriptable⟩ := List.forall_mem_cons.mp scriptable
      have notElse : before.kind ≠ .«else» := fun last => by cases unfinished last
      rw [List.flatMap_cons, addLines_append]
      cases kind : block.kind with
      | «if» => simp [continuesGroup, kind] at goesOn
      | elseIf =>
          have others : continuesGroup blocks = true := by simpa [continuesGroup, kind] using goesOn
          rw [addLines_writeBlock_elseIf notElse kind blockScriptable]
          exact inductionHypothesis others (fun last => by simp [kind] at last) othersScriptable
      | «else» =>
          obtain ⟨always, last⟩ : block.conditions = [] ∧ blocks = [] := by
            simpa [continuesGroup, kind] using goesOn
          rw [addLines_writeBlock_else notElse kind always blockScriptable]
          exact inductionHypothesis (by rw [last]; rfl) (fun _ => last) othersScriptable

private theorem Draft.closeBlock_foldl_openedAs {draft : Draft} {blocks : List Block}
    (scriptable : ∀ block ∈ blocks, block.Scriptable) :
    (blocks.foldl openedAs draft).closeBlock =
      { draft.closeBlock with blocks := draft.closeBlock.blocks ++ blocks } := by
  induction blocks generalizing draft with
  | nil => simp
  | cons block blocks inductionHypothesis =>
      obtain ⟨blockScriptable, othersScriptable⟩ := List.forall_mem_cons.mp scriptable
      have closed : (draft.openedAs block).closeBlock =
          { draft.closeBlock with blocks := draft.closeBlock.blocks ++ [block] } := by
        have noneOpen : draft.closeBlock.openBlock = none := by
          unfold closeBlock
          split
          · assumption
          · rfl
        rw [closeBlock]
        simp [openedAs, close_asOpen blockScriptable, noneOpen]
      rw [List.foldl_cons, inductionHypothesis othersScriptable, closed]
      simp

/-- A group of blocks is read back. -/
theorem Draft.addLines_writeBlocks {draft : Draft} (closed : draft.openBlock = none)
    {blocks : List Block} (group : isGroup blocks = true)
    (scriptable : ∀ block ∈ blocks, block.Scriptable) :
    draft.addLines (writeBlocks blocks) =
      some { draft with blocks := draft.blocks ++ blocks } := by
  have closedSame : draft.closeBlock = draft := by
    unfold closeBlock
    rw [closed]
  cases blocks with
  | nil => cases group
  | cons block blocks =>
      obtain ⟨blockScriptable, othersScriptable⟩ := List.forall_mem_cons.mp scriptable
      obtain ⟨kind, goesOn⟩ : block.kind = .«if» ∧ continuesGroup blocks = true := by
        simpa [isGroup] using group
      have notElse : block.kind = .«else» → blocks = [] := by
        intro last
        rw [kind] at last
        cases last
      have arms := @addLines_continuesGroup draft block blocks goesOn notElse othersScriptable
      have all := @closeBlock_foldl_openedAs draft (block :: blocks) scriptable
      unfold writeBlocks
      rw [if_neg (by simp), List.flatMap_cons, List.append_assoc, addLines_append,
        addLines_writeBlock_if closed kind blockScriptable, Option.bind_some, addLines_append, arms,
        Option.bind_some, addLines_cons, addLine_markup_eq _ (by decide) (by decide) trimmed_nil]
      show some (List.foldl openedAs (draft.openedAs block) blocks).closeBlock = _
      rw [← List.foldl_cons, all, closedSame]

/-- The lines of a group can stand in a section. -/
theorem isSectionLine_writeBlocks {blocks : List Block} (sound : ∀ block ∈ blocks, block.Sound)
    {line : List Char} (member : line ∈ writeBlocks blocks) : Trimmed line ∧ IsSectionLine line := by
  unfold writeBlocks at member
  split at member
  · cases member
  · rcases List.mem_append.mp member with inBlocks | inEnd
    · obtain ⟨block, listed, inBlock⟩ := List.mem_flatMap.mp inBlocks
      have blockSound := sound block listed
      unfold writeBlock at inBlock
      rcases List.mem_append.mp inBlock with inFront | inJump
      · rcases List.mem_cons.mp inFront with rfl | inContent
        · cases block.kind with
          | «if» | elseIf =>
              exact isSectionLine_markup (by decide)
                (oneLine_writeExpression blockSound.conditions)
          | «else» => exact isSectionLine_markup (by decide) isLine_nil.oneLine
        · exact isSectionLine_writeContent blockSound.content
            (fun _ name named => (blockSound.speaker name named).label) inContent
      · exact isSectionLine_writeJump blockSound.next inJump
    · obtain rfl : line = markup "endif" [] := List.mem_singleton.mp inEnd
      exact isSectionLine_markup (by decide) isLine_nil.oneLine

end BranchingDialogue.Script

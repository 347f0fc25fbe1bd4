import BranchingDialogue.Proofs.Script.Command
import BranchingDialogue.Proofs.Script.DialogueLine
import BranchingDialogue.Proofs.Script.Sound

/-! The lines of content are written one by one. Read into a node or into an open block, they give a
passage with the same lines, whose speaker is the one that was written before them. -/

namespace BranchingDialogue.Script

open Text

/-! ## Reading markup -/

def Draft.follow (draft : Draft) (line : List Char) (keyword : String) (argument : List Char) :
    Option Draft :=
  match keyword with
  | "if" => draft.beginGroup argument
  | "elseif" => draft.continueGroup argument
  | "else" => draft.endGroupWithElse argument
  | "endif" => some draft.closeBlock
  | "jump" => draft.addJump argument
  | "set" => draft.addCommand line
  | _ => none

theorem Draft.addMarkup_eq (draft : Draft) (line : List Char) :
    draft.addMarkup line =
      (keywordAndArgument line).bind fun (keyword, argument) =>
        draft.follow line (String.ofList keyword) argument := by
  unfold addMarkup keywordAndArgument
  cases (List.isPrefixOf? ['<', '<'] line).bind (List.isSuffixOf? ['>', '>']) with
  | none => rfl
  | some inside =>
      dsimp only [Option.map_some]
      cases cutWhere isBlank (trim inside) with
      | none => rfl
      | some parts => rfl

theorem Draft.addLine_markup {draft : Draft} {line : List Char}
    (begins : List.isPrefixOf ['<', '<'] line = true) :
    draft.addLine line = draft.addMarkup line := by
  obtain ⟨rest, rfl⟩ := List.isPrefixOf_iff_prefix.mp begins
  have shown : isIdle (['<', '<'] ++ rest) = false := rfl
  have noArrow : List.isPrefixOf? ['-', '>'] (['<', '<'] ++ rest) = none := rfl
  unfold addLine
  rw [shown, noArrow, begins]
  rfl

/-- A line that begins in no special way is read as dialogue. -/
theorem Draft.addLine_dialogue {draft : Draft} {line : List Char} (filled : line ≠ [])
    (noComment : isComment line = false) (noArrow : List.isPrefixOf ['-', '>'] line = false)
    (noMarkup : List.isPrefixOf ['<', '<'] line = false) :
    draft.addLine line = draft.addDialogue line := by
  have shown : isIdle line = false := by
    simp [isIdle, filled, noComment]
  have noLead : List.isPrefixOf? ['-', '>'] line = none :=
    isPrefixOf?_eq_none_iff_isPrefixOf.mpr noArrow
  unfold addLine
  rw [shown, noLead, noMarkup]
  rfl

theorem Draft.addLine_command {draft : Draft} {line : List Char} {command : SetCommand}
    (trimmed : Trimmed line) (begins : List.isPrefixOf ['<', '<'] line = true)
    (found : readCommand line = some command) : draft.addLine line = draft.addCommand line := by
  obtain ⟨argument, keyword⟩ := exists_keywordAndArgument_of_readCommand trimmed found
  rw [addLine_markup begins, addMarkup_eq, keyword]
  rfl

/-! ## Written lines -/

def writtenLine (speaker : Option String) (line : List Char) : List Char :=
  if List.isPrefixOf ['<', '<'] line then
    line
  else
    match speaker with
    | some name => name.toList ++ speakerMark ++ escapeLine line
    | none => escapeLine line

variable {place : Place} {speaker : Option String} {line : List Char}

theorem isDialogue_eq (filled : line ≠ []) (trimmed : Trimmed line) :
    isDialogue line = !List.isPrefixOf ['<', '<'] line := by
  have notEmpty : line.isEmpty = false := by simpa using filled
  unfold isDialogue
  rw [trimmed]
  dsimp only
  rw [notEmpty]
  rfl

private theorem writeContentLine_eq (filled : line ≠ []) (trimmed : Trimmed line) :
    writeContentLine speaker line = some (writtenLine speaker line) := by
  have notEmpty : line.isEmpty = false := by simpa using filled
  unfold writeContentLine writtenLine
  rw [trimmed]
  dsimp only
  rw [notEmpty, isDialogue_eq filled trimmed]
  cases List.isPrefixOf ['<', '<'] line <;> cases speaker <;> rfl

/-- Behind a name, a line begins like the name. -/
theorem isPrefixOf_speaker {name lead rest : List Char} (noColon : ':' ∉ lead)
    (other : List.isPrefixOf lead name = false) :
    List.isPrefixOf lead (name ++ ':' :: rest) = false := by
  rw [Bool.eq_false_iff, ne_eq, List.isPrefixOf_iff_prefix] at other ⊢
  intro begins
  exact other (isPrefix_of_append_cons noColon begins)

/-- What the reader asks of a line of dialogue holds of a written one. -/
theorem writtenLine_dialogue (content : IsContentLine place speaker line)
    (noMarkup : List.isPrefixOf ['<', '<'] line = false)
    (valid : ∀ name ∈ speaker, IsSpeaker name) :
    writtenLine speaker line ≠ [] ∧ isComment (writtenLine speaker line) = false ∧
      List.isPrefixOf ['-', '>'] (writtenLine speaker line) = false ∧
      List.isPrefixOf ['<', '<'] (writtenLine speaker line) = false := by
  unfold writtenLine
  rw [if_neg (by simp [noMarkup])]
  cases speaker with
  | none =>
      obtain ⟨noComment, noArrow, -⟩ := content.dialogue noMarkup rfl
      have kept {lead : List Char} (plain : '\\' ∉ lead)
          (other : List.isPrefixOf lead line = false) :
          List.isPrefixOf lead (escapeLine line) = false := by
        rw [Bool.eq_false_iff] at other ⊢
        exact fun begins => other (isPrefixOf_of_escapeLine plain begins)
      exact ⟨escapeLine_ne_nil content.filled, kept (by decide) noComment,
        kept (by decide) noArrow, kept (by decide) noMarkup⟩
  | some name =>
      obtain ⟨isName, label, noComment⟩ := valid name rfl
      have noArrow : List.isPrefixOf ['-', '>'] name.toList = false := by
        rw [Bool.eq_false_iff, ne_eq, List.isPrefixOf_iff_prefix]
        rintro ⟨rest, equality⟩
        exact (isSpeakerName_iff.mp isName).noDash (by rw [← equality]; rfl)
      have noAngle : List.isPrefixOf ['<', '<'] name.toList = false := by
        rw [Bool.eq_false_iff, ne_eq, List.isPrefixOf_iff_prefix]
        intro begins
        exact not_mem_speaker isName (by decide) (begins.subset List.mem_cons_self)
      dsimp only [speakerMark]
      rw [List.append_assoc]
      exact ⟨by simp, isPrefixOf_speaker (by decide) noComment,
        isPrefixOf_speaker (by decide) noArrow, isPrefixOf_speaker (by decide) noAngle⟩

/-! ## Passages -/

/-- The passage of lines that were written for a speaker. -/
def spoken (speaker : Option String) (lines : List (List Char)) : Passage :=
  ⟨if lines.any isDialogue then speaker.map String.toList else none, lines⟩

private theorem spoken_addDialogue (content : IsContentLine place speaker line)
    (noMarkup : List.isPrefixOf ['<', '<'] line = false) (valid : ∀ name ∈ speaker, IsSpeaker name)
    (before : List (List Char)) :
    (spoken speaker before).addDialogue (writtenLine speaker line) =
      spoken speaker (before ++ [line]) := by
  have dialogue : isDialogue line = true := by
    rw [isDialogue_eq content.filled content.trimmed, noMarkup]
    rfl
  unfold writtenLine Passage.addDialogue spoken
  rw [if_neg (by simp [noMarkup])]
  cases speaker with
  | none =>
      dsimp only
      rw [splitSpeaker_escapeLine]
      simp [unescapeLine_escapeLine]
  | some name =>
      obtain ⟨isName, label, -⟩ := valid name rfl
      dsimp only
      rw [splitSpeaker_append isName label.trimmed (trimmed_escapeLine content.trimmed)]
      cases before.any isDialogue <;> simp [unescapeLine_escapeLine, dialogue]

private theorem spoken_addCommand (content : IsContentLine place speaker line)
    (markup : List.isPrefixOf ['<', '<'] line = true) (before : List (List Char)) :
    (spoken speaker before).addCommand line = spoken speaker (before ++ [line]) := by
  have noDialogue : isDialogue line = false := by
    rw [isDialogue_eq content.filled content.trimmed, markup]
    rfl
  simp [spoken, Passage.addCommand, noDialogue]

/-! ## Content -/

def Draft.addLines (draft : Draft) (lines : List (List Char)) : Option Draft :=
  lines.foldlM Draft.addLine draft

theorem Draft.addLines_append (draft : Draft) (first second : List (List Char)) :
    draft.addLines (first ++ second) =
      (draft.addLines first).bind fun next => next.addLines second :=
  List.foldlM_append

theorem Draft.addLines_cons (draft : Draft) (line : List Char) (rest : List (List Char)) :
    draft.addLines (line :: rest) = (draft.addLine line).bind fun next => next.addLines rest :=
  List.foldlM_cons

/-- Whether drafts that differ in one passage take content of a place into that passage. -/
structure TakesContent (place : Place) (put : Passage → Draft) : Prop where
  dialogue : ∀ passage line, (put passage).addDialogue line = some (put (passage.addDialogue line))
  command : ∀ passage line command, readCommand line = some command →
    (place = .node → command.expression.isTrue = false) →
    (put passage).addCommand line = some (put (passage.addCommand line))

theorem takesContent_node {draft : Draft} (closed : draft.openBlock = none)
    (noChoices : draft.choices = []) :
    TakesContent .node fun passage => { draft with passage } := by
  constructor
  · intro passage line
    simp [Draft.addDialogue, closed, noChoices]
  · intro passage line command found noRaise
    simp [Draft.addCommand, found, closed, noChoices, noRaise rfl]

theorem takesContent_block (draft : Draft) (block : OpenBlock) :
    TakesContent .block fun passage =>
      { draft with openBlock := some { block with passage } } := by
  constructor
  · intro passage line
    rfl
  · intro passage line command found _
    simp [Draft.addCommand, found]

theorem addLines_writtenLines {put : Passage → Draft} (takes : TakesContent place put)
    {lines : List (List Char)} (content : ∀ line ∈ lines, IsContentLine place speaker line)
    (valid : lines.any isDialogue = true → ∀ name ∈ speaker, IsSpeaker name)
    (before : List (List Char)) :
    (put (spoken speaker before)).addLines (lines.filterMap (writeContentLine speaker)) =
      some (put (spoken speaker (before ++ lines))) := by
  induction lines generalizing before with
  | nil => simp [Draft.addLines]
  | cons line lines inductionHypothesis =>
      obtain ⟨lineContent, othersContent⟩ := List.forall_mem_cons.mp content
      have dialogue := isDialogue_eq lineContent.filled lineContent.trimmed
      have others := inductionHypothesis othersContent (fun some => valid (by simp [some]))
        (before ++ [line])
      have step : (put (spoken speaker before)).addLine (writtenLine speaker line) =
          some (put (spoken speaker (before ++ [line]))) := by
        cases begins : List.isPrefixOf ['<', '<'] line with
        | true =>
            obtain ⟨command, found, noRaise⟩ := lineContent.command begins
            have same : writtenLine speaker line = line := by
              simp [writtenLine, begins]
            rw [same, Draft.addLine_command lineContent.trimmed begins found,
              takes.command _ _ command found noRaise, spoken_addCommand lineContent begins]
        | false =>
            have validHere := valid (by simp [dialogue, begins])
            obtain ⟨filled, noComment, noArrow, noMarkup⟩ :=
              writtenLine_dialogue lineContent begins validHere
            rw [Draft.addLine_dialogue filled noComment noArrow noMarkup, takes.dialogue,
              spoken_addDialogue lineContent begins validHere]
      rw [List.filterMap_cons_some (writeContentLine_eq lineContent.filled lineContent.trimmed),
        Draft.addLines_cons, step, Option.bind_some, others, List.append_assoc,
        List.singleton_append]

/-! ## Lines of sections -/

/-- Whether a line can stand in a section: it stays one line, and is not the mark that ends the
section. -/
structure IsSectionLine (line : List Char) : Prop where
  isLine : IsLine line
  apart : trim line ≠ sectionEnd

theorem isSectionLine_of_trimmed {line : List Char} (trimmed : Trimmed line)
    (oneLine : OneLine line) (apart : line ≠ sectionEnd) : IsSectionLine line :=
  ⟨trimmed.isLine oneLine, by rw [trimmed]; exact apart⟩

private theorem isSectionLine_writtenLine (sound : IsSoundLine speaker line)
    (oneLine : OneLine line) (labels : isDialogue line = true → ∀ name ∈ speaker, IsLabel name) :
    Trimmed (writtenLine speaker line) ∧ IsSectionLine (writtenLine speaker line) := by
  have dialogue := isDialogue_eq sound.filled sound.trimmed
  unfold writtenLine
  cases begins : List.isPrefixOf ['<', '<'] line with
  | true =>
      refine ⟨sound.trimmed, isSectionLine_of_trimmed sound.trimmed oneLine ?_⟩
      rintro rfl
      cases begins
  | false =>
      cases speaker with
      | none =>
          have trimmed := trimmed_escapeLine sound.trimmed
          refine ⟨trimmed, isSectionLine_of_trimmed trimmed (oneLine_escapeLine oneLine) ?_⟩
          intro same
          have undone := unescapeLine_escapeLine line
          have notEnd := (sound.dialogue begins rfl).2.2
          simp only [Bool.false_eq_true, if_false] at same
          rw [same] at undone
          exact notEnd undone.symm
      | some name =>
          have label := labels (by simp [dialogue, begins]) name rfl
          have escaped := trimmed_escapeLine sound.trimmed
          have trimmed : Trimmed (name.toList ++ speakerMark ++ escapeLine line) :=
            label.trimmed.append label.filled escaped (escapeLine_ne_nil sound.filled) _
          have mark : OneLine speakerMark := by decide
          have whole := (label.oneLine.append mark).append (oneLine_escapeLine oneLine)
          refine ⟨trimmed, isSectionLine_of_trimmed trimmed whole ?_⟩
          intro same
          have colon : ':' ∈ sectionEnd := by
            rw [← same]
            simp [speakerMark]
          revert colon
          decide

theorem exists_of_mem_writeContent {content : String} (sound : SoundContent speaker content)
    {written : List Char} (member : written ∈ writeContent speaker content) :
    ∃ line ∈ lines content.toList, written = writtenLine speaker line := by
  obtain ⟨line, listed, writtenEq⟩ := List.mem_filterMap.mp member
  have soundLine := sound.lines line listed
  rw [writeContentLine_eq soundLine.filled soundLine.trimmed] at writtenEq
  exact ⟨line, listed, (Option.some.inj writtenEq).symm⟩

theorem isSectionLine_writeContent {content : String} (sound : SoundContent speaker content)
    (labels : hasDialogue content = true → ∀ name ∈ speaker, IsLabel name) {written : List Char}
    (member : written ∈ writeContent speaker content) :
    Trimmed written ∧ IsSectionLine written := by
  obtain ⟨line, listed, rfl⟩ := exists_of_mem_writeContent sound member
  refine isSectionLine_writtenLine (sound.lines line listed) (oneLine_of_mem_lines listed) ?_
  intro dialogue
  exact labels (List.any_eq_true.mpr ⟨line, listed, dialogue⟩)

end BranchingDialogue.Script

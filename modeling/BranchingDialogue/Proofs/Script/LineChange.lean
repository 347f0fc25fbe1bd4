import BranchingDialogue.Proofs.Play.FlagChange
import BranchingDialogue.Proofs.Script.Kept

/-! The changes that the lines of a body ask for. A dialogue line has commands inside, and a set
line is a command or raises a flag. The draft of a body holds the changes of the lines outside
blocks in two places: the flags that it raises, and the commands of its own lines. -/

namespace BranchingDialogue.Script

open Text

/-! ## Commands of lines -/

private theorem piecesFrom_of_length_le {covered : Nat} {text : List Char}
    (all : text.length ≤ covered) : piecesFrom covered text = [] := by
  induction text generalizing covered with
  | nil => cases covered <;> rfl
  | cons character text inductionHypothesis =>
      cases covered with
      | zero => cases all
      | succ covered => exact inductionHypothesis (Nat.le_of_succ_le_succ all)

/-- What stands before the mark behind a speaker does not end in a backslash. -/
theorem getLast?_ne_backslash {before : List Char} (isName : isSpeakerName (trim before) = true) :
    before.getLast? ≠ some '\\' := by
  obtain ⟨lead, tail, beforeEq, -, tailBlank⟩ := exists_eq_append_trim before
  intro last
  have reads := isSpeakerName_iff.mp isName
  rw [beforeEq, List.getLast?_append] at last
  cases tailLast : tail.getLast? with
  | some character =>
      rw [tailLast] at last
      cases last
      exact not_mem_of_blank tailBlank rfl (List.mem_of_getLast? tailLast)
  | none =>
      rw [tailLast, Option.none_or, List.getLast?_append_of_ne_nil _ reads.filled] at last
      exact reads.noEscape last

/-- The name of the speaker before a dialogue line has no part in its commands. -/
theorem commands_unescapeLine_text {line name text : List Char}
    (split : splitSpeaker line = (some name, text)) (trimmed : Trimmed line) :
    commands (unescapeLine text) = commands (unescapeLine line) := by
  obtain ⟨before, after, rfl, rfl, rfl, isName⟩ := exists_of_splitSpeaker split
  obtain ⟨nameLead, nameTail, beforeEq, leadBlank, tailBlank⟩ := exists_eq_append_trim before
  obtain ⟨textLead, textTail, afterEq, textBlank, endBlank⟩ := exists_eq_append_trim after
  have noTail : textTail = [] := by
    cases tailLast : textTail.getLast? with
    | none => exact List.getLast?_eq_none_iff.mp tailLast
    | some character =>
        have shown : isBlank character = false := by
          refine trimmed.last_shown ?_
          rw [afterEq, ← List.append_assoc, List.getLast?_append, tailLast, Option.some_or]
        exact absurd (List.mem_of_getLast? tailLast) (not_mem_of_blank endBlank shown)
  have noBracket : '<' ∉ before := by
    have inLead : '<' ∉ nameLead := not_mem_of_blank leadBlank rfl
    have inTail : '<' ∉ nameTail := not_mem_of_blank tailBlank rfl
    have inName : '<' ∉ trim before := not_mem_speaker isName (by decide)
    rw [beforeEq]
    simp [inLead, inName, inTail]
  have lineEq : unescapeLine (before ++ speakerMark ++ after) =
      (unescape lineMarks before ++ speakerMark ++ textLead) ++ unescapeLine (trim after) := by
    have behind : unescape lineMarks (speakerMark ++ after) =
        speakerMark ++ textLead ++ unescape lineMarks (trim after) := by
      have inLead : '\\' ∉ textLead := not_mem_of_blank textBlank rfl
      have plain : '\\' ∉ speakerMark ++ textLead := by simp [speakerMark, inLead]
      have whole : speakerMark ++ after = (speakerMark ++ textLead) ++ trim after := by
        conv_lhs => rw [afterEq, noTail]
        simp
      rw [whole, unescape_append plain]
    unfold unescapeLine
    rw [List.append_assoc, unescape_append_of_getLast? (getLast?_ne_backslash isName), behind]
    simp
  have plain : '<' ∉ unescape lineMarks before ++ speakerMark ++ textLead := by
    have inName : '<' ∉ unescape lineMarks before := fun member =>
      noBracket (mem_of_mem_unescape member)
    have inLead : '<' ∉ textLead := not_mem_of_blank textBlank rfl
    simp [inName, speakerMark, inLead]
  rw [lineEq, commands_append plain]

/-- A complete set command is the only command of its line. -/
theorem commandChanges_of_readCommand {line : List Char} {command : SetCommand}
    (trimmed : Trimmed line) (read : readCommand line = some command) :
    commandChanges (commands line) = [.assign command] := by
  unfold readCommand at read
  rw [trimmed] at read
  split at read
  · rename_i raw found
    cases line with
    | nil => cases found
    | cons character rest =>
        have single : commands (character :: rest) = [raw] := by
          simp [commands, pieces, piecesFrom, found, piecesFrom_of_length_le, Piece.command?]
        simp [commandChanges, single, read]
  · cases read

/-! ## Changes of lines -/

/-- The change that a set line asks for: a line that gives a flag the value `true` raises it. -/
def setLineChange (line : List Char) : Option FlagChange :=
  (readCommand line).map fun command =>
    if command.expression.isTrue then .raise command.flag else .assign command

/-- The changes that a line of a body asks for. -/
def lineChanges (line : List Char) : List FlagChange :=
  if isSpokenLine line then
    commandChanges (commands (unescapeLine line))
  else
    (setLineChange line).toList

/-- A line that is neither dialogue nor markup with the keyword `set` asks for nothing. -/
theorem lineChanges_eq_nil {line : List Char} (trimmed : Trimmed line)
    (silent : isSpokenLine line = false)
    (noSet : ∀ argument, keywordAndArgument line ≠ some ("set".toList, argument)) :
    lineChanges line = [] := by
  have noCommand : readCommand line = none := by
    cases read : readCommand line with
    | none => rfl
    | some command =>
        obtain ⟨argument, keyword⟩ := exists_keywordAndArgument_of_readCommand trimmed read
        exact absurd keyword (noSet argument)
  simp [lineChanges, silent, setLineChange, noCommand]

private theorem lineChanges_of_readCommand {line argument : List Char} {command : SetCommand}
    (keyword : keywordAndArgument line = some ("set".toList, argument))
    (read : readCommand line = some command) :
    lineChanges line =
      [if command.expression.isTrue then .raise command.flag else .assign command] := by
  simp [lineChanges, isSpokenLine_of_keyword keyword, setLineChange, read]

/-! ## Lines outside blocks -/

/-- Whether the lines after a line are inside blocks, when the line itself is or is not. -/
def insideAfter (inside : Bool) (line : List Char) : Bool :=
  match keywordAndArgument line with
  | some (keyword, _) =>
      (inside || String.ofList keyword == "if") && String.ofList keyword != "endif"
  | none => inside

def outsideLines : Bool → List (List Char) → List (List Char)
  | _, [] => []
  | inside, line :: rest =>
      let others := outsideLines (insideAfter inside line) rest
      if inside then others else line :: others

/-! ## Drafts -/

private theorem commands_addDialogue (passage : Passage) {line : List Char}
    (trimmed : Trimmed line) :
    (passage.addDialogue line).lines.flatMap commands =
      passage.lines.flatMap commands ++ commands (unescapeLine line) := by
  unfold Passage.addDialogue
  cases split : splitSpeaker line with
  | mk named text =>
      cases named with
      | none => simp
      | some name =>
          have behind := commands_unescapeLine_text split trimmed
          cases passage.speaker with
          | none => simp [behind]
          | some owner => by_cases same : name = owner <;> simp [same, behind]

/-- Whether a draft holds changes: those of commands in its own lines, and the raises beside. -/
structure Draft.Carries (draft : Draft) (changes : List FlagChange) : Prop where
  assigns : commandChanges (draft.passage.lines.flatMap commands) =
    changes.filter FlagChange.isAssign
  raises : draft.raises.map FlagChange.raise = changes.filter fun change => !change.isAssign

namespace Draft.Carries

variable {draft next : Draft} {changes : List FlagChange} {line : List Char}

theorem addDialogue (carries : draft.Carries changes) (trimmed : Trimmed line)
    (spoken : isSpokenLine line = true) :
    Draft.Carries { draft with passage := draft.passage.addDialogue line }
      (changes ++ lineChanges line) := by
  obtain ⟨assigns, raises⟩ := carries
  have asks : lineChanges line = commandChanges (commands (unescapeLine line)) := by
    simp [lineChanges, spoken]
  have allAssign : ∀ change ∈ lineChanges line, change.isAssign = true := by
    rw [asks]
    exact fun _ member => isAssign_of_mem_commandChanges member
  constructor
  · dsimp only
    rw [commands_addDialogue draft.passage trimmed, commandChanges_append, assigns,
      List.filter_append, List.filter_eq_self.mpr allAssign, asks]
  · rw [List.filter_append, ← raises, List.filter_eq_nil_iff.mpr, List.append_nil]
    intro change member
    simp [allAssign change member]

theorem empty (id : List Char) : Draft.Carries { id } [] :=
  ⟨rfl, rfl⟩

theorem congr (carries : draft.Carries changes) (passage : next.passage = draft.passage)
    (raises : next.raises = draft.raises) : next.Carries changes :=
  ⟨passage ▸ carries.assigns, raises ▸ carries.raises⟩

theorem closeBlock (carries : draft.Carries changes) : draft.closeBlock.Carries changes :=
  carries.congr draft.passage_closeBlock draft.raises_closeBlock

/-- What a line does to a draft without choices agrees with the changes that it asks for. -/
theorem step (carries : draft.Carries changes) (trimmed : Trimmed line)
    (made : draft.Step line next) (noChoices : next.choices = []) :
    next.Carries (changes ++ if draft.openBlock.isSome then [] else lineChanges line) := by
  obtain ⟨-, noArrow⟩ := (choices_eq_nil_iff_of_step made).mp noChoices
  have unasked (nothing : lineChanges line = []) :
      (changes ++ if draft.openBlock.isSome then [] else lineChanges line) = changes := by
    rw [nothing, ite_self, List.append_nil]
  have inside {block : OpenBlock} (opened : draft.openBlock = some block) :
      (changes ++ if draft.openBlock.isSome then [] else lineChanges line) = changes := by
    simp [opened]
  have outside (closed : draft.openBlock = none) :
      (changes ++ if draft.openBlock.isSome then [] else lineChanges line) =
        changes ++ lineChanges line := by
    simp [closed]
  have noSet {keyword : String} {argument : List Char}
      (found : keywordAndArgument line = some (keyword.toList, argument))
      (other : keyword.toList ≠ "set".toList) : lineChanges line = [] :=
    lineChanges_eq_nil trimmed (isSpokenLine_of_keyword found) fun _ same =>
      other (Prod.mk.inj (Option.some.inj (found.symm.trans same))).1
  cases made with
  | idle idle =>
      have noKeyword := keyword_eq_none (isPrefixOf_of_idle idle).2
      have silent : isSpokenLine line = false := by simp [isSpokenLine, idle]
      have nothing := lineChanges_eq_nil trimmed silent (by simp [noKeyword])
      rw [unasked nothing]
      exact carries
  | choice arrow =>
      -- The choice would be in the draft.
      rw [(isPrefixOf_of_arrow arrow).1] at noArrow
      cases noArrow
  | beginGroup keyword =>
      rw [unasked (noSet keyword (by decide))]
      exact carries.closeBlock.congr rfl rfl
  | continueGroup keyword opened =>
      rw [inside opened]
      exact carries.closeBlock.congr rfl rfl
  | endWithElse keyword opened =>
      rw [inside opened]
      exact carries.closeBlock.congr rfl rfl
  | endGroup keyword =>
      rw [unasked (noSet keyword (by decide))]
      exact carries.closeBlock
  | jumpFromBlock keyword filled shown opened =>
      rw [inside opened]
      exact carries.congr rfl rfl
  | jumpFromChoice keyword filled shown closed chosen =>
      exact absurd (changeLast_eq_nil_iff.mp noChoices) chosen
  | jump keyword =>
      rw [unasked (noSet keyword (by decide))]
      exact carries.congr rfl rfl
  | commandInBlock keyword read opened =>
      rw [inside opened]
      exact carries.congr rfl rfl
  | raiseInChoice keyword read raises closed chosen =>
      exact absurd (changeLast_eq_nil_iff.mp noChoices) chosen
  | @raise argument command keyword read raises closed =>
      rw [outside closed, lineChanges_of_readCommand keyword read, if_pos raises]
      refine ⟨?_, ?_⟩
      · rw [List.filter_append, ← carries.assigns]
        simp [FlagChange.isAssign]
      · rw [List.filter_append, ← carries.raises]
        simp [FlagChange.isAssign]
  | @command argument command keyword read noRaise closed =>
      rw [outside closed, lineChanges_of_readCommand keyword read, noRaise]
      have asks := commandChanges_of_readCommand trimmed read
      refine ⟨?_, ?_⟩
      · rw [List.filter_append, ← carries.assigns]
        simp [Passage.addCommand, commandChanges_append, asks]
        rfl
      · rw [List.filter_append, ← carries.raises]
        simp [FlagChange.isAssign]
  | dialogueInBlock spoken opened =>
      rw [inside opened]
      exact carries.congr rfl rfl
  | dialogue spoken closed =>
      rw [outside closed]
      exact carries.addDialogue trimmed spoken

end Draft.Carries

/-- The walk through a body goes inside and outside with the blocks of the draft. -/
theorem isSome_openBlock_of_step {draft next : Draft} {line : List Char}
    (made : draft.Step line next) :
    next.openBlock.isSome = insideAfter draft.openBlock.isSome line := by
  have noKeyword (noMarkup : List.isPrefixOf ['<', '<'] line = false) :
      insideAfter draft.openBlock.isSome line = draft.openBlock.isSome := by
    simp [insideAfter, keyword_eq_none noMarkup]
  cases made with
  | idle idle => rw [noKeyword (isPrefixOf_of_idle idle).2]
  | choice arrow => rw [noKeyword (isPrefixOf_of_arrow arrow).2]
  | dialogueInBlock spoken opened =>
      rw [noKeyword (isSpokenLine_iff.mp spoken).2.2, opened]
      rfl
  | dialogue spoken => rw [noKeyword (isSpokenLine_iff.mp spoken).2.2]
  | beginGroup keyword => simp [insideAfter, keyword, Draft.openNext]
  | continueGroup keyword opened => simp [insideAfter, keyword, opened, Draft.openNext]
  | endWithElse keyword opened => simp [insideAfter, keyword, opened, Draft.openNext]
  | endGroup keyword => simp [insideAfter, keyword]
  | jumpFromBlock keyword filled shown opened => simp [insideAfter, keyword, opened]
  | jumpFromChoice keyword => simp [insideAfter, keyword]
  | jump keyword => simp [insideAfter, keyword]
  | commandInBlock keyword read opened => simp [insideAfter, keyword, opened]
  | raiseInChoice keyword => simp [insideAfter, keyword]
  | raise keyword => simp [insideAfter, keyword]
  | command keyword => simp [insideAfter, keyword]

theorem Draft.Carries.addLines {draft next : Draft} {changes : List FlagChange}
    {body : List (List Char)} (carries : draft.Carries changes)
    (trimmed : ∀ line ∈ body, Trimmed line) (read : draft.addLines body = some next)
    (noChoices : next.choices = []) :
    next.Carries (changes ++ (outsideLines draft.openBlock.isSome body).flatMap lineChanges) := by
  induction body generalizing draft changes with
  | nil =>
      cases read
      simpa [outsideLines] using carries
  | cons line body inductionHypothesis =>
      obtain ⟨lineTrimmed, othersTrimmed⟩ := List.forall_mem_cons.mp trimmed
      rw [Draft.addLines_cons] at read
      obtain ⟨middle, added, rest⟩ := Option.bind_eq_some_iff.mp read
      have made := step_of_addLine added
      -- Choices are never taken out of a draft, so that the draft so far has none either.
      have noneYet : middle.choices = [] := ((choices_eq_nil_iff_of_addLines rest).mp noChoices).1
      have carried := inductionHypothesis (carries.step lineTrimmed made noneYet) othersTrimmed rest
      rw [isSome_openBlock_of_step made] at carried
      cases inside : draft.openBlock.isSome <;>
        simpa [outsideLines, inside, List.append_assoc] using carried

end BranchingDialogue.Script

import BranchingDialogue.Proofs.Script.Group

/-! The choices of a body can be told from its text. A line with an arrow makes a choice, and the
jumps and the raises after it are attached to it, up to the next line that makes one. Lines of open
groups attach nothing, as what they do belongs to the block. -/

namespace BranchingDialogue.Script

open Text

/-! ## Lines that make choices -/

def arrowChoice? (line : List Char) : Option (List Char × List Condition) :=
  ((List.isPrefixOf? ['-', '>'] line).bind fun rest => Draft.splitChoice (trim rest)).filter
    fun (shown, _) => !shown.isEmpty

/-- The choice at an index of a node, before anything is attached to it. -/
def choiceAt (node : String) (index : Nat) (shown : List Char) (conditions : List Condition) :
    Choice :=
  { id := choiceId node index
    text := String.ofList shown
    conditions := if conditions.isEmpty then none else some conditions }

private theorem isSome_arrowChoice? (line : List Char) :
    (arrowChoice? line).isSome = makesChoice line := by
  unfold arrowChoice? makesChoice
  cases (List.isPrefixOf? ['-', '>'] line).bind fun rest => Draft.splitChoice (trim rest) with
  | none => rfl
  | some parts =>
      obtain ⟨shown, conditions⟩ := parts
      cases shown <;> rfl

theorem arrowChoice?_eq_none_iff {line : List Char} :
    arrowChoice? line = none ↔ makesChoice line = false := by
  rw [← isSome_arrowChoice?, Option.isSome_eq_false_iff, Option.isNone_iff_eq_none]

private theorem arrowChoice?_eq_some_iff {line shown : List Char} {conditions : List Condition} :
    arrowChoice? line = some (shown, conditions) ↔
      ∃ rest, List.isPrefixOf? ['-', '>'] line = some rest ∧
        Draft.splitChoice (trim rest) = some (shown, conditions) ∧ shown ≠ [] := by
  unfold arrowChoice?
  rw [Option.filter_eq_some_iff, Option.bind_eq_some_iff]
  constructor
  · rintro ⟨⟨rest, arrow, split⟩, filled⟩
    exact ⟨rest, arrow, split, by simpa using filled⟩
  · rintro ⟨rest, arrow, split, filled⟩
    exact ⟨⟨rest, arrow, split⟩, by simpa using filled⟩

/-! ## What is attached to a choice -/

/-- What lines attach to the choice before them. -/
structure Attachment where
  next : Slot := none
  raises : List String := []
  deriving DecidableEq

namespace Attachment

/-- The choice with a target in the place of its own, if there is one, and with more raises. -/
def attach (attachment : Attachment) (choice : Choice) : Choice :=
  { choice with
    next := attachment.next <|> choice.next
    raises :=
      if attachment.raises.isEmpty then choice.raises
      else some (choice.flags ++ attachment.raises) }

/-- What two parts of a text attach together. -/
def followedBy (first second : Attachment) : Attachment :=
  ⟨second.next <|> first.next, first.raises ++ second.raises⟩

/-- What a line attaches outside groups. -/
def ofLine (line : List Char) : Attachment :=
  match keywordAndArgument line with
  | none => {}
  | some (keyword, argument) =>
      match String.ofList keyword with
      | "jump" =>
          if argument.isEmpty || argument.any isBlank then {}
          else { next := some (String.ofList argument) }
      | "set" =>
          match readCommand line with
          | none => {}
          | some command => if command.expression.isTrue then { raises := [command.flag] } else {}
      | _ => {}

@[simp]
theorem attach_empty (choice : Choice) : ({} : Attachment).attach choice = choice := by
  obtain ⟨id, text, next, conditions, raises⟩ := choice
  cases next <;> rfl

@[simp]
theorem empty_followedBy (attachment : Attachment) :
    Attachment.followedBy {} attachment = attachment := by
  obtain ⟨next, raises⟩ := attachment
  cases next <;> rfl

theorem followedBy_assoc (first second third : Attachment) :
    (first.followedBy second).followedBy third = first.followedBy (second.followedBy third) := by
  cases next : third.next <;> simp [followedBy, next]

private theorem attach_followedBy (first second : Attachment) (choice : Choice) :
    (first.followedBy second).attach choice = second.attach (first.attach choice) := by
  obtain ⟨firstNext, firstRaises⟩ := first
  obtain ⟨secondNext, secondRaises⟩ := second
  cases secondNext <;> cases firstNext <;> cases firstRaises <;> cases secondRaises <;>
    simp [followedBy, attach, Choice.flags]

/-- What is attached first is lost exactly when it raises nothing and its target does not count in
the end. -/
theorem attach_followedBy_eq_iff {first second : Attachment} {choice : Choice} :
    (first.followedBy second).attach choice = second.attach choice ↔
      first.raises = [] ∧
        (second.next <|> first.next <|> choice.next) = (second.next <|> choice.next) := by
  rw [attach_followedBy]
  obtain ⟨id, text, next, conditions, raises⟩ := choice
  obtain ⟨firstNext, firstRaises⟩ := first
  obtain ⟨secondNext, secondRaises⟩ := second
  simp only [attach, Choice.mk.injEq, true_and]
  constructor
  · rintro ⟨sameNext, sameRaises⟩
    refine ⟨?_, sameNext⟩
    by_contra filled
    -- More raises never leave a list of raises as it is.
    cases secondRaises with
    | nil => cases raises <;> simp [filled, Choice.flags] at sameRaises
    | cons flag others => simp [filled, Choice.flags] at sameRaises
  · rintro ⟨noRaises, sameNext⟩
    refine ⟨sameNext, ?_⟩
    simp [noRaises, Choice.flags]

/-- What a line attaches to the choice before it, in an open group or outside groups. -/
def ofLineIn (inside : Bool) (line : List Char) : Attachment :=
  if inside then {} else ofLine line

section OfLine

variable {line : List Char}

theorem ofLine_of_noMarkup (plain : List.isPrefixOf ['<', '<'] line = false) :
    ofLine line = {} := by
  simp [ofLine, keyword_eq_none plain]

private theorem ofLine_jump {target : List Char}
    (keyword : keywordAndArgument line = some ("jump".toList, target)) (filled : target ≠ [])
    (shown : ∀ character ∈ target, isBlank character = false) :
    ofLine line = { next := some (String.ofList target) } := by
  have plain : (target.isEmpty || target.any isBlank) = false := by simpa [filled] using shown
  simp [ofLine, keyword, plain]

private theorem ofLine_set {argument : List Char} {command : SetCommand}
    (keyword : keywordAndArgument line = some ("set".toList, argument))
    (read : readCommand line = some command) :
    ofLine line = if command.expression.isTrue then { raises := [command.flag] } else {} := by
  simp [ofLine, keyword, read]

private theorem ofLine_other {word : String} {argument : List Char}
    (keyword : keywordAndArgument line = some (word.toList, argument)) (noJump : word ≠ "jump")
    (noSet : word ≠ "set") : ofLine line = {} := by
  unfold ofLine
  rw [keyword]
  dsimp only
  rw [String.ofList_toList]
  split
  · exact absurd rfl noJump
  · exact absurd rfl noSet
  · rfl

/-- A line that attaches something is a jump or a raise. -/
theorem ofLine_cases (line : List Char) :
    ofLine line = {} ∨
      (∃ target, keywordAndArgument line = some ("jump".toList, target) ∧ target ≠ [] ∧
        ∀ character ∈ target, isBlank character = false) ∨
      ∃ argument command, keywordAndArgument line = some ("set".toList, argument) ∧
        readCommand line = some command ∧ command.expression.isTrue = true := by
  unfold ofLine
  split
  · exact Or.inl rfl
  · rename_i word argument found
    have keyword {name : String} (same : String.ofList word = name) :
        keywordAndArgument line = some (name.toList, argument) := by
      rw [found, ← same, String.toList_ofList]
    split
    · rename_i same
      split
      · exact Or.inl rfl
      · rename_i plain
        obtain ⟨filled, shown⟩ :
            argument ≠ [] ∧ ∀ character ∈ argument, isBlank character = false := by
          simpa using plain
        exact Or.inr (Or.inl ⟨argument, keyword same, filled, shown⟩)
    · rename_i same
      split
      · exact Or.inl rfl
      · rename_i command read
        split
        · rename_i raises
          exact Or.inr (Or.inr ⟨argument, command, keyword same, read, raises⟩)
        · exact Or.inl rfl
    · exact Or.inl rfl

end OfLine

end Attachment

/-! ## Choices after one line -/

/-- The choices of a node after a line, in an open group or outside groups. -/
def choicesAfter (node : String) (inside : Bool) (line : List Char) (choices : List Choice) :
    List Choice :=
  match arrowChoice? line with
  | some (shown, conditions) => choices ++ [choiceAt node choices.length shown conditions]
  | none => changeLast (Attachment.ofLineIn inside line).attach choices

section Line

variable {draft next : Draft} {line : List Char}

private theorem choicesAfter_eq_self {node : String} {inside : Bool} {choices : List Choice}
    (noChoice : makesChoice line = false) (nothing : Attachment.ofLineIn inside line = {}) :
    choicesAfter node inside line choices = choices := by
  rw [choicesAfter, arrowChoice?_eq_none_iff.mpr noChoice, nothing]
  exact changeLast_eq_self Attachment.attach_empty choices

private theorem choicesAfter_nil {node : String} {inside : Bool}
    (noChoice : makesChoice line = false) : choicesAfter node inside line [] = [] := by
  rw [choicesAfter, arrowChoice?_eq_none_iff.mpr noChoice]
  rfl

/-- A recognized line changes the choices as its text says. -/
theorem Draft.choices_of_step (made : draft.Step line next) :
    next.choices =
      choicesAfter (String.ofList draft.id) draft.openBlock.isSome line draft.choices := by
  have noChoice {parts : List Char × List Char} (found : keywordAndArgument line = some parts) :
      makesChoice line = false :=
    makesChoice_eq_false (isPrefixOf_of_keyword found).1
  cases made with
  | idle idle =>
      obtain ⟨noArrow, plain⟩ := isPrefixOf_of_idle idle
      refine (choicesAfter_eq_self (makesChoice_eq_false noArrow) ?_).symm
      simp [Attachment.ofLineIn, Attachment.ofLine_of_noMarkup plain]
  | @choice rest shown conditions arrow split filled =>
      have made := arrowChoice?_eq_some_iff.mpr ⟨rest, arrow, split, filled⟩
      rw [choicesAfter, made]
      rfl
  | beginGroup keyword closed read =>
      refine Eq.trans (by simp [openNext]) (choicesAfter_eq_self (noChoice keyword) ?_).symm
      simp [Attachment.ofLineIn, Attachment.ofLine_other keyword]
  | continueGroup keyword opened | endWithElse keyword opened =>
      refine Eq.trans (by simp [openNext]) (choicesAfter_eq_self (noChoice keyword) ?_).symm
      simp [Attachment.ofLineIn, opened]
  | endGroup keyword =>
      refine Eq.trans (by simp) (choicesAfter_eq_self (noChoice keyword) ?_).symm
      simp [Attachment.ofLineIn, Attachment.ofLine_other keyword]
  | jumpFromBlock keyword filled shown opened | commandInBlock keyword read opened =>
      refine (choicesAfter_eq_self (noChoice keyword) ?_).symm
      simp [Attachment.ofLineIn, opened]
  | @jumpFromChoice target keyword filled shown closed chosen =>
      have attached : Attachment.ofLineIn draft.openBlock.isSome line =
          { next := some (String.ofList target) } := by
        simp [Attachment.ofLineIn, closed, Attachment.ofLine_jump keyword filled shown]
      rw [choicesAfter, arrowChoice?_eq_none_iff.mpr (noChoice keyword), attached]
      rfl
  | @raiseInChoice argument command keyword read raises closed chosen =>
      have attached : Attachment.ofLineIn draft.openBlock.isSome line =
          { raises := [command.flag] } := by
        simp [Attachment.ofLineIn, closed, Attachment.ofLine_set keyword read, raises]
      rw [choicesAfter, arrowChoice?_eq_none_iff.mpr (noChoice keyword), attached]
      have same (choice : Choice) : choice.withFlag command.flag =
          ({ raises := [command.flag] } : Attachment).attach choice := by
        cases next : choice.next <;> simp [Attachment.attach, Choice.withFlag, next]
      exact congrArg (changeLast · draft.choices) (funext same)
  | jump keyword filled shown closed noChoices | raise keyword read raises closed noChoices
  | command keyword read noRaise closed noChoices =>
      rw [noChoices, choicesAfter_nil (noChoice keyword)]
  | dialogueInBlock spoken opened =>
      obtain ⟨-, noArrow, plain⟩ := isSpokenLine_iff.mp spoken
      refine (choicesAfter_eq_self (makesChoice_eq_false noArrow) ?_).symm
      simp [Attachment.ofLineIn, opened]
  | dialogue spoken closed noChoices =>
      obtain ⟨-, noArrow, -⟩ := isSpokenLine_iff.mp spoken
      rw [noChoices, choicesAfter_nil (makesChoice_eq_false noArrow)]

private theorem Draft.choices_of_unrecognized (unread : draft.addLine line = none) :
    draft.choices =
      choicesAfter (String.ofList draft.id) draft.openBlock.isSome line draft.choices := by
  have noChoice := makesChoice_of_unrecognized unread
  by_cases noChoices : draft.choices = []
  · rw [noChoices, choicesAfter_nil noChoice]
  · refine (choicesAfter_eq_self noChoice ?_).symm
    cases opened : draft.openBlock with
    | some block => rfl
    | none =>
        rcases Attachment.ofLine_cases line with nothing | jumps | raises
        · exact nothing
        · obtain ⟨target, keyword, filled, shown⟩ := jumps
          rw [addLine_keyword keyword] at unread
          have plain : (target.isEmpty || target.any isBlank) = false := by
            simpa [filled] using shown
          simp [follow, addJump, plain, opened, noChoices] at unread
        · obtain ⟨argument, command, keyword, read, raises⟩ := raises
          rw [addLine_keyword keyword] at unread
          simp [follow, addCommand, read, opened, noChoices, raises] at unread

/-- A line changes the choices as its text says, recognized or not. -/
theorem Draft.choices_addLine (draft : Draft) (line : List Char) :
    ((draft.addLine line).getD draft).choices =
      choicesAfter (String.ofList draft.id) draft.openBlock.isSome line draft.choices := by
  cases added : draft.addLine line with
  | some next => exact choices_of_step (step_of_addLine added)
  | none => exact choices_of_unrecognized added

end Line

/-! ## Choices of texts -/

/-- What lines attach to the choice before them, up to the next line that makes one. -/
def attachmentFrom : Bool → List (List Char) → Attachment
  | _, [] => {}
  | inside, line :: rest =>
      if makesChoice line then
        {}
      else
        (Attachment.ofLineIn inside line).followedBy (attachmentFrom (openAfter inside line) rest)

/-- The choices that lines make after some others, with what is attached to them. -/
def choicesFrom (node : String) : Nat → Bool → List (List Char) → List Choice
  | _, _, [] => []
  | index, inside, line :: rest =>
      match arrowChoice? line with
      | none => choicesFrom node index (openAfter inside line) rest
      | some (shown, conditions) =>
          (attachmentFrom (openAfter inside line) rest).attach
              (choiceAt node index shown conditions) ::
            choicesFrom node (index + 1) (openAfter inside line) rest

/-- The choices of a draft after a body are those it had, the last one with what the first lines
attach to it, and those that the lines make. -/
theorem Draft.choices_passOver (draft : Draft) (body : List NumberedLine) :
    (draft.passOver body).choices =
      changeLast
          (attachmentFrom draft.openBlock.isSome (body.map NumberedLine.text)).attach
          draft.choices ++
        choicesFrom (String.ofList draft.id) draft.choices.length draft.openBlock.isSome
          (body.map NumberedLine.text) := by
  induction body generalizing draft with
  | nil =>
      simp [passOver, attachmentFrom, choicesFrom, changeLast_eq_self]
  | cons line body inductionHypothesis =>
      have choices := draft.choices_addLine line.text
      have inside := (draft.passes line.text).inside
      have id : ((draft.addLine line.text).getD draft).id = draft.id := id_passOver draft [line]
      unfold passOver at inductionHypothesis ⊢
      rw [List.foldl_cons, inductionHypothesis, inside, id, choices, List.map_cons, attachmentFrom,
        choicesFrom, choicesAfter]
      cases made : arrowChoice? line.text with
      | none =>
          rw [if_neg (by simp [arrowChoice?_eq_none_iff.mp made])]
          dsimp only
          rw [changeLast_changeLast, length_changeLast,
            funext (Attachment.attach_followedBy (Attachment.ofLineIn _ line.text) _)]
      | some parts =>
          have makes : makesChoice line.text = true := by rw [← isSome_arrowChoice?, made]; rfl
          rw [if_pos makes]
          dsimp only
          rw [changeLast_append_singleton, List.length_append,
            changeLast_eq_self Attachment.attach_empty, List.append_assoc]
          rfl

end BranchingDialogue.Script

import BranchingDialogue.Proofs.Script.Content

/-! What a recognized line can do to a draft. Each kind of step carries what the line and the draft
must be for it, so that a property of drafts is kept by all lines when each kind keeps it. -/

namespace BranchingDialogue.Script

open Text

/-! ## Changes to the last choice -/

section LastChoice

variable {α β : Type} {change : α → α} {list : List α}

theorem changeLast_append_singleton (change : α → α) (before : List α) (last : α) :
    changeLast change (before ++ [last]) = before ++ [change last] := by
  rw [changeLast, List.modify_eq_take_drop]
  simp

theorem changeLast_eq_nil_iff : changeLast change list = [] ↔ list = [] :=
  List.modify_eq_nil_iff

theorem length_changeLast : (changeLast change list).length = list.length :=
  List.length_modify _ _ _

theorem forall_changeLast {property : α → Prop} (all : ∀ member ∈ list, property member)
    (keeps : ∀ member, property member → property (change member)) :
    ∀ member ∈ changeLast change list, property member := by
  rcases List.eq_nil_or_concat' list with rfl | ⟨before, last, rfl⟩
  · exact all
  · obtain ⟨beforeHolds, lastHolds⟩ := List.forall_mem_append.mp all
    rw [changeLast_append_singleton, List.forall_mem_append, List.forall_mem_singleton]
    exact ⟨beforeHolds, keeps last (lastHolds last List.mem_cons_self)⟩

theorem map_changeLast {view : α → β} (same : ∀ member, view (change member) = view member)
    (list : List α) :
    (changeLast change list).map view = list.map view := by
  rcases List.eq_nil_or_concat' list with rfl | ⟨before, last, rfl⟩
  · rfl
  · rw [changeLast_append_singleton, List.map_append, List.map_append, List.map_singleton,
      List.map_singleton, same]

theorem changeLast_eq_self (same : ∀ member, change member = member) (list : List α) :
    changeLast change list = list := by
  have identity : change = id := funext same
  rw [changeLast, identity, List.modify_id]

theorem changeLast_changeLast (first second : α → α) (list : List α) :
    changeLast second (changeLast first list) =
      changeLast (fun member => second (first member)) list := by
  rw [changeLast, changeLast, List.length_modify, List.modify_modify_eq]
  rfl

end LastChoice

/-! ## Kinds of lines -/

/-- Whether a line of a body is dialogue: it is neither idle nor a choice nor markup. -/
def isSpokenLine (line : List Char) : Bool :=
  !isIdle line && !List.isPrefixOf ['-', '>'] line && !List.isPrefixOf ['<', '<'] line

theorem isSpokenLine_iff {line : List Char} :
    isSpokenLine line = true ↔
      isIdle line = false ∧ List.isPrefixOf ['-', '>'] line = false ∧
        List.isPrefixOf ['<', '<'] line = false := by
  simp [isSpokenLine, and_assoc]

theorem isPrefixOf_of_idle {line : List Char} (idle : isIdle line = true) :
    List.isPrefixOf ['-', '>'] line = false ∧ List.isPrefixOf ['<', '<'] line = false := by
  cases line with
  | nil => exact ⟨rfl, rfl⟩
  | cons first rest =>
      have begins : List.isPrefixOf ['/', '/'] (first :: rest) = true := by
        simpa [isIdle, isComment] using idle
      obtain ⟨others, equality⟩ := List.isPrefixOf_iff_prefix.mp begins
      rw [← equality]
      exact ⟨rfl, rfl⟩

theorem isPrefixOf_of_arrow {line rest : List Char}
    (arrow : List.isPrefixOf? ['-', '>'] line = some rest) :
    List.isPrefixOf ['-', '>'] line = true ∧ List.isPrefixOf ['<', '<'] line = false := by
  obtain rfl : ['-', '>'] ++ rest = line := List.append_eq_of_isPrefixOf?_eq_some arrow
  exact ⟨rfl, rfl⟩

theorem isIdle_of_arrow {line rest : List Char}
    (arrow : List.isPrefixOf? ['-', '>'] line = some rest) : isIdle line = false := by
  rw [Bool.eq_false_iff]
  intro idle
  have noArrow := (isPrefixOf_of_idle idle).1
  rw [(isPrefixOf_of_arrow arrow).1] at noArrow
  cases noArrow

theorem isPrefixOf_of_keyword {line : List Char} {parts : List Char × List Char}
    (found : keywordAndArgument line = some parts) :
    List.isPrefixOf ['-', '>'] line = false ∧ List.isPrefixOf ['<', '<'] line = true := by
  unfold keywordAndArgument at found
  obtain ⟨inside, insideEq, -⟩ := Option.map_eq_some_iff.mp found
  obtain ⟨rest, lead, -⟩ := Option.bind_eq_some_iff.mp insideEq
  obtain rfl : ['<', '<'] ++ rest = line := List.append_eq_of_isPrefixOf?_eq_some lead
  exact ⟨rfl, rfl⟩

theorem ne_nil_of_keyword {line : List Char} {parts : List Char × List Char}
    (found : keywordAndArgument line = some parts) : line ≠ [] := by
  rintro rfl
  cases (isPrefixOf_of_keyword found).2

theorem ne_nil_of_spoken {line : List Char} (spoken : isSpokenLine line = true) : line ≠ [] := by
  rintro rfl
  cases spoken

theorem isSpokenLine_of_keyword {line : List Char} {parts : List Char × List Char}
    (found : keywordAndArgument line = some parts) : isSpokenLine line = false := by
  simp [isSpokenLine, isPrefixOf_of_keyword found]

theorem keyword_eq_none {line : List Char} (noMarkup : List.isPrefixOf ['<', '<'] line = false) :
    keywordAndArgument line = none := by
  cases found : keywordAndArgument line with
  | none => rfl
  | some parts =>
      rw [(isPrefixOf_of_keyword found).2] at noMarkup
      cases noMarkup

/-! ## Steps -/

/-- The choice of an arrow line, without what later lines give it. -/
def Draft.newChoice (draft : Draft) (shown : List Char) (conditions : List Condition) : Choice :=
  { id := choiceId (String.ofList draft.id) draft.choices.length
    text := String.ofList shown
    conditions := if conditions.isEmpty then none else some conditions }

/-- The steps that a line makes from a draft. -/
inductive Draft.Step (draft : Draft) (line : List Char) : Draft → Prop
  | idle (idle : isIdle line = true) : Step draft line draft
  | choice {rest shown : List Char} {conditions : List Condition}
      (arrow : List.isPrefixOf? ['-', '>'] line = some rest)
      (split : splitChoice (trim rest) = some (shown, conditions)) (filled : shown ≠ []) :
      Step draft line { draft with choices := draft.choices ++ [draft.newChoice shown conditions] }
  | beginGroup {argument : List Char} {conditions : List Condition}
      (keyword : keywordAndArgument line = some ("if".toList, argument))
      (closed : draft.openBlock = none) (read : readExpression argument = some conditions) :
      Step draft line (draft.openNext .«if» conditions)
  | continueGroup {argument : List Char} {conditions : List Condition} {block : OpenBlock}
      (keyword : keywordAndArgument line = some ("elseif".toList, argument))
      (opened : draft.openBlock = some block) (unfinished : block.kind ≠ .«else»)
      (read : readExpression argument = some conditions) :
      Step draft line (draft.openNext .elseIf conditions)
  | endWithElse {block : OpenBlock}
      (keyword : keywordAndArgument line = some ("else".toList, []))
      (opened : draft.openBlock = some block) (unfinished : block.kind ≠ .«else») :
      Step draft line (draft.openNext .«else» [])
  | endGroup {argument : List Char}
      (keyword : keywordAndArgument line = some ("endif".toList, argument)) :
      Step draft line draft.closeBlock
  | jumpFromBlock {target : List Char} {block : OpenBlock}
      (keyword : keywordAndArgument line = some ("jump".toList, target)) (filled : target ≠ [])
      (shown : ∀ character ∈ target, isBlank character = false)
      (opened : draft.openBlock = some block) :
      Step draft line
        { draft with openBlock := some { block with next := some (String.ofList target) } }
  | jumpFromChoice {target : List Char}
      (keyword : keywordAndArgument line = some ("jump".toList, target)) (filled : target ≠ [])
      (shown : ∀ character ∈ target, isBlank character = false)
      (closed : draft.openBlock = none) (chosen : draft.choices ≠ []) :
      Step draft line
        { draft with
          choices := changeLast (fun choice => { choice with next := some (String.ofList target) })
            draft.choices }
  | jump {target : List Char}
      (keyword : keywordAndArgument line = some ("jump".toList, target)) (filled : target ≠ [])
      (shown : ∀ character ∈ target, isBlank character = false)
      (closed : draft.openBlock = none) (noChoices : draft.choices = []) :
      Step draft line { draft with next := some (String.ofList target) }
  | commandInBlock {argument : List Char} {command : SetCommand} {block : OpenBlock}
      (keyword : keywordAndArgument line = some ("set".toList, argument))
      (read : readCommand line = some command) (opened : draft.openBlock = some block) :
      Step draft line
        { draft with openBlock := some { block with passage := block.passage.addCommand line } }
  | raiseInChoice {argument : List Char} {command : SetCommand}
      (keyword : keywordAndArgument line = some ("set".toList, argument))
      (read : readCommand line = some command) (raises : command.expression.isTrue = true)
      (closed : draft.openBlock = none) (chosen : draft.choices ≠ []) :
      Step draft line
        { draft with
          choices := changeLast (fun choice => choice.withFlag command.flag) draft.choices }
  | raise {argument : List Char} {command : SetCommand}
      (keyword : keywordAndArgument line = some ("set".toList, argument))
      (read : readCommand line = some command) (raises : command.expression.isTrue = true)
      (closed : draft.openBlock = none) (noChoices : draft.choices = []) :
      Step draft line { draft with raises := draft.raises ++ [command.flag] }
  | command {argument : List Char} {command : SetCommand}
      (keyword : keywordAndArgument line = some ("set".toList, argument))
      (read : readCommand line = some command) (noRaise : command.expression.isTrue = false)
      (closed : draft.openBlock = none) (noChoices : draft.choices = []) :
      Step draft line { draft with passage := draft.passage.addCommand line }
  | dialogueInBlock {block : OpenBlock} (spoken : isSpokenLine line = true)
      (opened : draft.openBlock = some block) :
      Step draft line
        { draft with openBlock := some { block with passage := block.passage.addDialogue line } }
  | dialogue (spoken : isSpokenLine line = true) (closed : draft.openBlock = none)
      (noChoices : draft.choices = []) :
      Step draft line { draft with passage := draft.passage.addDialogue line }

namespace Draft

variable {draft next : Draft} {line : List Char}

/-! ## Steps of choices -/

private theorem step_of_addChoice {rest : List Char}
    (arrow : List.isPrefixOf? ['-', '>'] line = some rest)
    (added : draft.addChoice (trim rest) = some next) : draft.Step line next := by
  unfold addChoice at added
  split at added
  · cases added
  · rename_i shown conditions split
    split at added
    · cases added
    · rename_i filled
      have nextEq : next =
          { draft with choices := draft.choices ++ [draft.newChoice shown conditions] } := by
        simpa [newChoice, choiceId] using (Option.some.inj added).symm
      rw [nextEq]
      exact .choice arrow split (by simpa using filled)

/-! ## Steps of markup -/

private theorem step_of_beginGroup {argument : List Char}
    (keyword : keywordAndArgument line = some ("if".toList, argument))
    (added : draft.beginGroup argument = some next) : draft.Step line next := by
  unfold Draft.beginGroup at added
  cases closed : draft.openBlock with
  | some block =>
      rw [closed] at added
      cases added
  | none =>
      rw [closed] at added
      obtain ⟨conditions, read, rfl⟩ := Option.map_eq_some_iff.mp added
      exact .beginGroup keyword closed read

private theorem step_of_continueGroup {argument : List Char}
    (keyword : keywordAndArgument line = some ("elseif".toList, argument))
    (added : draft.continueGroup argument = some next) : draft.Step line next := by
  unfold Draft.continueGroup at added
  cases opened : draft.openBlock with
  | none =>
      rw [opened] at added
      cases added
  | some block =>
      rw [opened] at added
      dsimp only at added
      split at added
      · cases added
      · rename_i unfinished
        obtain ⟨conditions, read, rfl⟩ := Option.map_eq_some_iff.mp added
        exact .continueGroup keyword opened unfinished read

private theorem step_of_endGroupWithElse {argument : List Char}
    (keyword : keywordAndArgument line = some ("else".toList, argument))
    (added : draft.endGroupWithElse argument = some next) : draft.Step line next := by
  unfold endGroupWithElse at added
  cases opened : draft.openBlock with
  | none =>
      rw [opened] at added
      cases added
  | some block =>
      rw [opened] at added
      dsimp only at added
      split at added
      · cases added
      · rename_i goesOn
        obtain ⟨unfinished, rfl⟩ : block.kind ≠ .«else» ∧ argument = [] := by
          simpa using goesOn
        cases added
        exact .endWithElse keyword opened unfinished

private theorem step_of_addJump {target : List Char}
    (keyword : keywordAndArgument line = some ("jump".toList, target))
    (added : draft.addJump target = some next) : draft.Step line next := by
  unfold addJump at added
  split at added
  · cases added
  · rename_i plain
    obtain ⟨filled, shown⟩ : target ≠ [] ∧ ∀ character ∈ target, isBlank character = false := by
      simpa using plain
    dsimp only at added
    split at added
    · rename_i block opened
      cases added
      exact .jumpFromBlock keyword filled shown opened
    · rename_i closed
      by_cases noChoices : draft.choices = []
      · rw [if_pos (by simpa using noChoices)] at added
        cases added
        exact .jump keyword filled shown closed noChoices
      · rw [if_neg (by simpa using noChoices)] at added
        cases added
        exact .jumpFromChoice keyword filled shown closed noChoices

private theorem step_of_addCommand {argument : List Char}
    (keyword : keywordAndArgument line = some ("set".toList, argument))
    (added : draft.addCommand line = some next) : draft.Step line next := by
  unfold addCommand at added
  split at added
  · cases added
  · rename_i command read
    split at added
    · rename_i block opened
      cases added
      exact .commandInBlock keyword read opened
    · rename_i closed
      by_cases noChoices : draft.choices = []
      · rw [if_pos (by simpa using noChoices)] at added
        split at added
        · rename_i raises
          cases added
          exact .raise keyword read raises closed noChoices
        · rename_i noRaise
          cases added
          exact .command keyword read (by simpa using noRaise) closed noChoices
      · rw [if_neg (by simpa using noChoices)] at added
        split at added
        · rename_i raises
          cases added
          exact .raiseInChoice keyword read raises closed noChoices
        · cases added

private theorem step_of_addMarkup (added : draft.addMarkup line = some next) :
    draft.Step line next := by
  rw [addMarkup_eq] at added
  obtain ⟨⟨word, argument⟩, found, followed⟩ := Option.bind_eq_some_iff.mp added
  -- A keyword is matched as a string, and the steps hold its characters.
  have keyword {name : String} (same : String.ofList word = name) :
      keywordAndArgument line = some (name.toList, argument) := by
    rw [found, ← same, String.toList_ofList]
  unfold follow at followed
  dsimp only at followed
  split at followed
  · rename_i same
    exact step_of_beginGroup (keyword same) followed
  · rename_i same
    exact step_of_continueGroup (keyword same) followed
  · rename_i same
    exact step_of_endGroupWithElse (keyword same) followed
  · rename_i same
    cases followed
    exact .endGroup (keyword same)
  · rename_i same
    exact step_of_addJump (keyword same) followed
  · rename_i same
    exact step_of_addCommand (keyword same) followed
  · cases followed

/-! ## Steps of all lines -/

private theorem step_of_addDialogue (spoken : isSpokenLine line = true)
    (added : draft.addDialogue line = some next) : draft.Step line next := by
  unfold addDialogue at added
  split at added
  · rename_i block opened
    cases added
    exact .dialogueInBlock spoken opened
  · rename_i closed
    by_cases noChoices : draft.choices = []
    · rw [if_pos (by simpa using noChoices)] at added
      cases added
      exact .dialogue spoken closed noChoices
    · rw [if_neg (by simpa using noChoices)] at added
      cases added

theorem step_of_addLine (added : draft.addLine line = some next) : draft.Step line next := by
  unfold addLine at added
  by_cases idle : isIdle line = true
  · rw [if_pos idle] at added
    cases added
    exact .idle idle
  · rw [if_neg idle] at added
    cases arrow : List.isPrefixOf? ['-', '>'] line with
    | some rest =>
        rw [arrow] at added
        exact step_of_addChoice arrow added
    | none =>
        rw [arrow] at added
        dsimp only at added
        by_cases markup : List.isPrefixOf ['<', '<'] line = true
        · rw [if_pos markup] at added
          exact step_of_addMarkup added
        · rw [if_neg markup] at added
          have noArrow : List.isPrefixOf ['-', '>'] line = false :=
            isPrefixOf?_eq_none_iff_isPrefixOf.mp arrow
          have spoken : isSpokenLine line = true :=
            isSpokenLine_iff.mpr ⟨by simpa using idle, noArrow, (Bool.not_eq_true _).mp markup⟩
          exact step_of_addDialogue spoken added

/-! ## Closed drafts -/

@[simp]
theorem openBlock_closeBlock (draft : Draft) : draft.closeBlock.openBlock = none := by
  unfold closeBlock
  split
  · assumption
  · rfl

@[simp]
theorem id_closeBlock (draft : Draft) : draft.closeBlock.id = draft.id := by
  unfold closeBlock
  split <;> rfl

@[simp]
theorem passage_closeBlock (draft : Draft) : draft.closeBlock.passage = draft.passage := by
  unfold closeBlock
  split <;> rfl

@[simp]
theorem choices_closeBlock (draft : Draft) : draft.closeBlock.choices = draft.choices := by
  unfold closeBlock
  split <;> rfl

@[simp]
theorem raises_closeBlock (draft : Draft) : draft.closeBlock.raises = draft.raises := by
  unfold closeBlock
  split <;> rfl

/-! ## Nodes of drafts -/

/-- The speech of a draft that becomes one. -/
def speech (draft : Draft) : Speech :=
  { content := draft.passage.content
    next := draft.next
    raises := if draft.raises.isEmpty then none else some draft.raises
    blocks := if draft.blocks.isEmpty then none else some draft.blocks }

theorem kind_eq_speech {draft : Draft} (noChoices : draft.choices = [])
    (besides : draft.blocks ≠ [] →
      draft.passage.lines ≠ [] ∨ draft.raises ≠ [] ∨ draft.next ≠ none) :
    draft.kind = .npc draft.speech := by
  have more : ¬ ((!draft.blocks.isEmpty && draft.passage.lines.isEmpty && draft.raises.isEmpty &&
      draft.next.isNone) = true) := by
    simpa [Decidable.not_and_iff_or_not, imp_iff_not_or, or_assoc] using besides
  unfold kind
  rw [if_neg (by simp [noChoices]), if_neg more]
  rfl

/-- What a draft without open block becomes. -/
theorem kind_cases (draft : Draft) :
    (draft.choices ≠ [] ∧ draft.kind = .player draft.choices) ∨
      (draft.choices = [] ∧ draft.blocks ≠ [] ∧ draft.passage.lines = [] ∧
        draft.kind = .conditional draft.blocks) ∨
      (draft.choices = [] ∧ draft.kind = .npc draft.speech ∧
        (draft.blocks ≠ [] →
          draft.passage.lines ≠ [] ∨ draft.raises ≠ [] ∨ draft.next ≠ none)) := by
  by_cases chosen : draft.choices = []
  · by_cases besides : draft.blocks ≠ [] →
        draft.passage.lines ≠ [] ∨ draft.raises ≠ [] ∨ draft.next ≠ none
    · exact Or.inr (Or.inr ⟨chosen, kind_eq_speech chosen besides, besides⟩)
    · simp only [ne_eq, Classical.not_imp, not_or, not_not] at besides
      obtain ⟨filled, noLines, noRaises, noNext⟩ := besides
      refine Or.inr (Or.inl ⟨chosen, filled, noLines, ?_⟩)
      unfold kind
      rw [if_neg (by simp [chosen]), if_pos (by simp [filled, noLines, noRaises, noNext])]
  · refine Or.inl ⟨chosen, ?_⟩
    unfold kind
    rw [if_pos (by simpa using chosen)]

theorem choices?_finish (draft : Draft) (speaker : Option (List Char)) :
    (draft.finish speaker).choices? =
      if draft.choices.isEmpty then none else some draft.choices := by
  rcases draft.closeBlock.kind_cases with ⟨chosen, kind⟩ | ⟨noChoices, -, -, kind⟩ |
      ⟨noChoices, kind, -⟩
  · rw [choices_closeBlock] at chosen kind
    simp [finish, Node.choices?, kind, chosen]
  · rw [choices_closeBlock] at noChoices
    simp [finish, Node.choices?, kind, noChoices]
  · rw [choices_closeBlock] at noChoices
    simp [finish, Node.choices?, kind, noChoices]

theorem blocks_speech (draft : Draft) (id : String) (speaker : Option String) :
    Node.blocks ⟨id, speaker, .npc draft.speech⟩ = draft.blocks := by
  unfold Node.blocks Node.blocks? speech
  cases draft.blocks <;> rfl

end Draft

end BranchingDialogue.Script

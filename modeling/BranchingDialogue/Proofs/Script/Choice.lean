import BranchingDialogue.Proofs.Script.Block
import BranchingDialogue.Proofs.Script.Step

/-! A choice is read from its first line, and the lines after it raise its flags and set its target.
Raises of flags are read in the same way whether they belong to a choice or to a node. -/

namespace BranchingDialogue.Script

open Text

/-! ## Raises -/

theorem isSectionLine_raiseCommand {flag : String} (scriptable : ScriptableFlag flag) :
    Trimmed (raiseCommand flag) ∧ IsSectionLine (raiseCommand flag) := by
  have name := oneLine_dollar_flag scriptable
  have value : OneLine " = true".toList := by decide
  exact isSectionLine_markup (by decide) (name.append value)

/-- Raises are read into the list of flags that takes them. -/
theorem addLines_raises {put : List String → Draft}
    (takes : ∀ before flag line, readCommand line = some ⟨flag, .literal (.bool true)⟩ →
      (put before).addCommand line = some (put (before ++ [flag])))
    {flags : List String} (scriptable : ∀ flag ∈ flags, ScriptableFlag flag)
    (before : List String) :
    (put before).addLines (flags.map raiseCommand) = some (put (before ++ flags)) := by
  induction flags generalizing before with
  | nil => simp [Draft.addLines]
  | cons flag flags inductionHypothesis =>
      obtain ⟨flagScriptable, othersScriptable⟩ := List.forall_mem_cons.mp scriptable
      have read := readCommand_raiseCommand flagScriptable
      have trimmed := (isSectionLine_raiseCommand flagScriptable).1
      rw [List.map_cons, Draft.addLines_cons, Draft.addLine_command trimmed rfl read,
        takes before flag _ read, Option.bind_some, inductionHypothesis othersScriptable,
        List.append_assoc, List.singleton_append]

/-! ## The first line of a choice -/

/-- The text and the conditions of a choice after its arrow. -/
def choiceText (choice : Choice) : List Char :=
  choice.text.toList ++
    if choice.gate.isEmpty then [] else ' ' :: markup "if" (writeExpression choice.gate)

private theorem trimmed_choiceText {choice : Choice} (scriptable : choice.Scriptable) :
    Trimmed (choiceText choice) ∧ OneLine (choiceText choice) := by
  have label := scriptable.text
  have conditions := scriptable.conditions.forall_getD
  have line := (isSectionLine_markup (show OneLine "if".toList by decide)
    (oneLine_writeExpression conditions))
  unfold choiceText
  split
  · rw [List.append_nil]
    exact ⟨label.trimmed, label.oneLine⟩
  · have joined := label.trimmed.append label.filled line.1 (by simp [markup]) [' ']
    rw [List.append_assoc] at joined
    exact ⟨joined, label.oneLine.append (line.2.isLine.oneLine.cons (by decide))⟩

private theorem writeChoice_eq {choice : Choice} (scriptable : choice.Scriptable) :
    writeChoice choice =
      ("-> ".toList ++ choiceText choice) ::
        (choice.flags.map raiseCommand ++ writeJump choice.next).map indent := by
  have conditions : ∀ condition ∈ choice.gate, condition.Scriptable :=
    scriptable.conditions.forall_getD
  unfold writeChoice choiceText
  cases gate : choice.gate with
  | nil => simp [writeExpression]
  | cons first others =>
      rw [gate] at conditions
      have filled := writeExpression_ne_nil conditions (by simp)
      simp [filled]

private theorem splitChoice_choiceText {choice : Choice} (scriptable : choice.Scriptable) :
    Draft.splitChoice (choiceText choice) = some (choice.text.toList, choice.gate) := by
  have label := scriptable.text
  have conditions : ∀ condition ∈ choice.gate, condition.Scriptable :=
    scriptable.conditions.forall_getD
  have absent := scriptable.open_end
  unfold choiceText
  split
  · rename_i empty
    rw [List.isEmpty_iff] at empty
    rw [List.append_nil, empty]
    unfold Draft.splitChoice
    rw [cut_eq_none_iff.mpr absent]
  · rename_i filled
    have notNil : writeExpression choice.gate ≠ [] :=
      writeExpression_ne_nil conditions (by simpa using filled)
    have shape : markup "if" (writeExpression choice.gate) =
        "<<if".toList ++ (' ' :: writeExpression choice.gate ++ ['>', '>']) := by
      simp [markup, notNil]
    have cutEq : cut "<<if".toList
        (choice.text.toList ++ ' ' :: markup "if" (writeExpression choice.gate)) =
          some (choice.text.toList ++ [' '], ' ' :: writeExpression choice.gate ++ ['>', '>']) := by
      rw [cut_append_cons _ (by decide) absent, shape, cut_append_self]
      rfl
    have trimmedEnd : trimEnd (' ' :: writeExpression choice.gate ++ ['>', '>']) =
        ' ' :: writeExpression choice.gate ++ ['>', '>'] := by
      refine trimEnd_eq_self fun character last => ?_
      rw [List.getLast?_append_of_ne_nil _ (by simp)] at last
      cases last
      rfl
    have read : readExpression (' ' :: writeExpression choice.gate) = some choice.gate := by
      unfold readExpression
      rw [trim_space_cons]
      exact readExpression_writeExpression conditions
    unfold Draft.splitChoice
    rw [cutEq]
    dsimp only
    rw [trimmedEnd, isSuffixOf?_append_self, Option.bind_some, read,
      trim_append_space label.trimmed label.filled]
    rfl

/-- The choice of a first line, before anything that belongs to it is read. -/
def bareChoice (choice : Choice) : Choice :=
  { id := choice.id, text := choice.text, conditions := choice.conditions }

private theorem addLine_choiceText {draft : Draft} {choice : Choice}
    (scriptable : choice.Scriptable)
    (numbered : choice.id = choiceId (String.ofList draft.id) draft.choices.length) :
    draft.addLine ("-> ".toList ++ choiceText choice) =
      some { draft with choices := draft.choices ++ [bareChoice choice] } := by
  have trimmed := (trimmed_choiceText scriptable).1
  have filled : choice.text.toList ≠ [] := scriptable.text.filled
  have listed := scriptable.conditions.eq_ite
  have shown : isIdle ("-> ".toList ++ choiceText choice) = false := rfl
  have arrow : List.isPrefixOf? ['-', '>'] ("-> ".toList ++ choiceText choice) =
      some (' ' :: choiceText choice) := rfl
  unfold Draft.addLine
  rw [shown, arrow]
  simp only [Bool.false_eq_true, if_false, trim_space_cons, trimmed.trim_eq]
  unfold Draft.addChoice
  rw [splitChoice_choiceText scriptable]
  unfold bareChoice
  rw [numbered, listed]
  simp [filled, choiceId, Choice.gate]

/-! ## What follows a choice -/

variable {draft : Draft} {before : List Choice}

/-- The raises after a choice are read into it. -/
theorem addLines_choice_raises (closed : draft.openBlock = none) {choice : Choice}
    (scriptable : choice.Scriptable) :
    ({ draft with choices := before ++ [bareChoice choice] } : Draft).addLines
      (choice.flags.map raiseCommand) =
        some { draft with choices := before ++ [{ choice with next := none }] } := by
  have listed := scriptable.raises.eq_ite
  let put (flags : List String) : Draft :=
    { draft with
      choices := before ++ [{ bareChoice choice with
        raises := if flags.isEmpty then none else some flags }] }
  have takes : ∀ raised flag line, readCommand line = some ⟨flag, .literal (.bool true)⟩ →
      (put raised).addCommand line = some (put (raised ++ [flag])) := by
    intro raised flag line read
    cases raised <;>
      simp [put, Draft.addCommand, read, closed, changeLast_append_singleton, Choice.withFlag,
        Choice.flags, SetExpression.isTrue]
  have raises := addLines_raises takes scriptable.raises.forall_getD []
  have complete : put (choice.raises.getD []) =
      { draft with choices := before ++ [{ choice with next := none }] } := by
    simp only [put]
    rw [← listed]
    rfl
  rw [List.nil_append, complete] at raises
  exact raises

/-- The raises and the jump after a choice are read into it. -/
theorem addLines_choice_rest (closed : draft.openBlock = none) {choice : Choice}
    (scriptable : choice.Scriptable) :
    ({ draft with choices := before ++ [bareChoice choice] } : Draft).addLines
      (choice.flags.map raiseCommand ++ writeJump choice.next) =
        some { draft with choices := before ++ [choice] } := by
  let put (next : Slot) : Draft := { draft with choices := before ++ [{ choice with next }] }
  have takes : ∀ target : String, target.toList ≠ [] → target.toList.any isBlank = false →
      (put none).addJump target.toList = some (put (some target)) := by
    intro target filled shown
    simp [put, Draft.addJump, filled, shown, closed, changeLast_append_singleton]
  have jump := addLines_writeJump takes scriptable.next
  rw [Draft.addLines_append, addLines_choice_raises closed scriptable]
  exact jump

/-! ## Lists of choices -/

private theorem trim_indent {line : List Char} (trimmed : Trimmed line) :
    trim (indent line) = line := by
  have blanks : ∀ character ∈ List.replicate 4 ' ', isBlank character = true := by decide
  rw [indent, trim_append_of_blank blanks, trimmed]

private theorem map_trim_indent {lines : List (List Char)}
    (trimmed : ∀ line ∈ lines, Trimmed line) : (lines.map indent).map trim = lines := by
  calc (lines.map indent).map trim = lines.map id := by
        rw [List.map_map]
        exact List.map_congr_left fun line member => trim_indent (trimmed line member)
    _ = lines := List.map_id lines

private theorem isSectionLine_choice_rest {choice : Choice} (scriptable : choice.Scriptable)
    {line : List Char} (member : line ∈ choice.flags.map raiseCommand ++ writeJump choice.next) :
    Trimmed line ∧ IsSectionLine line := by
  rcases List.mem_append.mp member with inRaises | inJump
  · obtain ⟨flag, listed, rfl⟩ := List.mem_map.mp inRaises
    exact isSectionLine_raiseCommand (scriptable.raises.forall_getD flag listed)
  · exact isSectionLine_writeJump scriptable.next inJump

/-- A choice is read back. -/
theorem addLines_writeChoice (closed : draft.openBlock = none) {choice : Choice}
    (scriptable : choice.Scriptable)
    (numbered : choice.id = choiceId (String.ofList draft.id) draft.choices.length) :
    draft.addLines ((writeChoice choice).map trim) =
      some { draft with choices := draft.choices ++ [choice] } := by
  have first := addLine_choiceText scriptable numbered
  have trimmed : Trimmed ("-> ".toList ++ choiceText choice) := by
    have filled : choiceText choice ≠ [] := by simp [choiceText, scriptable.text.filled]
    have text := (trimmed_choiceText scriptable).1
    exact Trimmed.append (show Trimmed "->".toList from rfl) (by simp) text filled [' ']
  have rest := map_trim_indent fun line member => (isSectionLine_choice_rest scriptable member).1
  rw [writeChoice_eq scriptable, List.map_cons, trimmed, rest, Draft.addLines_cons, first]
  exact addLines_choice_rest closed scriptable

/-- The choices of a node are read back. -/
theorem addLines_writeChoices (closed : draft.openBlock = none) {choices : List Choice}
    (scriptable : ∀ choice ∈ choices, choice.Scriptable)
    (numbered : choices.map Choice.id =
      (List.range' draft.choices.length choices.length).map (choiceId (String.ofList draft.id))) :
    draft.addLines ((choices.flatMap writeChoice).map trim) =
      some { draft with choices := draft.choices ++ choices } := by
  induction choices generalizing draft with
  | nil => simp [Draft.addLines]
  | cons choice choices inductionHypothesis =>
      obtain ⟨choiceScriptable, othersScriptable⟩ := List.forall_mem_cons.mp scriptable
      rw [List.map_cons, List.length_cons, List.range'_succ, List.map_cons,
        List.cons.injEq] at numbered
      have first := addLines_writeChoice closed choiceScriptable numbered.1
      have others := @inductionHypothesis { draft with choices := draft.choices ++ [choice] } closed
        othersScriptable (by simpa using numbered.2)
      rw [List.flatMap_cons, List.map_append, Draft.addLines_append, first, Option.bind_some,
        others, List.append_assoc, List.singleton_append]

/-- The lines of a choice can stand in a section. -/
theorem isSectionLine_writeChoice {choice : Choice} (scriptable : choice.Scriptable)
    {line : List Char} (member : line ∈ writeChoice choice) : IsSectionLine line := by
  rw [writeChoice_eq scriptable] at member
  rcases List.mem_cons.mp member with rfl | inRest
  · obtain ⟨trimmed, oneLine⟩ := trimmed_choiceText scriptable
    have filled : choiceText choice ≠ [] := by simp [choiceText, scriptable.text.filled]
    have arrow : OneLine "-> ".toList := by decide
    have whole := Trimmed.append (show Trimmed "->".toList from rfl) (by simp) trimmed filled [' ']
    refine isSectionLine_of_trimmed whole (arrow.append oneLine) ?_
    intro same
    cases same
  · obtain ⟨inner, listed, rfl⟩ := List.mem_map.mp inRest
    obtain ⟨trimmed, isLine, apart⟩ := isSectionLine_choice_rest scriptable listed
    have spaces : OneLine (List.replicate 4 ' ') := by decide
    have openEnd : (indent inner).getLast? ≠ some '\r' := by
      unfold indent
      rw [List.getLast?_append]
      cases last : inner.getLast? with
      | none => decide
      | some character =>
          have different := isLine.open_end
          rw [last] at different
          simpa using different
    have apart' : trim (indent inner) ≠ sectionEnd := by
      rw [trim_indent trimmed, ← trimmed.trim_eq]
      exact apart
    exact ⟨⟨spaces.append isLine.oneLine, openEnd⟩, apart'⟩

end BranchingDialogue.Script

import BranchingDialogue.Proofs.Script.Command
import BranchingDialogue.Proofs.Text.Respaced

/-! Blanks stand between the parts of a command or inside its right-hand side, where they change
nothing. So a line with other spacing holds a command exactly when the line itself holds one. -/

namespace BranchingDialogue.Script

open Text

/-! ## Right-hand sides -/

private theorem sideText_backslash_iff {character : Char} {rest : List Char} :
    SideText true ('\\' :: character :: rest) ↔ character ≠ '\n' ∧ SideText true rest := by
  constructor
  · intro side
    cases side with
    | escaped notFeed closed => exact ⟨notFeed, closed⟩
    | quoted plain _ => exact absurd rfl plain
  · rintro ⟨notFeed, closed⟩
    exact .escaped notFeed closed

/-- Other spacing keeps a right-hand side. The induction is also on texts behind a backslash, which
hides the first of them, be it a blank or not. -/
theorem sideText_of_respaced {first second : List Char} (respaced : Respaced first second) :
    (∀ quoted, SideText quoted first → SideText quoted second) ∧
      (SideText true ('\\' :: first) → SideText true ('\\' :: second)) := by
  induction respaced with
  | nil => exact ⟨fun _ => id, id⟩
  | @shown character first second isShown _ inductionHypothesis =>
      obtain ⟨sides, hidden⟩ := inductionHypothesis
      refine ⟨fun quoted side => ?_, fun side => ?_⟩
      · cases side with
        | @escaped head rest notFeed closed => exact hidden (.escaped notFeed closed)
        | quoted plain closed => exact .quoted plain (sides _ closed)
        | unquoted noBracket closed => exact .unquoted noBracket (sides _ closed)
      · rw [sideText_backslash_iff] at side ⊢
        exact ⟨side.1, sides true side.2⟩
  | space isSpace otherSpace _ inductionHypothesis =>
      obtain ⟨sides, -⟩ := inductionHypothesis
      refine ⟨fun quoted side => ?_, fun side => ?_⟩
      · rw [sideText_blank_cons_iff isSpace.blank] at side
        exact (sideText_blank_cons_iff otherSpace.blank).mpr (sides quoted side)
      · rw [sideText_backslash_iff] at side ⊢
        exact ⟨otherSpace.notFeed, sides true side.2⟩
  | longer isSpace otherSpace _ inductionHypothesis =>
      obtain ⟨sides, -⟩ := inductionHypothesis
      refine ⟨fun quoted side => ?_, fun side => ?_⟩
      · rw [sideText_blank_cons_iff isSpace.blank] at side
        exact sides quoted side
      · rw [sideText_backslash_iff] at side ⊢
        exact ⟨otherSpace.notFeed, (sideText_blank_cons_iff otherSpace.blank).mp (sides true side.2)⟩
  | @shorter blank other first second isSpace otherSpace rest inductionHypothesis =>
      obtain ⟨sides, hidden⟩ := inductionHypothesis
      refine ⟨fun quoted side => ?_, fun side => ?_⟩
      · exact (sideText_blank_cons_iff otherSpace.blank).mpr (sides quoted side)
      · obtain ⟨next, others, rfl, nextSpace⟩ := rest.exists_cons_of_space isSpace
        have closed := (sideText_backslash_iff.mp (hidden side)).2
        exact .escaped otherSpace.notFeed ((sideText_blank_cons_iff nextSpace.blank).mpr closed)

/-! ## Commands -/

/-- Other spacing keeps what ends a command behind the name of its flag. -/
theorem exists_assignmentText_of_respaced {name side assignment after second : List Char}
    (isText : AssignmentText name side assignment)
    (respaced : Respaced (assignment ++ after) second) :
    ∃ side' assignment' after', AssignmentText name side' assignment' ∧
      second = assignment' ++ after' := by
  obtain ⟨gapBlank, assigns, spaceBlank, closed, -, closingBlank⟩ := isText
  rename_i gap mark space closing
  have markShown : ∀ character ∈ mark, isBlank character = false := by
    cases assigns <;> decide
  have markFilled : mark ≠ [] := by
    cases assigns <;> simp
  simp only [List.append_assoc] at respaced
  obtain ⟨gap', behind, rfl, gaps, behinds⟩ :=
    Respaced.exists_of_append_append markShown markFilled respaced
  have joined : Respaced ((space ++ (side ++ closing)) ++ (['>', '>'] ++ after)) behind := by
    simpa only [List.append_assoc] using behinds
  obtain ⟨body, after', rfl, bodies, -⟩ :=
    Respaced.exists_of_append_append (by decide) (by decide) joined
  have bodyClosed : SideText false body := by
    refine (sideText_of_respaced bodies).1 false ?_
    rwa [sideText_blank_append_iff spaceBlank, sideText_append_blank_iff closingBlank]
  obtain ⟨space', closing', split, spaceBlank', closingBlank'⟩ := exists_eq_append_trim body
  have closed' : SideText false (trim body) := by
    rwa [split, List.append_assoc, sideText_blank_append_iff spaceBlank',
      sideText_append_blank_iff closingBlank'] at bodyClosed
  have second' : body ++ (['>', '>'] ++ after') =
      (space' ++ (trim body ++ (closing' ++ ['>', '>']))) ++ after' := by
    conv_lhs => rw [split]
    simp
  have assigns' : Assigns name gap' (space' ++ (trim body ++ (closing' ++ ['>', '>']))) mark := by
    have whole : space ++ (side ++ closing) ++ (['>', '>'] ++ after) =
        (space ++ (side ++ (closing ++ ['>', '>']))) ++ after := by simp
    have outside := joined.startsOutsideWord_eq
    rw [whole, second',
      startsOutsideWord_append (show space ++ (side ++ (closing ++ ['>', '>'])) ≠ [] by simp),
      startsOutsideWord_append
        (show space' ++ (trim body ++ (closing' ++ ['>', '>'])) ≠ [] by simp)] at outside
    cases assigns with
    | sign => exact .sign
    | word apart =>
        refine .word ⟨fun empty => apart.before ?_, ?_⟩
        · rw [empty] at gaps
          exact gaps.symm.eq_nil
        · rw [← outside]
          exact apart.after
  refine ⟨trim body, _, after', .intro (gaps.allBlank gapBlank) assigns' spaceBlank' closed'
    (trimmed_trim body) closingBlank', ?_⟩
  rw [second']
  simp

/-- A line with other spacing holds a command when the line itself holds one. -/
theorem HoldsCommand.of_respaced {first second : List Char} (respaced : Respaced first second)
    (holds : HoldsCommand first) : HoldsCommand second := by
  obtain ⟨name, side, command, ⟨blanksBlank, spacesBlank, spaced, isName, assigned⟩, before, after,
    rfl⟩ := holds
  rename_i blanks spaces assignment
  simp only [List.append_assoc] at respaced
  obtain ⟨before', second, rfl, -, opened⟩ :=
    Respaced.exists_of_append_append (by decide) (by decide) respaced
  obtain ⟨blanks', second, rfl, blanksRespaced, worded⟩ :=
    Respaced.exists_of_append_append (by decide) (by decide) opened
  have named : Respaced (spaces ++ (('$' :: name) ++ (assignment ++ after))) second := by
    simpa using worded
  obtain ⟨spaces', second, rfl, spacesRespaced, assignments⟩ :=
    Respaced.exists_of_append_append (shown_dollar_flag isName) (List.cons_ne_nil _ _) named
  obtain ⟨side', assignment', after', assigned', rfl⟩ :=
    exists_assignmentText_of_respaced assigned assignments
  have spaced' : spaces' ≠ [] := by
    rintro rfl
    exact spaced spacesRespaced.symm.eq_nil
  refine ⟨name, side', _, .intro (blanksRespaced.allBlank blanksBlank)
    (spacesRespaced.allBlank spacesBlank) spaced' isName assigned', before', after', ?_⟩
  simp

theorem holdsCommand_append_iff {front text : List Char} (plain : '<' ∉ front) :
    HoldsCommand (front ++ text) ↔ HoldsCommand text := by
  rw [← not_iff_not, ← commands_eq_nil_iff, ← commands_eq_nil_iff, commands_append plain]

private theorem CommandText.exists_concat {name side command : List Char}
    (isText : CommandText name side command) : ∃ front, command = front ++ ['>'] := by
  obtain ⟨blanks, space, spaces, front, -, -, rfl⟩ := exists_eq_append_of_commandText isText
  exact ⟨['<', '<'] ++ ((blanks ++ ("set".toList ++ space :: (spaces ++ '$' :: front))) ++ ['>']),
    by simp⟩

/-- A character behind a text that is no closing bracket ends no command. -/
theorem holdsCommand_concat_iff {text : List Char} {character : Char} (plain : character ≠ '>') :
    HoldsCommand (text ++ [character]) ↔ HoldsCommand text := by
  constructor
  · rintro ⟨name, side, command, isText, within⟩
    refine ⟨name, side, command, isText, ?_⟩
    obtain ⟨front, rfl⟩ := isText.exists_concat
    rcases List.infix_concat_iff.mp within with ⟨before, equality⟩ | inText
    · rw [← List.append_assoc] at equality
      obtain ⟨-, same⟩ := List.append_inj' equality rfl
      exact absurd (List.cons.inj same).1.symm plain
    · exact inText
  · rintro ⟨name, side, command, isText, within⟩
    exact ⟨name, side, command, isText, within.trans (List.infix_append [] text [character])⟩

private theorem holdsCommand_append_blank_iff {text blanks : List Char}
    (allBlank : AllBlank blanks) : HoldsCommand (text ++ blanks) ↔ HoldsCommand text := by
  induction blanks generalizing text with
  | nil => rw [List.append_nil]
  | cons blank blanks inductionHypothesis =>
      obtain ⟨here, inRest⟩ := List.forall_mem_cons.mp allBlank
      rw [← List.singleton_append, ← List.append_assoc, inductionHypothesis inRest,
        holdsCommand_concat_iff (ne_of_blank here rfl)]

/-- The words of a line with single spaces between them hold a command exactly when the line
does. -/
theorem holdsCommand_singleSpaced_iff {line : List Char} (oneLine : OneLine line) :
    HoldsCommand (singleSpaced line) ↔ HoldsCommand line := by
  obtain ⟨body, after, lineEq, afterBlank, respaced⟩ := exists_respaced_firstWordAndRest oneLine
  have shown : HoldsCommand (singleSpaced line) ↔ HoldsCommand
      ([' '].intercalate ((firstWordAndRest line).1 :: (firstWordAndRest line).2)) := by
    unfold singleSpaced words
    generalize firstWordAndRest line = found
    obtain ⟨word, others⟩ := found
    cases word with
    | cons first letters => rfl
    | nil =>
        cases others with
        | nil => rfl
        | cons second behind =>
            exact (holdsCommand_append_iff (show '<' ∉ [' '] by decide)).symm
  have whole : HoldsCommand line ↔ HoldsCommand body := by
    rw [lineEq, holdsCommand_append_blank_iff afterBlank]
  rw [shown, whole]
  exact ⟨HoldsCommand.of_respaced respaced.symm, HoldsCommand.of_respaced respaced⟩

end BranchingDialogue.Script

import BranchingDialogue.Play.Content
import BranchingDialogue.Proofs.Script.Spacing

/-! What content shows is content again. Its lines are what is left of the lines of the content,
with other spacing, so that it holds a command exactly when the removal of the commands of a line
has left one. -/

namespace BranchingDialogue

open Script Text

namespace Script

/-! ## Lines without their commands -/

private theorem pieces_of_commands_eq_nil {text : List Char} (none : commands text = []) :
    pieces text = text.map .shown := by
  induction text with
  | nil => rfl
  | cons character rest inductionHypothesis =>
      cases found : commandAt (character :: rest) with
      | some parts => exact absurd none (commands_cons_of_some found)
      | none =>
          rw [commands_cons_of_none found] at none
          have here : pieces (character :: rest) = .shown character :: pieces rest := by
            simp [pieces, piecesFrom, found]
          rw [here, inductionHypothesis none]
          rfl

private theorem withoutCommands_of_commands_eq_nil {text : List Char} (none : commands text = []) :
    withoutCommands text = text := by
  rw [withoutCommands, pieces_of_commands_eq_nil none, List.filterMap_map]
  exact List.filterMap_some

private theorem mem_of_shown_mem_piecesFrom {covered : Nat} {text : List Char} {character : Char}
    (member : .shown character ∈ piecesFrom covered text) : character ∈ text := by
  induction text generalizing covered with
  | nil => cases covered <;> cases member
  | cons head rest inductionHypothesis =>
      cases covered with
      | succ covered => exact List.mem_cons_of_mem _ (inductionHypothesis member)
      | zero =>
          rw [piecesFrom] at member
          split at member
          · rcases List.mem_cons.mp member with same | inRest
            · cases same
            · exact List.mem_cons_of_mem _ (inductionHypothesis inRest)
          · rcases List.mem_cons.mp member with same | inRest
            · cases same
              exact List.mem_cons_self
            · exact List.mem_cons_of_mem _ (inductionHypothesis inRest)

private theorem oneLine_withoutCommands {line : List Char} (oneLine : OneLine line) :
    OneLine (withoutCommands line) := by
  intro feed
  obtain ⟨piece, member, shown⟩ := List.mem_filterMap.mp feed
  cases piece with
  | command _ => cases shown
  | shown character =>
      cases shown
      exact oneLine (mem_of_shown_mem_piecesFrom member)

private theorem not_holdsCommand_nil : ¬ HoldsCommand [] := by
  rw [← commands_eq_nil_iff]
  rfl

/-- What a line shows holds a command exactly when the line without its commands does. -/
theorem exists_shownLine_holdsCommand_iff {line : List Char} (oneLine : OneLine line) :
    (∃ shown ∈ shownLine line, HoldsCommand shown) ↔ HoldsCommand (withoutCommands line) := by
  unfold shownLine
  split
  · rename_i none
    rw [withoutCommands_of_commands_eq_nil (List.isEmpty_iff.mp none)]
    simp
  · rw [← holdsCommand_singleSpaced_iff (oneLine_withoutCommands oneLine)]
    dsimp only
    split
    · rename_i empty
      rw [List.isEmpty_iff.mp empty]
      simp [not_holdsCommand_nil]
    · simp

/-! ## Commands beside each other -/

/-- Whether no opening bracket is shown before a command of a line. -/
def Unnested (line : List Char) : Prop :=
  (pieces line).Pairwise fun earlier later => earlier = .shown '<' → later.command? = none

instance : DecidablePred Unnested := fun line =>
  inferInstanceAs (Decidable ((pieces line).Pairwise fun earlier later =>
    earlier = .shown '<' → later.command? = none))

/-- The pieces of a text end in the characters of a text without commands, which come behind a
command if anything does. -/
theorem exists_pieces_eq_append (covered : Nat) (text : List Char) :
    ∃ front rest, piecesFrom covered text = front ++ rest.map .shown ∧ commands rest = [] ∧
      (front = [] ∨ ∃ before raw, front = before ++ [.command raw]) := by
  induction text generalizing covered with
  | nil => exact ⟨[], [], by cases covered <;> rfl, rfl, Or.inl rfl⟩
  | cons character text inductionHypothesis =>
      cases covered with
      | succ covered => exact inductionHypothesis covered
      | zero =>
          cases found : commandAt (character :: text) with
          | some parts =>
              obtain ⟨raw, after⟩ := parts
              obtain ⟨front, rest, split, none, ends⟩ :=
                inductionHypothesis (text.length - after.length)
              refine ⟨.command raw :: front, rest, ?_, none, Or.inr ?_⟩
              · simp [piecesFrom, found, split]
              · rcases ends with rfl | ⟨before, last, rfl⟩
                · exact ⟨[], raw, rfl⟩
                · exact ⟨.command raw :: before, last, rfl⟩
          | none =>
              by_cases plain : commands text = []
              · have none : commands (character :: text) = [] := by
                  rw [commands_cons_of_none found, plain]
                exact ⟨[], character :: text, pieces_of_commands_eq_nil none, none, Or.inl rfl⟩
              · obtain ⟨front, rest, split, none, ends⟩ := inductionHypothesis 0
                refine ⟨.shown character :: front, rest, ?_, none, Or.inr ?_⟩
                · simp [piecesFrom, found, split]
                · rcases ends with rfl | ⟨before, last, rfl⟩
                  · have allShown : commands text = [] := by
                      rw [commands, pieces, split]
                      simp [Piece.command?]
                    exact absurd allShown plain
                  · exact ⟨.shown character :: before, last, rfl⟩

/-- The removal of commands that stand beside each other leaves no command. -/
theorem Unnested.not_holdsCommand {line : List Char} (unnested : Unnested line) :
    ¬ HoldsCommand (withoutCommands line) := by
  obtain ⟨front, rest, split, none, ends⟩ := exists_pieces_eq_append 0 line
  have left : withoutCommands line = front.filterMap Piece.shown? ++ rest := by
    rw [withoutCommands, pieces, split, List.filterMap_append, List.filterMap_map]
    exact congrArg _ List.filterMap_some
  have plain : '<' ∉ front.filterMap Piece.shown? := by
    intro member
    rcases ends with rfl | ⟨before, raw, rfl⟩
    · cases member
    · obtain ⟨piece, listed, shown⟩ := List.mem_filterMap.mp member
      cases piece with
      | command _ => cases shown
      | shown character =>
          cases shown
          have inBefore : Piece.shown '<' ∈ before := by simpa using listed
          rw [Unnested, pieces, split] at unnested
          have order := (List.pairwise_append.mp unnested).1
          have noCommand := (List.pairwise_append.mp order).2.2 _ inBefore _
            (List.mem_singleton_self _) rfl
          cases noCommand
  rw [left, holdsCommand_append_iff plain, ← commands_eq_nil_iff]
  exact none

end Script

/-! ## Settled content -/

/-- Whether content has no command on any line, so that playing it changes nothing. -/
structure Settled (content : String) : Prop where
  noCommand : ∀ line ∈ lines content.toList, ¬ HoldsCommand line
  unchanged : ∀ (store : Store) (schema : FlagSchema), store.play schema content = (store, [])

private theorem settled_iff {content : String} :
    Settled content ↔ ∀ line ∈ lines content.toList, ¬ HoldsCommand line := by
  refine ⟨Settled.noCommand, fun noCommand => ⟨noCommand, fun store schema => ?_⟩⟩
  have none : contentCommands content = [] := by
    rw [contentCommands, List.flatMap_eq_nil_iff]
    exact fun line listed => commands_eq_nil_iff.mpr (noCommand line listed)
  rw [Store.play, none]
  rfl

private theorem oneLine_of_shownLine {line part : List Char} (oneLine : OneLine line)
    (shown : shownLine line = some part) : OneLine part := by
  unfold shownLine at shown
  split at shown
  · cases shown
    exact oneLine
  · obtain ⟨-, equality⟩ := Option.ite_none_left_eq_some.mp shown
    cases equality
    exact oneLine_singleSpaced _

/-- A line of shown content holds a command exactly when the commands of a line of the content
leave one. -/
theorem exists_shownContent_iff (content : String) :
    (∃ line ∈ lines (shownContent content).toList, HoldsCommand line) ↔
      ∃ line ∈ lines content.toList, HoldsCommand (withoutCommands line) := by
  have oneLine : ∀ part ∈ (lines content.toList).filterMap shownLine, OneLine part := by
    intro part listed
    obtain ⟨line, member, shown⟩ := List.mem_filterMap.mp listed
    exact oneLine_of_shownLine (oneLine_of_mem_lines member) shown
  rw [shownContent, String.toList_ofList, exists_mem_lines_joinLines_iff not_holdsCommand_nil
    (fun line => holdsCommand_concat_iff (by decide)) oneLine]
  constructor
  · rintro ⟨part, listed, holds⟩
    obtain ⟨line, member, shown⟩ := List.mem_filterMap.mp listed
    exact ⟨line, member, (exists_shownLine_holdsCommand_iff (oneLine_of_mem_lines member)).mp
      ⟨part, shown, holds⟩⟩
  · rintro ⟨line, member, holds⟩
    obtain ⟨part, shown, holds⟩ :=
      (exists_shownLine_holdsCommand_iff (oneLine_of_mem_lines member)).mpr holds
    exact ⟨part, List.mem_filterMap.mpr ⟨line, member, shown⟩, holds⟩

/-- What content shows is settled exactly when the removal of the commands of a line never leaves a
command. That is so when no opening bracket is shown before a command. -/
theorem settled_shownContent (content : String) :
    (Settled (shownContent content) ↔
        ∀ line ∈ lines content.toList, ¬ HoldsCommand (withoutCommands line)) ∧
      ((∀ line ∈ lines content.toList, Unnested line) → Settled (shownContent content)) := by
  have settled : Settled (shownContent content) ↔
      ∀ line ∈ lines content.toList, ¬ HoldsCommand (withoutCommands line) := by
    have same := not_congr (exists_shownContent_iff content)
    rw [settled_iff]
    simpa using same
  refine ⟨settled, fun unnested => settled.mpr fun line member => ?_⟩
  exact (unnested line member).not_holdsCommand

theorem settled_shownContent_ale :
    (∀ line ∈ lines "Ale? <<set $ale = 2>>\n<<set $ale to $ale - 1>> > < ale".toList,
        Unnested line) ∧
      Settled (shownContent "Ale? <<set $ale = 2>>\n<<set $ale to $ale - 1>> > < ale") :=
  have unnested : ∀ line ∈ lines "Ale? <<set $ale = 2>>\n<<set $ale to $ale - 1>> > < ale".toList,
      Unnested line := by decide +kernel
  ⟨unnested, (settled_shownContent _).2 unnested⟩

/-- The removal of a command puts another one together, which is shown and does something. -/
theorem command_shown :
    shownContent "<<<<set $a = 1>>set $b = 2>>" = "<<set $b = 2>>" ∧
      (default : Store).get? "b" = none ∧
      ((default : Store).play .empty "<<set $b = 2>>").1.get? "b" = some (.number 2) := by
  decide +kernel

end BranchingDialogue

import BranchingDialogue.Proofs.Text.Lines

/-! The rows of a text are what stands between its line feeds. Without blanks at their ends they are
the lines of the text, but for empty ones. -/

namespace BranchingDialogue.Text

def rows (text : List Char) : List (List Char) :=
  text.splitOn '\n'

private theorem rows_append_feed (before after : List Char) :
    rows (before ++ '\n' :: after) = rows before ++ rows after :=
  List.splitOn_append_cons_self before after

theorem joinLines_rows (text : List Char) : joinLines (rows text) = text :=
  List.intercalate_splitOn '\n'

theorem oneLine_of_mem_rows {text row : List Char} (member : row ∈ rows text) : OneLine row := by
  induction text generalizing row with
  | nil =>
      rw [List.mem_singleton.mp member]
      exact isLine_nil.oneLine
  | cons character text inductionHypothesis =>
      unfold rows at member inductionHypothesis
      rw [List.splitOn_cons_eq_if_modifyHead] at member
      by_cases isFeed : character = '\n'
      · rw [if_pos (beq_iff_eq.mpr isFeed)] at member
        rcases List.mem_cons.mp member with rfl | inRest
        · exact isLine_nil.oneLine
        · exact inductionHypothesis inRest
      · rw [if_neg (by simpa using isFeed)] at member
        cases split : text.splitOn '\n' with
        | nil => exact absurd split (List.splitOn_ne_nil _ _)
        | cons first others =>
            rw [split] at member inductionHypothesis
            rcases List.mem_cons.mp member with rfl | inOthers
            · exact .cons isFeed (inductionHypothesis List.mem_cons_self)
            · exact inductionHypothesis (List.mem_cons_of_mem _ inOthers)

/-- Some rows without blanks at their ends, except those that are empty then. -/
def shownRows (parts : List (List Char)) : List (List Char) :=
  (parts.map trim).filter fun row => !row.isEmpty

@[simp]
theorem shownRows_append (before after : List (List Char)) :
    shownRows (before ++ after) = shownRows before ++ shownRows after := by
  rw [shownRows, List.map_append, List.filter_append, shownRows, shownRows]

theorem shownRows_cons_of_blank {row : List Char} (blank : AllBlank row)
    (after : List (List Char)) : shownRows (row :: after) = shownRows after := by
  rw [shownRows, List.map_cons, trim_eq_nil_iff.mpr blank]
  rfl

theorem shownRows_cons {row : List Char} (shows : trim row ≠ []) (after : List (List Char)) :
    shownRows (row :: after) = trim row :: shownRows after := by
  have filled : (!(trim row).isEmpty) = true := by simpa using shows
  rw [shownRows, List.map_cons, List.filter_cons, if_pos filled, shownRows]

/-- The lines of a text without blanks at their ends, except those that are empty then. -/
def shownLines (text : List Char) : List (List Char) :=
  shownRows (lines text)

private theorem shownLines_joinLines {parts : List (List Char)}
    (oneLine : ∀ part ∈ parts, OneLine part) : shownLines (joinLines parts) = shownRows parts := by
  match parts with
  | [] => rfl
  | [part] =>
      rw [joinLines_singleton, shownLines]
      by_cases filled : part = []
      · subst filled
        rfl
      · rw [lines_of_oneLine filled (oneLine part List.mem_cons_self)]
  | first :: second :: others =>
      obtain ⟨firstLine, othersLine⟩ := List.forall_mem_cons.mp oneLine
      obtain ⟨line, split, same⟩ :=
        exists_lines_append_feed firstLine (joinLines (second :: others))
      have sameTrim : trim line = trim first := by
        rcases same with rfl | rfl
        · rfl
        · exact (trim_append_blank (List.forall_mem_singleton.mpr rfl)).symm
      have rest := shownLines_joinLines othersLine
      unfold shownLines shownRows at rest ⊢
      rw [joinLines_cons_cons, split, List.map_cons, List.map_cons, sameTrim, List.filter_cons,
        List.filter_cons, rest]

theorem shownLines_of_oneLine {line : List Char} (oneLine : OneLine line) :
    shownLines line = shownRows [line] := by
  have single := @shownLines_joinLines [line] (List.forall_mem_singleton.mpr oneLine)
  rwa [joinLines_singleton] at single

/-- The lines of a text that are not empty are its rows that are not empty. -/
theorem shownLines_eq_rows (text : List Char) : shownLines text = shownRows (rows text) := by
  have ofRows := @shownLines_joinLines (rows text) fun _ => oneLine_of_mem_rows
  rwa [joinLines_rows] at ofRows

theorem shownLines_append_feed (before after : List Char) :
    shownLines (before ++ '\n' :: after) = shownLines before ++ shownLines after := by
  rw [shownLines_eq_rows, rows_append_feed, shownRows_append, ← shownLines_eq_rows,
    ← shownLines_eq_rows]

end BranchingDialogue.Text

import BranchingDialogue.Proofs.Text.Trim
import BranchingDialogue.Text.Lines

/-! Texts on one line, each ended by a line feed or joined by line feeds, are the lines of what
comes out. A carriage return at the end of a line is the only thing that could be lost. -/

namespace BranchingDialogue.Text

/-- Whether a text is on one line. -/
def OneLine (text : List Char) : Prop :=
  '\n' ∉ text

instance (text : List Char) : Decidable (OneLine text) :=
  inferInstanceAs (Decidable ('\n' ∉ text))

/-- Whether a text can be a line of its own: it is on one line and does not end in a carriage
return, which would be taken for a part of the line end. -/
structure IsLine (text : List Char) : Prop where
  oneLine : OneLine text
  open_end : text.getLast? ≠ some '\r'

theorem Trimmed.isLine {text : List Char} (trimmed : Trimmed text) (oneLine : OneLine text) :
    IsLine text :=
  ⟨oneLine, fun last => by
    have shown := trimmed.last_shown last
    simp [isBlank] at shown⟩

theorem isLine_nil : IsLine [] :=
  ⟨by simp [OneLine], by simp⟩

theorem OneLine.append {first second : List Char} (firstLine : OneLine first)
    (secondLine : OneLine second) : OneLine (first ++ second) := by
  unfold OneLine at *
  simp [firstLine, secondLine]

theorem OneLine.cons {character : Char} {text : List Char} (different : character ≠ '\n')
    (oneLine : OneLine text) : OneLine (character :: text) := by
  unfold OneLine at *
  simp [oneLine, different.symm]

/-- A line whose last part is not empty ends where that part does. -/
theorem IsLine.append {last : List Char} (lastLine : IsLine last) (filled : last ≠ [])
    {first : List Char} (firstLine : OneLine first) : IsLine (first ++ last) :=
  ⟨firstLine.append lastLine.oneLine, by
    rw [List.getLast?_append_of_ne_nil _ filled]
    exact lastLine.open_end⟩

/-! ## Ended lines -/

private theorem lines_cons_of_ne {character : Char} {rest : List Char} (notFeed : character ≠ '\n')
    (notReturn : ∀ after, character = '\r' → rest ≠ '\n' :: after) :
    lines (character :: rest) =
      match lines rest with
      | [] => [[character]]
      | first :: others => (character :: first) :: others :=
  lines.eq_4 character rest notFeed notReturn

/-- A text that a line feed ends is a line, but for a carriage return at its end. -/
theorem exists_lines_append_feed {part : List Char} (oneLine : OneLine part) (rest : List Char) :
    ∃ line, lines (part ++ '\n' :: rest) = line :: lines rest ∧
      (part = line ∨ part = line ++ ['\r']) := by
  induction part with
  | nil => exact ⟨[], rfl, Or.inl rfl⟩
  | cons character part inductionHypothesis =>
      obtain ⟨notFeed, partLine⟩ := not_or.mp (List.mem_cons.not.mp oneLine)
      by_cases ended : character = '\r' ∧ part = []
      · obtain ⟨rfl, rfl⟩ := ended
        exact ⟨[], rfl, Or.inr rfl⟩
      · obtain ⟨line, split, same⟩ := inductionHypothesis partLine
        have notReturn : ∀ after, character = '\r' → part ++ '\n' :: rest ≠ '\n' :: after := by
          intro after isReturn begins
          cases part with
          | nil => exact ended ⟨isReturn, rfl⟩
          | cons other others =>
              obtain rfl : other = '\n' := (List.cons.inj begins).1
              exact partLine List.mem_cons_self
        refine ⟨character :: line, ?_, ?_⟩
        · rw [List.cons_append, lines_cons_of_ne (Ne.symm notFeed) notReturn, split]
        · rcases same with rfl | rfl
          · exact Or.inl rfl
          · exact Or.inr rfl

private theorem lines_append_feed {line : List Char} (isLine : IsLine line) (rest : List Char) :
    lines (line ++ '\n' :: rest) = line :: lines rest := by
  obtain ⟨first, split, rfl | rfl⟩ := exists_lines_append_feed isLine.oneLine rest
  · exact split
  · exact absurd List.getLast?_concat isLine.open_end

theorem lines_flatMap_endLine {parts : List (List Char)}
    (areLines : ∀ part ∈ parts, IsLine part) : lines (parts.flatMap endLine) = parts := by
  induction parts with
  | nil => rfl
  | cons part parts inductionHypothesis =>
      obtain ⟨isLine, restLines⟩ := List.forall_mem_cons.mp areLines
      rw [List.flatMap_cons, endLine, List.append_assoc, List.singleton_append,
        lines_append_feed isLine, inductionHypothesis restLines]

/-! ## Joined lines -/

theorem lines_of_oneLine {line : List Char} (filled : line ≠ []) (oneLine : OneLine line) :
    lines line = [line] := by
  induction line with
  | nil => exact absurd rfl filled
  | cons character line inductionHypothesis =>
      obtain ⟨notFeed, restLine⟩ := not_or.mp (List.mem_cons.not.mp oneLine)
      have notReturn : ∀ after, character = '\r' → line ≠ '\n' :: after := by
        rintro after - rfl
        exact restLine List.mem_cons_self
      rw [lines_cons_of_ne (Ne.symm notFeed) notReturn]
      cases line with
      | nil => rfl
      | cons other others => rw [inductionHypothesis (List.cons_ne_nil _ _) restLine]

theorem intercalate_cons_cons (mark first second : List Char) (others : List (List Char)) :
    mark.intercalate (first :: second :: others) =
      first ++ mark ++ mark.intercalate (second :: others) := by
  simp [List.intercalate, List.intersperse]

theorem oneLine_intercalate {mark : List Char} (markLine : OneLine mark) {parts : List (List Char)}
    (oneLine : ∀ text ∈ parts, OneLine text) : OneLine (mark.intercalate parts) := by
  match parts with
  | [] => exact isLine_nil.oneLine
  | [only] =>
      have same : mark.intercalate [only] = only := by simp [List.intercalate]
      rw [same]
      exact oneLine only (by simp)
  | first :: second :: others =>
      obtain ⟨firstLine, othersLine⟩ := List.forall_mem_cons.mp oneLine
      rw [intercalate_cons_cons]
      exact (firstLine.append markLine).append (oneLine_intercalate markLine othersLine)

@[simp]
theorem joinLines_singleton (part : List Char) : joinLines [part] = part := by
  simp [joinLines, List.intercalate]

theorem joinLines_cons_cons (first second : List Char) (others : List (List Char)) :
    joinLines (first :: second :: others) = first ++ '\n' :: joinLines (second :: others) := by
  simp [joinLines]

theorem lines_joinLines {parts : List (List Char)} (filled : ∀ part ∈ parts, part ≠ [])
    (areLines : ∀ part ∈ parts, IsLine part) : lines (joinLines parts) = parts := by
  match parts with
  | [] => rfl
  | [part] =>
      rw [joinLines_singleton]
      exact lines_of_oneLine (filled part List.mem_cons_self)
        (areLines part List.mem_cons_self).oneLine
  | first :: second :: others =>
      rw [joinLines_cons_cons, lines_append_feed (areLines first List.mem_cons_self),
        lines_joinLines (fun part member => filled part (List.mem_cons_of_mem _ member))
          fun part member => areLines part (List.mem_cons_of_mem _ member)]

/-- What holds of a text with and without a carriage return at its end, and of no empty text, holds
of a line of joined texts exactly when it holds of one of the texts. -/
theorem exists_mem_lines_joinLines_iff {holds : List Char → Prop} (empty : ¬ holds [])
    (stripped : ∀ line, holds (line ++ ['\r']) ↔ holds line) {parts : List (List Char)}
    (oneLine : ∀ part ∈ parts, OneLine part) :
    (∃ line ∈ lines (joinLines parts), holds line) ↔ ∃ part ∈ parts, holds part := by
  match parts with
  | [] => simp [joinLines, lines, List.intercalate]
  | [part] =>
      rw [joinLines_singleton]
      by_cases filled : part = []
      · simp [filled, lines, empty]
      · rw [lines_of_oneLine filled (oneLine part List.mem_cons_self)]
  | first :: second :: others =>
      obtain ⟨firstLine, othersLine⟩ := List.forall_mem_cons.mp oneLine
      obtain ⟨line, split, same⟩ := exists_lines_append_feed firstLine (joinLines (second :: others))
      have sameHolds : holds line ↔ holds first := by
        rcases same with rfl | rfl
        · rfl
        · exact (stripped line).symm
      rw [joinLines_cons_cons, split, List.exists_mem_cons_iff, sameHolds,
        exists_mem_lines_joinLines_iff empty stripped othersLine,
        List.exists_mem_cons_iff (p := holds) first]

/-! ## Lines of any text -/

theorem oneLine_of_mem_lines {text line : List Char} (member : line ∈ lines text) :
    OneLine line := by
  induction text using lines.induct generalizing line with
  | case1 => simp [lines] at member
  | case2 rest inductionHypothesis =>
      rw [lines] at member
      rcases List.mem_cons.mp member with rfl | inRest
      · exact isLine_nil.oneLine
      · exact inductionHypothesis inRest
  | case3 rest inductionHypothesis =>
      rw [lines] at member
      rcases List.mem_cons.mp member with rfl | inRest
      · exact isLine_nil.oneLine
      · exact inductionHypothesis inRest
  | case4 character rest notFeed notReturn empty _ =>
      rw [lines_cons_of_ne notFeed notReturn, empty] at member
      obtain rfl : line = [character] := by simpa using member
      exact .cons (fun equality => notFeed equality) isLine_nil.oneLine
  | case5 character rest notFeed notReturn first others split inductionHypothesis =>
      rw [lines_cons_of_ne notFeed notReturn, split] at member
      rcases List.mem_cons.mp member with rfl | inOthers
      · exact .cons (fun equality => notFeed equality)
          (inductionHypothesis (by rw [split]; exact List.mem_cons_self))
      · exact inductionHypothesis (by rw [split]; exact List.mem_cons_of_mem _ inOthers)

end BranchingDialogue.Text

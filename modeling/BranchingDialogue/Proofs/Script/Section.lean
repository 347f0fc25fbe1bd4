import BranchingDialogue.Proofs.Script.Node
import BranchingDialogue.Script.Reader

/-! A written section is found again between the marks of its start and its end, and its heading and
its body give the node that was written. -/

namespace BranchingDialogue.Script

open Text

/-! ## Keys and values -/

theorem keyAndValue_append {key value : List Char} (noColon : ':' ∉ key) :
    keyAndValue (key ++ ": ".toList ++ value) = some (trim key, trim value) := by
  have cutEq : cut [':'] (key ++ [':'] ++ (' ' :: value)) = some (key, ' ' :: value) :=
    cut_append_of_not_mem _ noColon
  have same : key ++ ": ".toList ++ value = key ++ [':'] ++ (' ' :: value) := by simp
  unfold keyAndValue
  rw [same, cutEq, Option.map_some]
  dsimp only
  rw [trim_space_cons]

/-- Whether a line can stand before the title of a section without telling it anything. -/
structure IsPlainLine (line : List Char) : Prop where
  noStart : line ≠ bodyStart
  noEnd : line ≠ sectionEnd
  tells : ∀ heading : Heading, heading.readLine line = heading

private theorem readLine_title (heading : Heading) {title : List Char} (trimmed : Trimmed title)
    (filled : title ≠ []) :
    heading.readLine ("title: ".toList ++ title) = { heading with title := some title } := by
  have read : keyAndValue ("title: ".toList ++ title) = some ("title".toList, title) := by
    have found := @keyAndValue_append "title".toList title (by decide)
    rw [trimmed] at found
    exact found
  unfold Heading.readLine
  rw [read]
  simp [filled]

private theorem readLine_speaker (heading : Heading) {speaker : List Char}
    (trimmed : Trimmed speaker) (filled : speaker ≠ []) :
    heading.readLine ("speaker: ".toList ++ speaker) =
      { heading with speaker := some speaker } := by
  have read : keyAndValue ("speaker: ".toList ++ speaker) = some ("speaker".toList, speaker) := by
    have found := @keyAndValue_append "speaker".toList speaker (by decide)
    rw [trimmed] at found
    exact found
  unfold Heading.readLine
  rw [read]
  simp [filled]

/-! ## Headings -/

private theorem readHeading_append {front rest : List NumberedLine}
    (plain : ∀ line ∈ front, IsPlainLine line.text) (heading : Heading) :
    readHeading heading (front ++ rest) = readHeading heading rest := by
  induction front with
  | nil => rfl
  | cons line front inductionHypothesis =>
      obtain ⟨⟨noStart, -, tells⟩, others⟩ := List.forall_mem_cons.mp plain
      rw [List.cons_append, readHeading, if_neg noStart, tells, inductionHypothesis others]

private theorem readHeading_cons {line : NumberedLine} {rest : List NumberedLine}
    {heading : Heading} (different : line.text ≠ bodyStart) :
    readHeading heading (line :: rest) = readHeading (heading.readLine line.text) rest := by
  rw [readHeading, if_neg different]

private theorem title_ne_bodyStart (title : List Char) : "title: ".toList ++ title ≠ bodyStart := by
  intro same
  cases same

private theorem speaker_ne_bodyStart (speaker : List Char) :
    "speaker: ".toList ++ speaker ≠ bodyStart := by
  intro same
  cases same

/-- The lines of a section up to its end, after lines that tell its heading nothing. -/
def sectionTexts (front : List (List Char)) (node : Node) : List (List Char) :=
  front ++ ["title: ".toList ++ node.id.toList] ++ writeSpeaker (headingSpeaker node) ++
    bodyStart :: (writeBody node).map trim

/-- The heading and the body of a written section. -/
theorem readHeading_writeNode {node : Node} (keeps : node.KeepsSection)
    {front : List (List Char)} (plain : ∀ text ∈ front, IsPlainLine text)
    {lines : List NumberedLine}
    (texts : lines.map NumberedLine.text = sectionTexts front node) :
    ∃ body, readHeading {} lines =
        (⟨some node.id.toList, (headingSpeaker node).map String.toList⟩, some body) ∧
      body.map NumberedLine.text = (writeBody node).map trim := by
  have label := keeps.id
  unfold sectionTexts at texts
  rw [List.append_assoc, List.append_assoc, List.singleton_append] at texts
  obtain ⟨frontLines, rest, rfl, frontEq, restEq⟩ := List.map_eq_append_iff.mp texts
  have frontPlain : ∀ line ∈ frontLines, IsPlainLine line.text := by
    intro line member
    apply plain
    rw [← frontEq]
    exact List.mem_map_of_mem member
  rw [readHeading_append frontPlain]
  obtain ⟨title, others, rfl, titleEq, othersEq⟩ := List.map_eq_cons_iff.mp restEq
  rw [readHeading_cons (by rw [titleEq]; exact title_ne_bodyStart _), titleEq,
    readLine_title _ label.trimmed label.filled]
  cases named : headingSpeaker node with
  | none =>
      rw [named] at othersEq
      obtain ⟨mark, body, rfl, markEq, bodyEq⟩ := List.map_eq_cons_iff.mp othersEq
      refine ⟨body, ?_, bodyEq⟩
      rw [readHeading, if_pos markEq]
      rfl
  | some name =>
      have nameLabel := keeps.speaker name named
      rw [named] at othersEq
      obtain ⟨speaker, marked, rfl, speakerEq, markedEq⟩ := List.map_eq_cons_iff.mp othersEq
      obtain ⟨mark, body, rfl, markEq, bodyEq⟩ := List.map_eq_cons_iff.mp markedEq
      refine ⟨body, ?_, bodyEq⟩
      rw [readHeading_cons (by rw [speakerEq]; exact speaker_ne_bodyStart _), speakerEq,
        readLine_speaker _ nameLabel.trimmed nameLabel.filled, readHeading, if_pos markEq]
      rfl

/-! ## Bodies -/

/-- A body whose lines are all recognized is read in every mode. -/
theorem readBody_of_addLines (mode : Mode) {draft result : Draft} {body : List NumberedLine}
    (read : draft.addLines (body.map NumberedLine.text) = some result) :
    readBody mode draft body = .ok result := by
  induction body generalizing draft with
  | nil =>
      cases read
      rfl
  | cons line body inductionHypothesis =>
      rw [List.map_cons, Draft.addLines_cons, Option.bind_eq_some_iff] at read
      obtain ⟨next, step, rest⟩ := read
      have lineRead : readLine mode draft line = .ok next := by
        unfold readLine
        rw [step]
      unfold readBody at inductionHypothesis ⊢
      rw [List.foldlM_cons, lineRead]
      exact inductionHypothesis rest

/-! ## Divisions of a script -/

theorem texts_numberedLines (script : List Char) :
    (numberedLines script).map NumberedLine.text = (lines script).map trim := by
  unfold numberedLines
  exact List.ext_getElem (by simp) (by simp)

/-- The lines before the first mark of an end are a section. -/
theorem sectionsFrom_append {lines rest : List NumberedLine} {mark : NumberedLine}
    (apart : ∀ line ∈ lines, line.text ≠ sectionEnd) (isEnd : mark.text = sectionEnd)
    (firstLine : Nat) :
    sectionsFrom firstLine (lines ++ mark :: rest) =
      ⟨firstLine, lines⟩ :: sectionsFrom (mark.number + 1) rest := by
  induction lines with
  | nil => rw [List.nil_append, sectionsFrom, if_pos isEnd]
  | cons line lines inductionHypothesis =>
      obtain ⟨different, others⟩ := List.forall_mem_cons.mp apart
      rw [List.cons_append, sectionsFrom, if_neg different, inductionHypothesis others]

theorem mem_sectionTexts {node : Node} (keeps : node.KeepsSection) {front : List (List Char)}
    (plain : ∀ text ∈ front, IsPlainLine text) {text : List Char}
    (member : text ∈ sectionTexts front node) : text ≠ sectionEnd := by
  unfold sectionTexts at member
  rcases List.mem_append.mp member with inHeading | inBody
  · rcases List.mem_append.mp inHeading with inTitle | inSpeaker
    · rcases List.mem_append.mp inTitle with inFront | isTitle
      · exact (plain text inFront).noEnd
      · rw [List.mem_singleton.mp isTitle]
        intro same
        cases same
    · cases named : headingSpeaker node with
      | none =>
          rw [named] at inSpeaker
          cases inSpeaker
      | some name =>
          rw [named] at inSpeaker
          rw [List.mem_singleton.mp inSpeaker]
          intro same
          cases same
  · rcases List.mem_cons.mp inBody with rfl | inLines
    · decide
    · obtain ⟨line, listed, rfl⟩ := List.mem_map.mp inLines
      exact (keeps.body line listed).apart

end BranchingDialogue.Script

import BranchingDialogue.Proofs.Script.Discard
import BranchingDialogue.Proofs.Text.Rows

/-! An idle line, which is empty or a comment, tells the reading of a section nothing. Without its
idle lines a script is a list of portions, which are the parts between the marks of ends that hold
any line. The nodes of the script, and whether anything of it is discarded, come from its portions
alone, without the numbers of their lines. -/

namespace BranchingDialogue.Script

open Text

/-! ## Idle lines -/

private theorem keyAndValue_of_comment {line key value : List Char}
    (comment : isComment line = true)
    (found : keyAndValue line = some (key, value)) : key.head? = some '/' := by
  obtain ⟨rest, rfl⟩ := List.isPrefixOf_iff_prefix.mp comment
  unfold keyAndValue at found
  obtain ⟨⟨before, after⟩, parts, same⟩ := Option.map_eq_some_iff.mp found
  have first : before.head? = some '/' := by
    rw [List.cons_append, cut] at parts
    have noColon : List.isPrefixOf? [':'] ('/' :: (['/'] ++ rest)) = none := rfl
    rw [noColon] at parts
    obtain ⟨split, -, beforeEq⟩ := Option.map_eq_some_iff.mp parts
    rw [← (Prod.mk.inj beforeEq).1]
    rfl
  have start : trimStart before = before := by
    apply trimStart_eq_self
    intro character begins
    rw [first] at begins
    cases begins
    rfl
  rw [← (Prod.mk.inj same).1]
  unfold trim
  rw [start]
  exact head?_trimEnd first rfl

private theorem readLine_of_idle (heading : Heading) {line : List Char}
    (idle : isIdle line = true) : heading.readLine line = heading := by
  unfold Heading.readLine
  cases found : keyAndValue line with
  | none => rfl
  | some parts =>
      obtain ⟨key, value⟩ := parts
      have comment : isComment line = true := by
        rcases (Bool.or_eq_true _ _).mp idle with empty | comment
        · rw [List.isEmpty_iff.mp empty] at found
          cases found
        · exact comment
      have first := keyAndValue_of_comment comment found
      have noTitle : key ≠ "title".toList := by
        rintro rfl
        cases first
      have noSpeaker : key ≠ "speaker".toList := by
        rintro rfl
        cases first
      dsimp only
      rw [if_neg noTitle, if_neg noSpeaker, ite_self]

private theorem isIdle_bodyStart : isIdle bodyStart = false := rfl

private theorem isIdle_sectionEnd : isIdle sectionEnd = false := rfl

def tellingTexts (lines : List NumberedLine) : List (List Char) :=
  (lines.map NumberedLine.text).filter fun text => !isIdle text

/-- Lines with some texts, which all have the number zero. -/
def unnumbered (texts : List (List Char)) : List NumberedLine :=
  texts.map fun text => ⟨0, text⟩

section Lines

variable {line : NumberedLine} {lines : List NumberedLine}

private theorem tellingTexts_cons_of_idle (idle : isIdle line.text = true) :
    tellingTexts (line :: lines) = tellingTexts lines := by
  simp [tellingTexts, idle]

private theorem tellingTexts_cons (telling : isIdle line.text = false) :
    tellingTexts (line :: lines) = line.text :: tellingTexts lines := by
  simp [tellingTexts, telling]

private theorem tellingTexts_append (before after : List NumberedLine) :
    tellingTexts (before ++ after) = tellingTexts before ++ tellingTexts after := by
  simp [tellingTexts]

private theorem readHeading_unnumbered (heading : Heading) (lines : List NumberedLine) :
    readHeading heading (unnumbered (tellingTexts lines)) =
      ((readHeading heading lines).1,
        (readHeading heading lines).2.map fun body => unnumbered (tellingTexts body)) := by
  induction lines generalizing heading with
  | nil => rfl
  | cons line lines inductionHypothesis =>
      by_cases isStart : line.text = bodyStart
      · rw [tellingTexts_cons (isStart ▸ isIdle_bodyStart), readHeading, if_pos isStart]
        exact if_pos isStart
      · rw [readHeading, if_neg isStart]
        cases idle : isIdle line.text with
        | true =>
            rw [tellingTexts_cons_of_idle idle, readLine_of_idle heading idle,
              inductionHypothesis heading]
        | false =>
            rw [tellingTexts_cons idle, ← inductionHypothesis]
            exact if_neg isStart

private theorem addLine_of_idle (draft : Draft) {text : List Char} (idle : isIdle text = true) :
    draft.addLine text = some draft := by
  rw [Draft.addLine, if_pos idle]

private theorem passOver_unnumbered (draft : Draft) (body : List NumberedLine) :
    draft.passOver (unnumbered (tellingTexts body)) = draft.passOver body := by
  induction body generalizing draft with
  | nil => rfl
  | cons line body inductionHypothesis =>
      unfold Draft.passOver at inductionHypothesis ⊢
      cases idle : isIdle line.text with
      | true =>
          rw [tellingTexts_cons_of_idle idle, List.foldl_cons, addLine_of_idle draft idle,
            inductionHypothesis]
          rfl
      | false =>
          rw [tellingTexts_cons idle, List.foldl_cons, ← inductionHypothesis]
          rfl

private theorem unrecognizedLines_unnumbered (draft : Draft) (body : List NumberedLine) :
    unrecognizedLines draft (unnumbered (tellingTexts body)) = [] ↔
      unrecognizedLines draft body = [] := by
  induction body generalizing draft with
  | nil => rfl
  | cons line body inductionHypothesis =>
      cases idle : isIdle line.text with
      | true =>
          rw [tellingTexts_cons_of_idle idle, unrecognizedLines, addLine_of_idle draft idle]
          exact inductionHypothesis draft
      | false =>
          rw [tellingTexts_cons idle, unnumbered, List.map_cons, unrecognizedLines,
            unrecognizedLines]
          dsimp only
          cases draft.addLine line.text with
          | none => simp
          | some next => exact inductionHypothesis next

end Lines

/-! ## Portions of sections -/

def bareSection (texts : List (List Char)) : Section :=
  ⟨0, unnumbered texts⟩

def Section.portion (part : Section) : List (List Char) :=
  tellingTexts part.lines

private theorem node?_portion (part : Section) : (bareSection part.portion).node? = part.node? := by
  have heading := readHeading_unnumbered {} part.lines
  unfold Section.node? bareSection Section.portion
  rw [heading]
  rcases readHeading {} part.lines with ⟨⟨_ | title, speaker⟩, _ | body⟩
  case some.some =>
    dsimp only [Option.map_some]
    rw [passOver_unnumbered]
  all_goals rfl

private theorem title?_portion (part : Section) :
    (bareSection part.portion).title? = part.title? := by
  have sameId := id_node? (bareSection part.portion)
  rw [node?_portion, id_node? part] at sameId
  exact (Option.map_injective (fun _ _ => String.ofList_inj.mp) sameId).symm

private theorem all_isIdle_iff {lines : List NumberedLine} :
    (lines.all fun line => isIdle line.text) = true ↔ tellingTexts lines = [] := by
  simp [tellingTexts]

private theorem ownDiscards_portion (part : Section) :
    (bareSection part.portion).ownDiscards = [] ↔ part.ownDiscards = [] := by
  have heading := readHeading_unnumbered {} part.lines
  have sameIdle : (unnumbered (tellingTexts part.lines)).all (fun line => isIdle line.text) =
      part.lines.all fun line => isIdle line.text := by
    rw [Bool.eq_iff_iff, all_isIdle_iff, all_isIdle_iff]
    simp [unnumbered, tellingTexts, Function.comp_def]
  unfold Section.ownDiscards bareSection Section.portion
  rw [heading, sameIdle]
  rcases readHeading {} part.lines with ⟨⟨_ | title, speaker⟩, _ | body⟩
  case some.some =>
    dsimp only [Option.map_some]
    rw [List.map_eq_nil_iff, List.map_eq_nil_iff, unrecognizedLines_unnumbered]
  all_goals
    dsimp only [Option.map_none, Option.map_some]
    split
    · exact iff_of_true rfl rfl
    · exact iff_of_false (List.cons_ne_nil _ _) (List.cons_ne_nil _ _)

/-! ## Portions of scripts -/

/-- The parts of some lines between the marks of ends, except those without lines. -/
def portionsOf (texts : List (List Char)) : List (List (List Char)) :=
  (texts.splitOn sectionEnd).filter fun portion => !portion.isEmpty

private theorem splitOn_tellingTexts_cons {line : NumberedLine} (notEnd : line.text ≠ sectionEnd)
    (lines : List NumberedLine) :
    (tellingTexts (line :: lines)).splitOn sectionEnd =
      ((tellingTexts lines).splitOn sectionEnd).modifyHead (tellingTexts [line] ++ ·) := by
  cases idle : isIdle line.text with
  | true =>
      rw [tellingTexts_cons_of_idle idle, tellingTexts_cons_of_idle idle]
      exact (congrFun List.modifyHead_id _).symm
  | false =>
      rw [tellingTexts_cons idle, tellingTexts_cons idle, List.splitOn_cons_eq_if_modifyHead,
        if_neg (by simpa using notEnd)]
      rfl

/-- What the marks divide are the portions of the sections. What follows the last mark need not be a
section, and has no lines then. -/
theorem splitOn_tellingTexts (firstLine : Nat) (lines : List NumberedLine) :
    (tellingTexts lines).splitOn sectionEnd =
        (sectionsFrom firstLine lines).map Section.portion ∨
      (tellingTexts lines).splitOn sectionEnd =
        (sectionsFrom firstLine lines).map Section.portion ++ [[]] := by
  induction lines generalizing firstLine with
  | nil => exact Or.inr rfl
  | cons line lines inductionHypothesis =>
      by_cases isEnd : line.text = sectionEnd
      · rw [tellingTexts_cons (isEnd ▸ isIdle_sectionEnd), sectionsFrom, if_pos isEnd, isEnd,
          List.splitOn_cons_eq_if_modifyHead, if_pos (beq_self_eq_true _), List.map_cons]
        apply (inductionHypothesis (line.number + 1)).imp
        · intro same
          rw [same]
          rfl
        · intro same
          rw [same]
          rfl
      · rw [sectionsFrom, if_neg isEnd, splitOn_tellingTexts_cons isEnd]
        have divided := inductionHypothesis firstLine
        cases parts : sectionsFrom firstLine lines with
        | nil =>
            rw [parts] at divided
            have single := divided.resolve_left (List.splitOn_ne_nil _ _)
            rw [single]
            dsimp only
            by_cases empty : line.text.isEmpty = true
            · rw [if_pos empty]
              exact Or.inr (by simp [tellingTexts, isIdle, empty])
            · rw [if_neg empty]
              exact Or.inl (by simp [Section.portion])
        | cons found others =>
            have longer : Section.portion ⟨firstLine, line :: found.lines⟩ =
                tellingTexts [line] ++ found.portion := tellingTexts_append [line] found.lines
            rw [parts] at divided
            rw [List.map_cons, longer]
            apply divided.imp
            · intro same
              rw [same]
              rfl
            · intro same
              rw [same]
              rfl

/-- The sections with a line that is not idle have the portions of the lines. -/
theorem filter_portion_sectionsFrom (firstLine : Nat) (lines : List NumberedLine) :
    ((sectionsFrom firstLine lines).map Section.portion).filter (fun portion => !portion.isEmpty) =
      portionsOf (tellingTexts lines) := by
  unfold portionsOf
  rcases splitOn_tellingTexts firstLine lines with same | same
  · rw [same]
  · rw [same, List.filter_append]
    exact (List.append_nil _).symm

def portions (script : List Char) : List (List (List Char)) :=
  portionsOf ((shownLines script).filter fun line => !isComment line)

private theorem portionsOf_tellingTexts (script : List Char) :
    portionsOf (tellingTexts (numberedLines script)) = portions script := by
  have telling : tellingTexts (numberedLines script) =
      (shownLines script).filter fun line => !isComment line := by
    rw [tellingTexts, texts_numberedLines, shownLines, shownRows, List.filter_filter]
    apply List.filter_congr
    intro line _
    rw [isIdle, Bool.not_or, Bool.and_comm]
  rw [telling, portions]

/-- What is found in sections is found in the portions of the script, where sections without portion
have nothing. -/
theorem filterMap_sectionsFrom {α : Type} {find : Section → Option α}
    (ofPortion : ∀ part : Section, find (bareSection part.portion) = find part)
    (nothing : find (bareSection []) = none) (script : List Char) :
    (sectionsFrom 1 (numberedLines script)).filterMap find =
      (portions script).filterMap fun portion => find (bareSection portion) := by
  have filled : ∀ portion : List (List Char),
      (if (!portion.isEmpty) = true then find (bareSection portion) else none) =
        find (bareSection portion) := by
    intro portion
    cases portion with
    | nil => exact nothing.symm
    | cons text texts => rfl
  rw [← portionsOf_tellingTexts, ← filter_portion_sectionsFrom 1, List.filterMap_filter,
    List.filterMap_map]
  simp only [filled, Function.comp_def, ofPortion]

def keepNode (nodes : List Node) (node : Node) : List Node :=
  if nodes.any fun other => other.id = node.id then nodes else nodes ++ [node]

/-- The nodes that the portions of a script write, also those whose id is taken. -/
def writtenNodes (script : List Char) : List Node :=
  (portions script).filterMap fun portion => (bareSection portion).node?

private theorem foldl_keepSection_eq_foldl_keepNode (nodes : List Node) (parts : List Section) :
    parts.foldl keepSection nodes = (parts.filterMap Section.node?).foldl keepNode nodes := by
  induction parts generalizing nodes with
  | nil => rfl
  | cons part parts inductionHypothesis =>
      rw [List.foldl_cons, inductionHypothesis, keepSection]
      cases found : part.node? with
      | none => rw [List.filterMap_cons_none found]
      | some node =>
          rw [List.filterMap_cons_some found]
          rfl

theorem foldl_keepSection_sectionsFrom (script : List Char) :
    (sectionsFrom 1 (numberedLines script)).foldl keepSection [] =
      (writtenNodes script).foldl keepNode [] := by
  rw [foldl_keepSection_eq_foldl_keepNode, filterMap_sectionsFrom node?_portion rfl, writtenNodes]

private theorem discardsFrom_eq_nil_iff {taken : List (List Char)} {parts : List Section} :
    discardsFrom taken parts = [] ↔
      (∀ part ∈ parts, part.ownDiscards = []) ∧ (parts.filterMap Section.title?).Nodup ∧
        ∀ title ∈ parts.filterMap Section.title?, title ∉ taken := by
  induction parts generalizing taken with
  | nil => simp [discardsFrom]
  | cons part parts inductionHypothesis =>
      rw [discardsFrom, List.append_eq_nil_iff, inductionHypothesis, Section.discards,
        List.append_eq_nil_iff, List.forall_mem_cons]
      cases titled : part.title? with
      | none => simp [titled, and_assoc]
      | some title =>
          have repeats : ((some title).filter fun title => title ∈ taken).toList.map
              (fun title => Discard.repeated title part) = [] ↔ title ∉ taken := by
            by_cases isTaken : title ∈ taken <;> simp [isTaken]
          have fresh : (∀ other ∈ parts.filterMap Section.title?,
              other ∉ (some title).toList ++ taken) ↔
              title ∉ parts.filterMap Section.title? ∧
                ∀ other ∈ parts.filterMap Section.title?, other ∉ taken := by
            constructor
            · intro apart
              refine ⟨fun listed => apart title listed ?_, fun other listed isTaken => ?_⟩
              · exact List.mem_append_left _ List.mem_cons_self
              · exact apart other listed (List.mem_append_right _ isTaken)
            · rintro ⟨absent, free⟩ other listed either
              rcases List.mem_append.mp either with same | isTaken
              · rw [List.mem_singleton.mp same] at listed
                exact absent listed
              · exact free other listed isTaken
          rw [repeats, fresh, List.filterMap_cons_some titled, List.nodup_cons,
            List.forall_mem_cons]
          tauto

theorem discards_eq_nil_iff {script : List Char} :
    discards script = [] ↔
      (∀ portion ∈ portions script, (bareSection portion).ownDiscards = []) ∧
        ((portions script).filterMap fun portion => (bareSection portion).title?).Nodup := by
  have own : (∀ part ∈ sectionsFrom 1 (numberedLines script), part.ownDiscards = []) ↔
      ∀ portion ∈ portions script, (bareSection portion).ownDiscards = [] := by
    rw [← portionsOf_tellingTexts, ← filter_portion_sectionsFrom 1]
    constructor
    · intro none portion listed
      obtain ⟨part, inScript, rfl⟩ := List.mem_map.mp (List.mem_of_mem_filter listed)
      exact (ownDiscards_portion part).mpr (none part inScript)
    · intro none part inScript
      apply (ownDiscards_portion part).mp
      cases empty : part.portion with
      | nil => rfl
      | cons text texts =>
          rw [← empty]
          apply none
          exact List.mem_filter.mpr ⟨List.mem_map_of_mem inScript, by simp [empty]⟩
  rw [discards, discardsFrom_eq_nil_iff, own, filterMap_sectionsFrom title?_portion rfl]
  simp

end BranchingDialogue.Script

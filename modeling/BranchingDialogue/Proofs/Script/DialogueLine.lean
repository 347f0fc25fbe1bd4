import BranchingDialogue.Proofs.Text.Cut
import BranchingDialogue.Proofs.Text.Escape
import BranchingDialogue.Proofs.Text.Lines
import BranchingDialogue.Script.DialogueLine

/-! A written line names no speaker by itself, whatever its text is, and its escapes stand for that
text. Behind the name of a speaker it is read as a line of that speaker. -/

namespace BranchingDialogue.Script

open Text

/-! ## Names of speakers -/

/-- The rules for the name of a speaker. The last two keep a choice and an escaped colon from naming
one. -/
structure ReadsAsSpeaker (name : List Char) : Prop where
  filled : name ≠ []
  short : name.length ≤ 40
  plain : ∀ character ∈ markupCharacters, character ∉ name
  noDash : name.head? ≠ some '-'
  noEscape : name.getLast? ≠ some '\\'

theorem isSpeakerName_iff {name : List Char} :
    isSpeakerName name = true ↔ ReadsAsSpeaker name := by
  simp only [isSpeakerName, Bool.and_eq_true, Bool.not_eq_true', List.isEmpty_eq_false_iff,
    decide_eq_true_eq, List.all_eq_true, List.contains_eq_mem, decide_eq_false_iff_not,
    bne_iff_ne]
  constructor
  · rintro ⟨⟨⟨⟨filled, short⟩, plain⟩, noDash⟩, noEscape⟩
    exact ⟨filled, short, fun character markup member => plain character member markup, noDash,
      noEscape⟩
  · rintro ⟨filled, short, plain, noDash, noEscape⟩
    exact ⟨⟨⟨⟨filled, short⟩, fun character member markup => plain character markup member⟩,
      noDash⟩, noEscape⟩

theorem not_mem_speaker {name : List Char} (isName : isSpeakerName name = true) {character : Char}
    (markup : character ∈ markupCharacters) : character ∉ name :=
  (isSpeakerName_iff.mp isName).plain character markup

theorem speaker_ne_nil {name : List Char} (isName : isSpeakerName name = true) : name ≠ [] :=
  (isSpeakerName_iff.mp isName).filled

private theorem splitSpeaker_of_cut_none {line : List Char} (cutEq : cut speakerMark line = none) :
    splitSpeaker line = (none, line) := by
  simp only [splitSpeaker, cutEq]

private theorem splitSpeaker_of_cut {line before after : List Char}
    (cutEq : cut speakerMark line = some (before, after)) :
    splitSpeaker line =
      if isSpeakerName (trim before) then (some (trim before), trim after) else (none, line) := by
  simp only [splitSpeaker, cutEq]

/-- A line that names a speaker is divided at the first mark after a name. -/
theorem exists_of_splitSpeaker {line name text : List Char}
    (split : splitSpeaker line = (some name, text)) :
    ∃ before after, line = before ++ speakerMark ++ after ∧ name = trim before ∧
      text = trim after ∧ isSpeakerName name = true := by
  cases cutEq : cut speakerMark line with
  | none =>
      rw [splitSpeaker_of_cut_none cutEq] at split
      cases split
  | some parts =>
      obtain ⟨before, after⟩ := parts
      rw [splitSpeaker_of_cut cutEq] at split
      by_cases isName : isSpeakerName (trim before) = true
      · rw [if_pos isName] at split
        cases split
        exact ⟨before, after, eq_append_of_cut cutEq, rfl, rfl, isName⟩
      · rw [if_neg isName] at split
        cases split

/-- The text behind a name fills a line of its own when the whole line does. -/
theorem text_of_splitSpeaker {line name text : List Char}
    (split : splitSpeaker line = (some name, text)) (trimmed : Trimmed line)
    (oneLine : OneLine line) : text ≠ [] ∧ Trimmed text ∧ OneLine text := by
  obtain ⟨before, after, rfl, -, rfl, -⟩ := exists_of_splitSpeaker split
  refine ⟨?_, trimmed_trim after, ?_⟩
  · -- The line would end in the blank of the mark or in one after it.
    intro empty
    have blank := trim_eq_nil_iff.mp empty
    have last : ∃ character, (before ++ speakerMark ++ after).getLast? = some character ∧
        isBlank character = true := by
      cases lastEq : after.getLast? with
      | none =>
          obtain rfl : after = [] := List.getLast?_eq_none_iff.mp lastEq
          exact ⟨' ', by simp [speakerMark], rfl⟩
      | some character =>
          refine ⟨character, ?_, blank character (List.mem_of_getLast? lastEq)⟩
          rw [List.getLast?_append, lastEq]
          rfl
    obtain ⟨character, lastEq, isBlank⟩ := last
    rw [trimmed.last_shown lastEq] at isBlank
    cases isBlank
  · intro feed
    exact oneLine (List.mem_append_right _ (mem_of_mem_trim feed))

/-- The name before a text fills a line of its own when the whole line is on one line. -/
theorem name_of_splitSpeaker {line name text : List Char}
    (split : splitSpeaker line = (some name, text)) (oneLine : OneLine line) :
    Trimmed name ∧ OneLine name := by
  obtain ⟨before, after, rfl, rfl, -, -⟩ := exists_of_splitSpeaker split
  refine ⟨trimmed_trim before, ?_⟩
  intro feed
  exact oneLine (List.mem_append_left _ (List.mem_append_left _ (mem_of_mem_trim feed)))

private theorem eq_of_splitSpeaker_none {line text : List Char}
    (split : splitSpeaker line = (none, text)) : text = line := by
  cases cutEq : cut speakerMark line with
  | none =>
      rw [splitSpeaker_of_cut_none cutEq] at split
      cases split
      rfl
  | some parts =>
      rw [splitSpeaker_of_cut cutEq] at split
      by_cases isName : isSpeakerName (trim parts.1) = true
      · rw [if_pos isName] at split
        cases split
      · rw [if_neg isName] at split
        cases split
        rfl

/-! ## Escaped lines -/

/-- The written form of a line is its text with doubled backslashes, or that text with a backslash
before a colon that would end the name of a speaker. -/
theorem escapeLine_cases (line : List Char) :
    (∃ text, splitSpeaker (escape ['\\'] line) = (none, text)) ∧
        escapeLine line = escape ['\\'] line ∨
      ∃ first second, line = first ++ ':' :: ' ' :: second ∧ first ≠ [] ∧
        ¬ speakerMark <:+: escape ['\\'] first ∧
        escapeLine line = escape ['\\'] first ++ '\\' :: ':' :: ' ' :: escape ['\\'] second := by
  cases split : splitSpeaker (escape ['\\'] line) with
  | mk speaker text =>
      cases speaker with
      | none => exact Or.inl ⟨⟨text, rfl⟩, by simp [escapeLine, split]⟩
      | some name =>
          right
          cases cutEq : cut speakerMark (escape ['\\'] line) with
          | none =>
              rw [splitSpeaker_of_cut_none cutEq] at split
              cases split
          | some parts =>
              obtain ⟨before, after⟩ := parts
              have written : escapeLine line = before ++ '\\' :: ':' :: ' ' :: after := by
                unfold escapeLine
                dsimp only
                rw [split, cutEq]
                simp [speakerMark]
              have filled : before ≠ [] := by
                rintro rfl
                rw [splitSpeaker_of_cut cutEq] at split
                cases split
              have absent := not_infix_of_cut (by decide) cutEq
              have doubled := eq_append_of_cut cutEq
              rw [List.append_assoc] at doubled
              -- No character of the mark is doubled, so that the line itself is divided there.
              obtain ⟨first, others, rfl, rfl, othersEq⟩ :=
                exists_of_escape_eq_append_cons (by decide) (by decide) doubled
              obtain ⟨nothing, second, rfl, nothingEq, rfl⟩ :=
                @exists_of_escape_eq_append_cons ['\\'] others [] after ' ' (by decide) (by decide)
                  othersEq.symm
              obtain rfl : nothing = [] := escape_eq_nil_iff.mp nothingEq.symm
              exact ⟨first, second, rfl, escape_eq_nil_iff.not.mp filled, absent, written⟩

/-- A written line names no speaker. -/
theorem splitSpeaker_escapeLine (line : List Char) :
    splitSpeaker (escapeLine line) = (none, escapeLine line) := by
  rcases escapeLine_cases line with ⟨⟨text, split⟩, same⟩ | ⟨first, second, -, -, absent, same⟩
  · obtain rfl := eq_of_splitSpeaker_none split
    rw [same, split]
  · have cutEq : cut speakerMark (escapeLine line) =
        some (escape ['\\'] first ++ ['\\'], escape ['\\'] second) := by
      have mark : cut speakerMark (':' :: ' ' :: escape ['\\'] second) =
          some ([], escape ['\\'] second) := cut_append_self speakerMark _
      rw [same, cut_append_cons _ (by decide) absent, mark]
      rfl
    have last := @getLast?_trim_append '\\' rfl (escape ['\\'] first)
    have notName : ¬ isSpeakerName (trim (escape ['\\'] first ++ ['\\'])) = true :=
      fun isName => (isSpeakerName_iff.mp isName).noEscape last
    rw [splitSpeaker_of_cut cutEq, if_neg notName]

theorem unescapeLine_escapeLine (line : List Char) : unescapeLine (escapeLine line) = line := by
  have subset : ['\\'] ⊆ lineMarks := by decide
  unfold unescapeLine
  rcases escapeLine_cases line with ⟨-, same⟩ | ⟨first, second, rfl, -, -, same⟩
  · rw [same, unescape_escape (by decide) subset]
  · rw [same, unescape_escape_append (by decide) subset, unescape_backslash_cons (by decide),
      unescape_cons (by decide), unescape_escape (by decide) subset]

/-- Behind the name of a speaker a line is read as a line of that speaker. -/
theorem splitSpeaker_append {name line : List Char} (isName : isSpeakerName name = true)
    (nameTrimmed : Trimmed name) (lineTrimmed : Trimmed line) :
    splitSpeaker (name ++ speakerMark ++ line) = (some name, line) := by
  have noColon : ':' ∉ name := not_mem_speaker isName (by decide)
  have cutEq : cut speakerMark (name ++ speakerMark ++ line) = some (name, line) :=
    cut_append_of_not_mem line noColon
  rw [splitSpeaker_of_cut cutEq, nameTrimmed.trim_eq, lineTrimmed.trim_eq, if_pos isName]

/-- A name, a mark and a text are read as that speaker and that text exactly when the name reads as
one and no blanks are trimmed away. -/
theorem splitSpeaker_append_iff {name line : List Char} :
    splitSpeaker (name ++ speakerMark ++ line) = (some name, line) ↔
      ReadsAsSpeaker name ∧ Trimmed name ∧ Trimmed line := by
  constructor
  · intro split
    obtain ⟨before, after, -, rfl, rfl, isName⟩ := exists_of_splitSpeaker split
    exact ⟨isSpeakerName_iff.mp isName, trimmed_trim before, trimmed_trim after⟩
  · rintro ⟨reads, nameTrimmed, lineTrimmed⟩
    exact splitSpeaker_append (isSpeakerName_iff.mpr reads) nameTrimmed lineTrimmed

/-! ## The shape of written lines -/

private theorem trimmed_escape {text : List Char} (trimmed : Trimmed text) :
    Trimmed (escape ['\\'] text) := by
  refine trimmed_of_ends (fun character first => ?_) (fun character last => ?_)
  · rw [head?_escape, Option.map_eq_some_iff] at first
    obtain ⟨head, headEq, rfl⟩ := first
    split
    · rfl
    · exact trimmed.head_shown headEq
  · rw [getLast?_escape] at last
    exact trimmed.last_shown last

theorem trimmed_escapeLine {line : List Char} (trimmed : Trimmed line) :
    Trimmed (escapeLine line) := by
  have doubled := trimmed_escape trimmed
  rcases escapeLine_cases line with ⟨-, same⟩ | ⟨first, second, rfl, firstFilled, -, same⟩
  · rw [same]
    exact doubled
  · have secondFilled : second ≠ [] := by
      rintro rfl
      have shown := @Trimmed.last_shown _ trimmed ' ' (by simp)
      cases shown
    have firstEscaped : escape ['\\'] first ≠ [] := escape_eq_nil_iff.not.mpr firstFilled
    have secondEscaped : escape ['\\'] second ≠ [] := escape_eq_nil_iff.not.mpr secondFilled
    rw [same]
    rw [escape_append] at doubled
    refine trimmed_of_ends (fun character begins => doubled.head_shown ?_)
      (fun character ends => doubled.last_shown ?_)
    · rw [List.head?_append_of_ne_nil _ firstEscaped] at begins ⊢
      exact begins
    · have written : escape ['\\'] first ++ '\\' :: ':' :: ' ' :: escape ['\\'] second =
          escape ['\\'] first ++ ['\\', ':', ' '] ++ escape ['\\'] second := by
        simp
      have whole : escape ['\\'] first ++ escape ['\\'] (':' :: ' ' :: second) =
          escape ['\\'] first ++ [':', ' '] ++ escape ['\\'] second := by
        simp [escape_cons]
      rw [written, List.getLast?_append_of_ne_nil _ secondEscaped] at ends
      rw [whole, List.getLast?_append_of_ne_nil _ secondEscaped]
      exact ends

theorem oneLine_escapeLine {line : List Char} (oneLine : OneLine line) :
    OneLine (escapeLine line) := by
  have inner {text : List Char} (absent : '\n' ∉ text) : '\n' ∉ escape ['\\'] text :=
    fun member => absent ((mem_escape (by decide)).mp member)
  unfold OneLine at oneLine ⊢
  rcases escapeLine_cases line with ⟨-, same⟩ | ⟨first, second, rfl, -, -, same⟩
  · rw [same]
    exact inner oneLine
  · obtain ⟨inFirst, inSecond⟩ : '\n' ∉ first ∧ '\n' ∉ second := by simpa using oneLine
    rw [same]
    simp [inner inFirst, inner inSecond]

theorem escapeLine_ne_nil {line : List Char} (filled : line ≠ []) : escapeLine line ≠ [] := by
  intro empty
  have undone := unescapeLine_escapeLine line
  rw [empty] at undone
  exact filled undone.symm

/-- A written line begins with nothing that its text does not begin with. -/
theorem isPrefixOf_of_escapeLine {lead line : List Char} (plain : '\\' ∉ lead)
    (begins : List.isPrefixOf lead (escapeLine line) = true) :
    List.isPrefixOf lead line = true := by
  rw [List.isPrefixOf_iff_prefix] at begins ⊢
  obtain ⟨rest, equality⟩ := begins
  have undone := unescapeLine_escapeLine line
  rw [← equality, unescapeLine, unescape_append plain] at undone
  exact ⟨_, undone⟩

/-! ## Lines without their escapes -/

theorem unescapeLine_ne_nil {line : List Char} (filled : line ≠ []) : unescapeLine line ≠ [] :=
  unescape_eq_nil_iff.not.mpr filled

theorem trimmed_unescapeLine {line : List Char} (trimmed : Trimmed line) :
    Trimmed (unescapeLine line) := by
  refine trimmed_of_ends (fun character first => ?_) (fun character last => ?_)
  · rcases head?_unescape first with marked | first
    · have shown : ∀ mark ∈ lineMarks, isBlank mark = false := by decide
      exact shown character marked
    · exact trimmed.head_shown first
  · rw [unescapeLine, getLast?_unescape] at last
    exact trimmed.last_shown last

/-- A line and its written form have the same ends, so that both are trimmed or neither is. -/
theorem trimmed_escapeLine_iff {line : List Char} : Trimmed (escapeLine line) ↔ Trimmed line := by
  refine ⟨fun written => ?_, trimmed_escapeLine⟩
  have undone := trimmed_unescapeLine written
  rwa [unescapeLine_escapeLine] at undone

theorem oneLine_unescapeLine {line : List Char} (oneLine : OneLine line) :
    OneLine (unescapeLine line) :=
  fun feed => oneLine (mem_of_mem_unescape feed)

/-- A line stands for a text with a beginning that needs no escapes only if it begins so itself. -/
theorem isPrefixOf_of_unescapeLine {lead line : List Char}
    (unmarked : ∀ character ∈ lead, character ∉ lineMarks ∧ character ≠ '\\')
    (begins : List.isPrefixOf lead (unescapeLine line) = true) :
    List.isPrefixOf lead line = true := by
  rw [List.isPrefixOf_iff_prefix] at begins ⊢
  obtain ⟨rest, equality⟩ := begins
  obtain ⟨others, rfl, -⟩ := exists_of_unescape_eq_append unmarked equality.symm
  exact List.prefix_append lead others

/-! ## Lines that are written and read back -/

/-- A written line stands for its text and names no speaker. Behind a name it is read as a line of
that speaker exactly when the name reads as a speaker and neither has blanks at its ends. -/
theorem escapes_undone_and_speakers_hidden (line : List Char) :
    unescapeLine (escapeLine line) = line ∧
      splitSpeaker (escapeLine line) = (none, escapeLine line) ∧
      ∀ name,
        splitSpeaker (name ++ speakerMark ++ escapeLine line) = (some name, escapeLine line) ↔
          ReadsAsSpeaker name ∧ Trimmed name ∧ Trimmed line := by
  refine ⟨unescapeLine_escapeLine line, splitSpeaker_escapeLine line, fun name => ?_⟩
  rw [splitSpeaker_append_iff, trimmed_escapeLine_iff]

/-- The colon of the speaker stays, the colon of the speech is escaped. -/
example : splitSpeaker ("Guard".toList ++ speakerMark ++ escapeLine "Orders: none.".toList) =
    (some "Guard".toList, "Orders\\: none.".toList) := by
  decide

end BranchingDialogue.Script

import BranchingDialogue.Proofs.Script.Readable
import BranchingDialogue.Proofs.Script.Sound
import BranchingDialogue.Proofs.Script.Step

/-! Each step of a draft keeps all that makes the node of the draft sound. -/

namespace BranchingDialogue.Script

open Text

/-! ## Dialogue lines -/

/-- A dialogue line starts the passage of its speaker, or it is a line of that speaker, or it is
kept with the name before it. -/
theorem addDialogue_cases (passage : Passage) (line : List Char) :
    (∃ name text, splitSpeaker line = (some name, text) ∧
        (passage.speaker = none ∨ passage.speaker = some name) ∧
        passage.addDialogue line = ⟨some name, passage.lines ++ [unescapeLine text]⟩) ∨
      passage.addDialogue line =
        { passage with lines := passage.lines ++ [unescapeLine line] } := by
  obtain ⟨speaker, before⟩ := passage
  unfold Passage.addDialogue
  cases split : splitSpeaker line with
  | mk named text =>
      cases named with
      | none => exact Or.inr rfl
      | some name =>
          cases speaker with
          | none => exact Or.inl ⟨name, text, rfl, Or.inl rfl, rfl⟩
          | some owner =>
              by_cases same : name = owner
              · refine Or.inl ⟨name, text, rfl, Or.inr (by rw [same]), ?_⟩
                simp [same]
              · exact Or.inr (by simp [same])

/-- The speaker that a dialogue line names can stand before dialogue. -/
theorem isSpeaker_of_splitSpeaker {line name text : List Char}
    (split : splitSpeaker line = (some name, text)) (trimmed : Trimmed line)
    (oneLine : OneLine line) (noComment : isComment line = false) :
    IsSpeaker (String.ofList name) := by
  obtain ⟨nameTrimmed, nameLine⟩ := name_of_splitSpeaker split oneLine
  obtain ⟨front, after, lineEq, nameEq, -, isName⟩ := exists_of_splitSpeaker split
  have filled := speaker_ne_nil isName
  have label := isLabel_ofList filled nameTrimmed nameLine
  refine ⟨by rw [String.toList_ofList]; exact isName, label, ?_⟩
  rw [String.toList_ofList]
  -- The line begins like the name, as no blank stands before it.
  obtain ⟨blanks, rest, frontEq, allBlank, -⟩ := exists_eq_append_trim front
  have noBlanks : blanks = [] := by
    cases blanks with
    | nil => rfl
    | cons blank blanks =>
        have first : line.head? = some blank := by
          rw [lineEq, frontEq]
          rfl
        have shown := trimmed.head_shown first
        rw [allBlank blank List.mem_cons_self] at shown
        cases shown
  rw [noBlanks, List.nil_append, ← nameEq] at frontEq
  rw [lineEq, frontEq] at noComment
  rw [Bool.eq_false_iff] at noComment ⊢
  intro begins
  apply noComment
  obtain ⟨others, nameEq⟩ := List.isPrefixOf_iff_prefix.mp begins
  rw [← nameEq]
  rfl

/-! ## Passages -/

structure Passage.Sound (passage : Passage) : Prop where
  speaker : ∀ name ∈ passage.speaker, IsSpeaker (String.ofList name)
  lines : ∀ line ∈ passage.lines,
    IsSoundLine (passage.speaker.map String.ofList) line ∧ OneLine line

namespace Passage.Sound

variable {passage : Passage} {line : List Char}

theorem empty : Passage.Sound {} :=
  ⟨by simp, by simp⟩

theorem addCommand (sound : passage.Sound) (filled : line ≠ []) (trimmed : Trimmed line)
    (oneLine : OneLine line) (markup : List.isPrefixOf ['<', '<'] line = true) :
    (passage.addCommand line).Sound := by
  refine ⟨sound.speaker, List.forall_mem_append.mpr ⟨sound.lines, ?_⟩⟩
  rw [List.forall_mem_singleton]
  refine ⟨⟨filled, trimmed, fun noMarkup => ?_⟩, oneLine⟩
  rw [markup] at noMarkup
  cases noMarkup

theorem addDialogue (sound : passage.Sound) (spoken : isSpokenLine line = true)
    (trimmed : Trimmed line) (oneLine : OneLine line) (apart : line ≠ sectionEnd) :
    (passage.addDialogue line).Sound := by
  obtain ⟨noIdle, noArrow, noMarkup⟩ := isSpokenLine_iff.mp spoken
  have filled := ne_nil_of_spoken spoken
  have noComment : isComment line = false := by
    simp only [isIdle, Bool.or_eq_false_iff] at noIdle
    exact noIdle.2
  rcases addDialogue_cases passage line with ⟨name, text, split, -, equality⟩ | equality
  · obtain ⟨textFilled, textTrimmed, textLine⟩ := text_of_splitSpeaker split trimmed oneLine
    rw [equality]
    refine ⟨?_, List.forall_mem_append.mpr ⟨fun other member => ?_, ?_⟩⟩
    · rintro _ ⟨⟩
      exact isSpeaker_of_splitSpeaker split trimmed oneLine noComment
    · obtain ⟨soundLine, otherLine⟩ := sound.lines other member
      exact ⟨soundLine.of_speaker (by rintro ⟨⟩), otherLine⟩
    · rw [List.forall_mem_singleton]
      exact ⟨⟨unescapeLine_ne_nil textFilled, trimmed_unescapeLine textTrimmed,
        fun _ nameless => by cases nameless⟩, oneLine_unescapeLine textLine⟩
  · rw [equality]
    refine ⟨sound.speaker, List.forall_mem_append.mpr ⟨sound.lines, ?_⟩⟩
    rw [List.forall_mem_singleton]
    refine ⟨⟨unescapeLine_ne_nil filled, trimmed_unescapeLine trimmed, fun _ _ => ?_⟩,
      oneLine_unescapeLine oneLine⟩
    have kept {lead : List Char}
        (unmarked : ∀ character ∈ lead, character ∉ lineMarks ∧ character ≠ '\\')
        (other : List.isPrefixOf lead line = false) :
        List.isPrefixOf lead (unescapeLine line) = false := by
      rw [Bool.eq_false_iff] at other ⊢
      exact fun begins => other (isPrefixOf_of_unescapeLine unmarked begins)
    refine ⟨kept (by decide) noComment, kept (by decide) noArrow, ?_⟩
    intro same
    have whole : unescape lineMarks line = sectionEnd ++ [] := by
      rw [List.append_nil]
      exact same
    obtain ⟨others, lineEq, othersEq⟩ := exists_of_unescape_eq_append (by decide) whole
    rw [unescape_eq_nil_iff.mp othersEq, List.append_nil] at lineEq
    exact apart lineEq

theorem lines_content (sound : passage.Sound) :
    Text.lines passage.content.toList = passage.lines := by
  unfold Passage.content
  rw [String.toList_ofList]
  exact lines_joinLines (fun line member => (sound.lines line member).1.filled)
    fun line member => (sound.lines line member).1.trimmed.isLine (sound.lines line member).2

/-- The content of a sound passage is sound for its speaker, and for another one in its place. -/
theorem content (sound : passage.Sound) {speaker : Option String}
    (lost : speaker = none → passage.speaker = none) : SoundContent speaker passage.content := by
  refine ⟨?_, fun line member => ?_⟩
  · rw [sound.lines_content, Passage.content, String.toList_ofList]
  · rw [sound.lines_content] at member
    refine (sound.lines line member).1.of_speaker fun nameless => ?_
    rw [lost nameless]
    rfl

end Passage.Sound

/-! ## Blocks -/

/-- Whether a closed block is sound and is such an arm as a group can have. -/
structure IsReadBlock (block : Block) : Prop where
  sound : (∀ condition ∈ block.conditions, condition.Defined) → block.Sound
  always : block.kind = .«else» → block.conditions = []

structure OpenBlock.Sound (block : OpenBlock) : Prop where
  conditions : ∀ condition ∈ block.conditions, condition.Defined → condition.Scriptable
  passage : block.passage.Sound
  next : block.next.Scriptable
  always : block.kind = .«else» → block.conditions = []

theorem OpenBlock.Sound.close {block : OpenBlock} (sound : block.Sound) :
    IsReadBlock block.close := by
  refine ⟨fun defined => ⟨?_, ?_, ?_, sound.next⟩, sound.always⟩
  · intro condition member
    exact sound.conditions condition member (defined condition member)
  · exact sound.passage.content (Option.map_eq_none_iff.mp)
  · intro name named
    obtain ⟨found, member, rfl⟩ := Option.map_eq_some_iff.mp named
    exact sound.passage.speaker found member

theorem scriptable_jump {target : List Char} (filled : target ≠ [])
    (shown : ∀ character ∈ target, isBlank character = false) :
    Slot.Scriptable (some (String.ofList target)) := by
  rintro _ ⟨⟩
  rw [String.toList_ofList]
  exact ⟨filled, shown⟩

/-! ## Choices -/

/-- Whether a choice is scriptable once its conditions are defined. -/
def IsReadChoice (choice : Choice) : Prop :=
  (∀ condition ∈ choice.gate, condition.Defined) → choice.Scriptable

theorem gate_newChoice (draft : Draft) (shown : List Char) (conditions : List Condition) :
    (draft.newChoice shown conditions).gate = conditions := by
  unfold Draft.newChoice Choice.gate
  cases conditions <;> rfl

theorem isReadChoice_newChoice (draft : Draft) {shown : List Char} {conditions : List Condition}
    (filled : shown ≠ []) (trimmed : Trimmed shown) (oneLine : OneLine shown)
    (open_end : ¬ "<<if".toList <:+: shown)
    (readable : ∀ condition ∈ conditions, condition.Defined → condition.Scriptable) :
    IsReadChoice (draft.newChoice shown conditions) := by
  have text : (draft.newChoice shown conditions).text.toList = shown := String.toList_ofList
  intro defined
  rw [gate_newChoice] at defined
  refine ⟨⟨?_, ?_, ?_⟩, ?_, ?_, by rintro _ ⟨⟩, by rintro _ ⟨⟩⟩
  · rw [text]
    exact filled
  · rw [text]
    exact trimmed
  · rw [text]
    exact oneLine
  · rw [text]
    exact open_end
  · unfold Draft.newChoice
    dsimp only
    split
    · rintro _ ⟨⟩
    · rename_i some
      rintro _ ⟨⟩
      exact ⟨by simpa using some, fun condition member =>
        readable condition member (defined condition member)⟩

theorem IsReadChoice.withNext {choice : Choice} (isRead : IsReadChoice choice) {next : Slot}
    (scriptable : next.Scriptable) : IsReadChoice { choice with next } := by
  intro defined
  obtain ⟨text, openEnd, conditions, raises, -⟩ := isRead defined
  exact ⟨text, openEnd, conditions, raises, scriptable⟩

theorem IsReadChoice.withFlag {choice : Choice} (isRead : IsReadChoice choice) {flag : String}
    (scriptable : ScriptableFlag flag) : IsReadChoice (choice.withFlag flag) := by
  intro defined
  obtain ⟨text, openEnd, conditions, raises, next⟩ := isRead defined
  refine ⟨text, openEnd, conditions, ?_, next⟩
  rintro _ ⟨⟩
  refine ⟨by simp, List.forall_mem_append.mpr ⟨raises.forall_getD, ?_⟩⟩
  exact List.forall_mem_singleton.mpr scriptable

end BranchingDialogue.Script

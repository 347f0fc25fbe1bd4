import BranchingDialogue.Proofs.Script.Reading

/-! The dialogue lines of a body stand outside blocks or in an arm of one of its groups. Each place
has an owner, the first speaker named there, whose name is not kept before the lines. -/

namespace BranchingDialogue.Script

open Text

/-! ## Lines as they are kept -/

/-- The owner of dialogue lines, which is the first speaker that they name. -/
def owner (heard : List (List Char)) : Option (List Char) :=
  heard.findSome? fun line => (splitSpeaker line).1

/-- A dialogue line without its escapes, and without the name before it when that is the owner's. -/
def keptLine (owner : Option (List Char)) (line : List Char) : List Char :=
  match splitSpeaker line with
  | (none, _) => unescapeLine line
  | (some name, text) => unescapeLine (if owner = some name then text else line)

def keptLines (heard : List (List Char)) : List (List Char) :=
  heard.map (keptLine (owner heard))

private theorem owner_append_singleton (heard : List (List Char)) (line : List Char) :
    owner (heard ++ [line]) = (owner heard).or (splitSpeaker line).1 := by
  simp [owner, List.findSome?_append]

/-- Later lines do not change how earlier ones are kept. -/
theorem keptLines_append_singleton (heard : List (List Char)) (line : List Char) :
    keptLines (heard ++ [line]) =
      keptLines heard ++ [keptLine (owner (heard ++ [line])) line] := by
  have earlier : heard.map (keptLine (owner (heard ++ [line]))) = keptLines heard := by
    apply List.map_congr_left
    intro other member
    cases named : owner heard with
    | some name => rw [owner_append_singleton, named, Option.some_or]
    | none =>
        have nameless : (splitSpeaker other).1 = none :=
          List.findSome?_eq_none_iff.mp named other member
        unfold keptLine
        split
        · rfl
        · rename_i name text split
          rw [split] at nameless
          cases nameless
  unfold keptLines at *
  rw [List.map_append, earlier]
  rfl

private theorem keptLine_isLine {line : List Char} (filled : line ≠ []) (trimmed : Trimmed line)
    (oneLine : OneLine line) (owner : Option (List Char)) :
    keptLine owner line ≠ [] ∧ IsLine (keptLine owner line) := by
  have whole {text : List Char} (textFilled : text ≠ []) (textTrimmed : Trimmed text)
      (textLine : OneLine text) : unescapeLine text ≠ [] ∧ IsLine (unescapeLine text) :=
    ⟨unescapeLine_ne_nil textFilled,
      (trimmed_unescapeLine textTrimmed).isLine (oneLine_unescapeLine textLine)⟩
  unfold keptLine
  split
  · exact whole filled trimmed oneLine
  · rename_i name text split
    obtain ⟨textFilled, textTrimmed, textLine⟩ := text_of_splitSpeaker split trimmed oneLine
    split
    · exact whole textFilled textTrimmed textLine
    · exact whole filled trimmed oneLine

/-! ## Passages -/

private theorem addDialogue_eq {passage : Passage} {heard : List (List Char)}
    (speaker : passage.speaker = owner heard) (line : List Char) :
    passage.addDialogue line =
      ⟨owner (heard ++ [line]),
        passage.lines ++ [keptLine (owner (heard ++ [line])) line]⟩ := by
  have ownerEq := owner_append_singleton heard line
  rw [← speaker] at ownerEq
  rw [ownerEq]
  clear ownerEq speaker
  obtain ⟨speaker, before⟩ := passage
  unfold Passage.addDialogue keptLine
  cases split : splitSpeaker line with
  | mk named text =>
      cases named with
      | none => cases speaker <;> rfl
      | some name =>
          cases speaker with
          | none => simp
          | some first =>
              by_cases same : name = first
              · simp [same]
              · have different : first ≠ name := fun equality => same equality.symm
                simp [same, different]

/-- Whether a passage keeps dialogue lines, and its content has lines of its own only. -/
structure Passage.Records (passage : Passage) (heard : List (List Char)) : Prop where
  speaker : passage.speaker = owner heard
  kept : (keptLines heard).Sublist passage.lines
  areLines : ∀ line ∈ passage.lines, line ≠ [] ∧ IsLine line

namespace Passage.Records

variable {passage : Passage} {heard : List (List Char)} {line : List Char}

theorem empty : Passage.Records {} [] :=
  ⟨rfl, List.Sublist.refl [], by simp⟩

theorem addCommand (records : passage.Records heard) (filled : line ≠ []) (isLine : IsLine line) :
    (passage.addCommand line).Records heard := by
  refine ⟨records.speaker, records.kept.trans (List.sublist_append_left _ _), ?_⟩
  exact List.forall_mem_append.mpr ⟨records.areLines, by simpa using ⟨filled, isLine⟩⟩

theorem addDialogue (records : passage.Records heard) (filled : line ≠ []) (trimmed : Trimmed line)
    (oneLine : OneLine line) : (passage.addDialogue line).Records (heard ++ [line]) := by
  have last := keptLine_isLine filled trimmed oneLine (owner (heard ++ [line]))
  rw [addDialogue_eq records.speaker]
  refine ⟨rfl, ?_, ?_⟩
  · rw [keptLines_append_singleton]
    exact records.kept.append (List.Sublist.refl _)
  · exact List.forall_mem_append.mpr ⟨records.areLines, by simpa using last⟩

theorem lines_content (records : passage.Records heard) :
    Text.lines passage.content.toList = passage.lines := by
  unfold Passage.content
  rw [String.toList_ofList]
  exact lines_joinLines (fun line member => (records.areLines line member).1)
    fun line member => (records.areLines line member).2

theorem sublist_content (records : passage.Records heard) :
    (keptLines heard).Sublist (Text.lines passage.content.toList) := by
  rw [records.lines_content]
  exact records.kept

end Passage.Records

/-! ## Transcripts -/

/-- The dialogue lines of a body: those outside blocks, and those of each arm in order, the last of
which may still be open. -/
structure Transcript where
  outside : List (List Char) := []
  arms : List (List (List Char)) := []
  openArm : Option (List (List Char)) := none

namespace Transcript

def close (transcript : Transcript) : Transcript :=
  { transcript with arms := transcript.arms ++ transcript.openArm.toList, openArm := none }

def openNext (transcript : Transcript) : Transcript :=
  { transcript.close with openArm := some [] }

def follow (transcript : Transcript) (keyword : String) : Transcript :=
  match keyword with
  | "if" | "elseif" | "else" => transcript.openNext
  | "endif" => transcript.close
  | _ => transcript

def hear (transcript : Transcript) (line : List Char) : Transcript :=
  if isSpokenLine line then
    match transcript.openArm with
    | some arm => { transcript with openArm := some (arm ++ [line]) }
    | none => { transcript with outside := transcript.outside ++ [line] }
  else
    match keywordAndArgument line with
    | some (keyword, _) => transcript.follow (String.ofList keyword)
    | none => transcript

def ofBody (body : List (List Char)) : Transcript :=
  (body.foldl hear {}).close

def all (transcript : Transcript) : List (List Char) :=
  transcript.outside ++ transcript.arms.flatten ++ transcript.openArm.getD []

variable {transcript : Transcript} {line : List Char}

theorem hear_spoken_inside {arm : List (List Char)} (spoken : isSpokenLine line = true)
    (opened : transcript.openArm = some arm) :
    transcript.hear line = { transcript with openArm := some (arm ++ [line]) } := by
  simp [hear, spoken, opened]

theorem hear_spoken_outside (spoken : isSpokenLine line = true)
    (closed : transcript.openArm = none) :
    transcript.hear line = { transcript with outside := transcript.outside ++ [line] } := by
  simp [hear, spoken, closed]

theorem hear_silent (silent : isSpokenLine line = false)
    (noKeyword : keywordAndArgument line = none) : transcript.hear line = transcript := by
  simp [hear, silent, noKeyword]

theorem hear_keyword {keyword : String} {argument : List Char}
    (found : keywordAndArgument line = some (keyword.toList, argument)) :
    transcript.hear line = transcript.follow keyword := by
  simp [hear, isSpokenLine_of_keyword found, found]

private theorem all_close (transcript : Transcript) : transcript.close.all = transcript.all := by
  unfold close all
  cases transcript.openArm <;> simp

private theorem all_openNext (transcript : Transcript) :
    transcript.openNext.all = transcript.all := by
  rw [← all_close transcript]
  unfold openNext close all
  simp

private theorem all_follow (transcript : Transcript) (keyword : String) :
    (transcript.follow keyword).all = transcript.all := by
  unfold follow
  split
  · exact all_openNext transcript
  · exact all_openNext transcript
  · exact all_openNext transcript
  · exact all_close transcript
  · rfl

/-- A transcript has the dialogue lines of the body and no others. -/
theorem mem_all_hear {heard : List Char} :
    heard ∈ (transcript.hear line).all ↔
      heard ∈ transcript.all ∨ heard = line ∧ isSpokenLine line = true := by
  by_cases spoken : isSpokenLine line = true
  · cases opened : transcript.openArm with
    | some arm =>
        rw [hear_spoken_inside spoken opened]
        simp [all, opened, spoken, or_assoc]
    | none =>
        rw [hear_spoken_outside spoken opened]
        simp only [all, opened, spoken]
        simp only [Option.getD_none, List.append_nil, List.mem_append, List.mem_singleton, and_true]
        exact or_right_comm
  · have same : (transcript.hear line).all = transcript.all := by
      unfold hear
      rw [if_neg spoken]
      split
      · exact all_follow transcript _
      · rfl
    simp [same, spoken]

theorem mem_all_ofBody {body : List (List Char)} {heard : List Char} :
    heard ∈ (ofBody body).all ↔ heard ∈ body ∧ isSpokenLine heard = true := by
  have run (start : Transcript) : heard ∈ (body.foldl hear start).all ↔
      heard ∈ start.all ∨ heard ∈ body ∧ isSpokenLine heard = true := by
    induction body generalizing start with
    | nil => simp
    | cons line body inductionHypothesis =>
        rw [List.foldl_cons, inductionHypothesis, mem_all_hear, List.mem_cons, or_assoc]
        apply or_congr_right
        constructor
        · rintro (⟨rfl, spoken⟩ | ⟨member, spoken⟩)
          · exact ⟨Or.inl rfl, spoken⟩
          · exact ⟨Or.inr member, spoken⟩
        · rintro ⟨rfl | member, spoken⟩
          · exact Or.inl ⟨rfl, spoken⟩
          · exact Or.inr ⟨member, spoken⟩
  unfold ofBody
  rw [all_close, run]
  simp [all]

end Transcript

end BranchingDialogue.Script

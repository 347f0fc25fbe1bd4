import Mathlib.Data.List.Forall2
import BranchingDialogue.Proofs.Script.Transcript

/-! Each line that the strict reading takes is kept in the draft of the node. A decision has no
place for dialogue though, so that a body with choices and with dialogue loses all of its dialogue.
-/

namespace BranchingDialogue.Script

open Text

/-! ## Drafts and transcripts -/

/-- Whether a draft keeps the dialogue lines of a transcript in their places. -/
structure Draft.Records (draft : Draft) (transcript : Transcript) : Prop where
  passage : draft.passage.Records transcript.outside
  blocks : List.Forall₂ (fun arm block => (keptLines arm).Sublist (lines block.content.toList))
    transcript.arms draft.blocks
  openBlock : Option.Rel (fun arm block => block.passage.Records arm)
    transcript.openArm draft.openBlock

namespace Draft.Records

variable {draft next : Draft} {transcript : Transcript} {line : List Char}

theorem closeBlock (records : draft.Records transcript) :
    draft.closeBlock.Records transcript.close := by
  obtain ⟨id, passage, slot, raises, choices, blocks, openBlock⟩ := draft
  obtain ⟨outside, arms, openArm⟩ := transcript
  obtain ⟨passageRecords, blocksRecord, openRecords⟩ := records
  cases openRecords with
  | none =>
      refine ⟨passageRecords, ?_, .none⟩
      simpa [Transcript.close, Draft.closeBlock] using blocksRecord
  | @some arm block recorded =>
      refine ⟨passageRecords, ?_, .none⟩
      have last : List.Forall₂
          (fun arm block => (keptLines arm).Sublist (lines (Block.content block).toList))
          [arm] [block.close] :=
        .cons recorded.sublist_content .nil
      exact List.rel_append blocksRecord last

theorem openNext (records : draft.Records transcript) (kind : BlockKind)
    (conditions : List Condition) :
    (draft.openNext kind conditions).Records transcript.openNext := by
  obtain ⟨passage, blocks, -⟩ := records.closeBlock
  exact ⟨passage, blocks, .some .empty⟩

private theorem openArm_of_closed (records : draft.Records transcript)
    (closed : draft.openBlock = none) : transcript.openArm = none := by
  have related := records.openBlock
  rw [closed] at related
  generalize transcript.openArm = openArm at related
  cases related
  rfl

private theorem exists_openArm (records : draft.Records transcript) {block : OpenBlock}
    (opened : draft.openBlock = some block) :
    ∃ arm, transcript.openArm = some arm ∧ block.passage.Records arm := by
  have related := records.openBlock
  rw [opened] at related
  generalize transcript.openArm = openArm at related
  cases related with
  | @some arm _ recorded => exact ⟨arm, rfl, recorded⟩

/-- What a line does to a draft agrees with what is heard of it. -/
theorem step (records : draft.Records transcript) (trimmed : Trimmed line)
    (oneLine : OneLine line) (made : draft.Step line next) :
    next.Records (transcript.hear line) := by
  -- Jumps and set commands are not heard.
  have unheard {keyword : String} {argument : List Char}
      (found : keywordAndArgument line = some (keyword.toList, argument))
      (other : transcript.follow keyword = transcript) : transcript.hear line = transcript := by
    rw [Transcript.hear_keyword found, other]
  cases made with
  | idle idle =>
      have noKeyword := keyword_eq_none (isPrefixOf_of_idle idle).2
      rw [Transcript.hear_silent (by simp [isSpokenLine, idle]) noKeyword]
      exact records
  | choice arrow split filled =>
      obtain ⟨isArrow, noMarkup⟩ := isPrefixOf_of_arrow arrow
      have noKeyword := keyword_eq_none noMarkup
      rw [Transcript.hear_silent (by simp [isSpokenLine, isArrow]) noKeyword]
      exact ⟨records.passage, records.blocks, records.openBlock⟩
  | beginGroup keyword closed read =>
      rw [Transcript.hear_keyword keyword]
      exact records.openNext _ _
  | continueGroup keyword opened unfinished read =>
      rw [Transcript.hear_keyword keyword]
      exact records.openNext _ _
  | endWithElse keyword opened unfinished =>
      rw [Transcript.hear_keyword keyword]
      exact records.openNext _ _
  | endGroup keyword =>
      rw [Transcript.hear_keyword keyword]
      exact records.closeBlock
  | jumpFromBlock keyword filled shown opened =>
      obtain ⟨arm, armEq, recorded⟩ := records.exists_openArm opened
      rw [unheard keyword rfl]
      refine ⟨records.passage, records.blocks, ?_⟩
      rw [armEq]
      exact .some recorded
  | jumpFromChoice keyword filled shown closed chosen =>
      rw [unheard keyword rfl]
      exact ⟨records.passage, records.blocks, records.openBlock⟩
  | jump keyword filled shown closed noChoices =>
      rw [unheard keyword rfl]
      exact ⟨records.passage, records.blocks, records.openBlock⟩
  | commandInBlock keyword read opened =>
      obtain ⟨arm, armEq, recorded⟩ := records.exists_openArm opened
      rw [unheard keyword rfl]
      refine ⟨records.passage, records.blocks, ?_⟩
      rw [armEq]
      exact .some (recorded.addCommand (ne_nil_of_keyword keyword) (trimmed.isLine oneLine))
  | raiseInChoice keyword read raises closed chosen =>
      rw [unheard keyword rfl]
      exact ⟨records.passage, records.blocks, records.openBlock⟩
  | raise keyword read raises closed noChoices =>
      rw [unheard keyword rfl]
      exact ⟨records.passage, records.blocks, records.openBlock⟩
  | command keyword read noRaise closed noChoices =>
      rw [unheard keyword rfl]
      have passage :=
        records.passage.addCommand (ne_nil_of_keyword keyword) (trimmed.isLine oneLine)
      exact ⟨passage, records.blocks, records.openBlock⟩
  | dialogueInBlock spoken opened =>
      obtain ⟨arm, armEq, recorded⟩ := records.exists_openArm opened
      rw [Transcript.hear_spoken_inside spoken armEq]
      have passage := recorded.addDialogue (ne_nil_of_spoken spoken) trimmed oneLine
      exact ⟨records.passage, records.blocks, .some passage⟩
  | dialogue spoken closed noChoices =>
      rw [Transcript.hear_spoken_outside spoken (records.openArm_of_closed closed)]
      have passage := records.passage.addDialogue (ne_nil_of_spoken spoken) trimmed oneLine
      exact ⟨passage, records.blocks, records.openBlock⟩

/-- A body of which every line is recognized is kept in the draft. -/
theorem addLines {body : List (List Char)} (records : draft.Records transcript)
    (areLines : ∀ line ∈ body, Trimmed line ∧ OneLine line)
    (read : draft.addLines body = some next) :
    next.Records (body.foldl Transcript.hear transcript) := by
  induction body generalizing draft transcript with
  | nil =>
      cases read
      exact records
  | cons line body inductionHypothesis =>
      obtain ⟨⟨trimmed, oneLine⟩, othersAreLines⟩ := List.forall_mem_cons.mp areLines
      rw [Draft.addLines_cons] at read
      obtain ⟨middle, added, rest⟩ := Option.bind_eq_some_iff.mp read
      have kept := records.step trimmed oneLine (Draft.step_of_addLine added)
      exact inductionHypothesis kept othersAreLines rest

end Draft.Records

/-! ## Choices of drafts -/

theorem Draft.choices_eq_nil_iff_of_step {draft next : Draft} {line : List Char}
    (made : draft.Step line next) :
    next.choices = [] ↔ draft.choices = [] ∧ List.isPrefixOf ['-', '>'] line = false := by
  cases made with
  | idle idle => simp [isPrefixOf_of_idle idle]
  | choice arrow => simp [isPrefixOf_of_arrow arrow]
  | beginGroup keyword | continueGroup keyword | endWithElse keyword =>
      simp [openNext, isPrefixOf_of_keyword keyword]
  | endGroup keyword => simp [isPrefixOf_of_keyword keyword]
  | jumpFromChoice keyword | raiseInChoice keyword =>
      simp [changeLast_eq_nil_iff, isPrefixOf_of_keyword keyword]
  | jumpFromBlock keyword | jump keyword | commandInBlock keyword | raise keyword
  | command keyword => simp [isPrefixOf_of_keyword keyword]
  | dialogueInBlock spoken | dialogue spoken => simp [isSpokenLine_iff.mp spoken]

/-- A draft has choices exactly when its body has lines with arrows. -/
theorem Draft.choices_eq_nil_iff_of_addLines {draft next : Draft} {body : List (List Char)}
    (read : draft.addLines body = some next) :
    next.choices = [] ↔
      draft.choices = [] ∧ ∀ line ∈ body, List.isPrefixOf ['-', '>'] line = false := by
  induction body generalizing draft with
  | nil =>
      cases read
      simp
  | cons line body inductionHypothesis =>
      rw [addLines_cons] at read
      obtain ⟨middle, added, rest⟩ := Option.bind_eq_some_iff.mp read
      rw [inductionHypothesis rest, choices_eq_nil_iff_of_step (step_of_addLine added), and_assoc,
        List.forall_mem_cons]

/-! ## Nodes -/

def ownLines (node : Node) : List (List Char) :=
  match node.kind with
  | .npc speech => lines speech.content.toList
  | _ => []

/-- The lines of each block of a node. -/
def blockLines (node : Node) : List (List (List Char)) :=
  node.blocks.map fun block => lines block.content.toList

/-- Whether the contents of a node hold the dialogue of a transcript in order: those of the node the
lines outside blocks, and those of its blocks the lines of the arms. -/
structure KeepsDialogue (node : Node) (transcript : Transcript) : Prop where
  outside : (keptLines transcript.outside).Sublist (ownLines node)
  arms : ∀ index, (keptLines (transcript.arms.getD index [])).Sublist
    ((blockLines node).getD index [])

private theorem sublist_getD {arms : List (List (List Char))} {blocks : List Block}
    (related : List.Forall₂
      (fun arm block => (keptLines arm).Sublist (lines (Block.content block).toList)) arms blocks)
    (index : Nat) :
    (keptLines (arms.getD index [])).Sublist
      ((blocks.map fun block => lines block.content.toList).getD index []) := by
  induction related generalizing index with
  | nil => exact List.Sublist.refl []
  | cons kept _ inductionHypothesis =>
      cases index with
      | zero => exact kept
      | succ index => exact inductionHypothesis index

variable {draft : Draft} {transcript : Transcript}

/-- A draft without choices becomes a node that keeps its dialogue. -/
theorem keepsDialogue_of_records (records : draft.Records transcript)
    (noChoices : draft.choices = []) (id : String) (speaker : Option String) :
    KeepsDialogue ⟨id, speaker, draft.kind⟩ transcript := by
  rcases draft.kind_cases with ⟨chosen, -⟩ | ⟨-, -, noLines, kindEq⟩ | ⟨-, kindEq, -⟩
  · exact absurd noChoices chosen
  · rw [kindEq]
    refine ⟨?_, sublist_getD records.blocks⟩
    have kept := records.passage.kept
    rw [noLines] at kept
    exact kept
  · rw [kindEq]
    refine ⟨records.passage.sublist_content, ?_⟩
    unfold blockLines
    rw [draft.blocks_speech]
    exact sublist_getD records.blocks

/-- A decision keeps no dialogue. -/
theorem keepsDialogue_player {node : Node} {choices : List Choice}
    (decision : node.kind = .player choices) (closed : transcript.openArm = none) :
    KeepsDialogue node transcript ↔ transcript.all = [] := by
  have noOwn : ownLines node = [] := by simp [ownLines, decision]
  have noBlocks : blockLines node = [] := by
    simp [blockLines, Node.blocks, Node.blocks?, decision]
  have nothingKept {heard : List (List Char)} : (keptLines heard).Sublist [] ↔ heard = [] := by
    simp [keptLines]
  constructor
  · rintro ⟨outside, arms⟩
    rw [noOwn, nothingKept] at outside
    have noArms : ∀ arm ∈ transcript.arms, arm = [] := by
      intro arm member
      obtain ⟨index, bound, rfl⟩ := List.getElem_of_mem member
      have kept := arms index
      rw [noBlocks, List.getD_nil, nothingKept] at kept
      simpa [bound] using kept
    simpa [Transcript.all, outside, closed] using noArms
  · intro nothing
    obtain ⟨outside, noArms⟩ : transcript.outside = [] ∧ ∀ arm ∈ transcript.arms, arm = [] := by
      simpa [Transcript.all, closed] using nothing
    refine ⟨by rw [noOwn, outside]; exact List.Sublist.refl [], fun index => ?_⟩
    have noArm : transcript.arms.getD index [] = [] := by
      rw [List.getD_eq_getElem?_getD]
      cases found : transcript.arms[index]? with
      | none => rfl
      | some arm => exact noArms arm (List.mem_of_getElem? found)
    rw [noBlocks, noArm, List.getD_nil]
    exact List.Sublist.refl []

/-! ## Scripts -/

/-- The draft of a body that is read strictly holds what is heard of the body. -/
theorem records_of_readBody {script : List Char} {part : Section}
    (listed : part ∈ sectionsFrom 1 (numberedLines script)) {title : List Char}
    {speaker : Option (List Char)} {body : List NumberedLine}
    (heading : readHeading {} part.lines = (⟨some title, speaker⟩, some body))
    (bodyRead : readBody .strict { id := title } body = .ok draft) :
    draft.closeBlock.Records (.ofBody (body.map NumberedLine.text)) := by
  have areLines : ∀ text ∈ body.map NumberedLine.text, Trimmed text ∧ OneLine text := by
    intro text member
    obtain ⟨line, inBody, rfl⟩ := List.mem_map.mp member
    obtain ⟨trimmed, oneLine, -⟩ := text_of_mem_section listed (mem_of_mem_body heading inBody)
    exact ⟨trimmed, oneLine⟩
  have start : Draft.Records { id := title } {} := ⟨.empty, .nil, .none⟩
  exact (start.addLines areLines (addLines_of_readBody_strict bodyRead)).closeBlock

/-- A body that is read strictly gives choices exactly when it has lines with arrows. -/
theorem choices_eq_nil_iff_of_readBody {title : List Char} {body : List NumberedLine}
    (bodyRead : readBody .strict { id := title } body = .ok draft) :
    draft.choices = [] ↔ ∀ line ∈ body, List.isPrefixOf ['-', '>'] line.text = false := by
  rw [Draft.choices_eq_nil_iff_of_addLines (addLines_of_readBody_strict bodyRead)]
  simp

private theorem kind_finish_of_choices (chosen : draft.choices ≠ [])
    (speaker : Option (List Char)) : (draft.finish speaker).kind = .player draft.choices := by
  unfold Draft.finish Draft.kind
  dsimp only
  rw [draft.choices_closeBlock, if_pos (by simpa using chosen)]

/-- The strict reading keeps all dialogue of a body exactly when the body has no dialogue or no
choices. -/
theorem keepsDialogue_iff {script : List Char} {tree : DialogueTree}
    (accepted : read .strict script = .ok tree) {part : Section}
    (listed : part ∈ sectionsFrom 1 (numberedLines script)) {title : List Char}
    {speaker : Option (List Char)} {body : List NumberedLine}
    (heading : readHeading {} part.lines = (⟨some title, speaker⟩, some body)) :
    ∃ node, tree.get? (String.ofList title) = some node ∧
      (KeepsDialogue node (.ofBody (body.map NumberedLine.text)) ↔
        (∀ line ∈ body, isSpokenLine line.text = false) ∨
          ∀ line ∈ body, List.isPrefixOf ['-', '>'] line.text = false) := by
  obtain ⟨nodes, gathered, treeEq⟩ := exists_of_read accepted
  obtain ⟨found, foundRead, kept⟩ := gathered.complete rfl part listed
  obtain ⟨draft, bodyRead, rfl⟩ := exists_draft_of_readSection foundRead heading
  have id : (draft.finish speaker).id = String.ofList title := by
    unfold Draft.finish
    rw [id_of_readBody bodyRead]
  refine ⟨draft.finish speaker, ?_, ?_⟩
  · rw [treeEq, ← id]
    exact get?_tree _ gathered.distinct (kept _ rfl)
  · have noArrows := choices_eq_nil_iff_of_readBody bodyRead
    have noDialogue : (Transcript.ofBody (body.map NumberedLine.text)).all = [] ↔
        ∀ line ∈ body, isSpokenLine line.text = false := by
      rw [List.eq_nil_iff_forall_not_mem]
      simp [Transcript.mem_all_ofBody]
    by_cases chosen : draft.choices = []
    · have records := records_of_readBody listed heading bodyRead
      have keeps : KeepsDialogue (draft.finish speaker) (.ofBody (body.map NumberedLine.text)) :=
        keepsDialogue_of_records records (by rw [draft.choices_closeBlock, chosen]) _ _
      exact iff_of_true keeps (Or.inr (noArrows.mp chosen))
    · have decision := kind_finish_of_choices chosen speaker
      rw [keepsDialogue_player decision rfl, noDialogue, ← noArrows, or_iff_left chosen]

/-- A script of one node that greets and has a block. -/
def greetingScript : List Char :=
  "title: a\n---\nGuard: Hello.\n<<if $met>>\nGuard: Again?\nAnd: so on\n<<endif>>\n===\n".toList

def greetingBody : List NumberedLine :=
  [⟨3, "Guard: Hello.".toList⟩, ⟨4, "<<if $met>>".toList⟩, ⟨5, "Guard: Again?".toList⟩,
    ⟨6, "And: so on".toList⟩, ⟨7, "<<endif>>".toList⟩]

theorem keepsDialogue_greetingScript :
    ∃ tree part, read .strict greetingScript = .ok tree ∧
      part ∈ sectionsFrom 1 (numberedLines greetingScript) ∧
      readHeading {} part.lines = (⟨some ['a'], none⟩, some greetingBody) ∧
      ∃ node, tree.get? (String.ofList ['a']) = some node ∧
        (KeepsDialogue node (.ofBody (greetingBody.map NumberedLine.text)) ↔
          (∀ line ∈ greetingBody, isSpokenLine line.text = false) ∨
            ∀ line ∈ greetingBody, List.isPrefixOf ['-', '>'] line.text = false) := by
  obtain ⟨tree, accepted⟩ : ∃ tree, read .strict greetingScript = .ok tree := by
    have succeeds : (read .strict greetingScript).isOk = true := by decide +kernel
    cases parsed : read .strict greetingScript with
    | ok tree => exact ⟨tree, rfl⟩
    | error problem =>
        rw [parsed] at succeeds
        cases succeeds
  let part : Section := ⟨1, ⟨1, "title: a".toList⟩ :: ⟨2, bodyStart⟩ :: greetingBody⟩
  have listed : part ∈ sectionsFrom 1 (numberedLines greetingScript) := by decide +kernel
  have heading : readHeading {} part.lines = (⟨some ['a'], none⟩, some greetingBody) := by
    decide +kernel
  exact ⟨tree, part, accepted, listed, heading, keepsDialogue_iff accepted listed heading⟩

/-- A script of one node that greets before a choice. -/
def farewellScript : List Char :=
  "title: a\n---\nHello.\n-> Go.\n===\n".toList

/-- Dialogue before a choice is accepted and lost. -/
theorem dialogue_lost_before_choice :
    ∃ tree part body node, read .strict farewellScript = .ok tree ∧
      part ∈ sectionsFrom 1 (numberedLines farewellScript) ∧
      readHeading {} part.lines = (⟨some ['a'], none⟩, some body) ∧
      tree.get? (String.ofList ['a']) = some node ∧
      ¬ KeepsDialogue node (.ofBody (body.map NumberedLine.text)) := by
  let body : List NumberedLine := [⟨3, "Hello.".toList⟩, ⟨4, "-> Go.".toList⟩]
  let part : Section := ⟨1, ⟨1, "title: a".toList⟩ :: ⟨2, bodyStart⟩ :: body⟩
  let node : Node := .player "a" [{ id := "a_choice_1", text := "Go." }]
  let tree := (DialogueTree.bare "a" "a" "a").withNode node
  refine ⟨tree, part, body, node, ?_, ?_, ?_, ?_, ?_⟩
  · decide +kernel
  · decide +kernel
  · decide +kernel
  · decide +kernel
  · intro keeps
    have lost : ¬ (keptLines ["Hello.".toList]).Sublist [] := by decide +kernel
    exact lost keeps.outside

end BranchingDialogue.Script

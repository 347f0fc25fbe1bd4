import BranchingDialogue.Proofs.Script.LineChange

/-! What a visit of a node does to the flags, told from the lines of its body. In a body without
blocks all commands run in the order of their lines, and the raises run after them in the order of
theirs. In a speech with blocks only the raises run of what stands outside the blocks. -/

namespace BranchingDialogue.Script

open Text

variable {script : List Char} {tree : DialogueTree} {part : Section} {title : List Char}
  {speaker : Option (List Char)} {body : List NumberedLine} {draft : Draft}

/-! ## Nodes of sections -/

/-- A section of an accepted script gives the node of its title. -/
theorem exists_draft_of_accepted (accepted : read .strict script = .ok tree)
    (listed : part ∈ sectionsFrom 1 (numberedLines script))
    (heading : readHeading {} part.lines = (⟨some title, speaker⟩, some body)) :
    ∃ draft, readBody .strict { id := title } body = .ok draft ∧
      tree.get? (String.ofList title) = some (draft.finish speaker) := by
  obtain ⟨nodes, gathered, treeEq⟩ := exists_of_read accepted
  obtain ⟨found, foundRead, kept⟩ := gathered.complete rfl part listed
  obtain ⟨draft, bodyRead, rfl⟩ := exists_draft_of_readSection foundRead heading
  have id : (draft.finish speaker).id = String.ofList title := by
    unfold Draft.finish
    rw [id_of_readBody bodyRead]
  refine ⟨draft, bodyRead, ?_⟩
  rw [treeEq, ← id]
  exact get?_tree _ gathered.distinct (kept _ rfl)

private theorem trimmed_of_mem_body (listed : part ∈ sectionsFrom 1 (numberedLines script))
    (heading : readHeading {} part.lines = (⟨some title, speaker⟩, some body)) :
    ∀ text ∈ body.map NumberedLine.text, Trimmed text := by
  intro text member
  obtain ⟨line, inBody, rfl⟩ := List.mem_map.mp member
  exact (text_of_mem_section listed (mem_of_mem_body heading inBody)).1

private theorem carries_of_readBody (listed : part ∈ sectionsFrom 1 (numberedLines script))
    (heading : readHeading {} part.lines = (⟨some title, speaker⟩, some body))
    (bodyRead : readBody .strict { id := title } body = .ok draft)
    (noChoices : draft.choices = []) :
    draft.Carries ((outsideLines false (body.map NumberedLine.text)).flatMap lineChanges) := by
  have start : Draft.Carries { id := title } [] := .empty title
  simpa using start.addLines (trimmed_of_mem_body listed heading)
    (addLines_of_readBody_strict bodyRead) noChoices

private theorem contentCommands_content (listed : part ∈ sectionsFrom 1 (numberedLines script))
    (heading : readHeading {} part.lines = (⟨some title, speaker⟩, some body))
    (bodyRead : readBody .strict { id := title } body = .ok draft) :
    contentCommands draft.passage.content = draft.passage.lines.flatMap commands := by
  have records := (records_of_readBody listed heading bodyRead).passage
  rw [draft.passage_closeBlock] at records
  rw [contentCommands, records.lines_content]

private theorem entryFlags_speech (draft : Draft) (id : String) (speaker : Option String) :
    Node.entryFlags ⟨id, speaker, .npc draft.speech⟩ = draft.raises := by
  unfold Node.entryFlags Draft.speech
  cases draft.raises <;> rfl

/-! ## Bodies without blocks -/

/-- Whether no line of a body begins a group of blocks. -/
def WithoutGroups (body : List (List Char)) : Prop :=
  ∀ line ∈ body, ∀ parts ∈ keywordAndArgument line, parts.1 ≠ "if".toList

instance (body : List (List Char)) : Decidable (WithoutGroups body) :=
  inferInstanceAs (Decidable (∀ line ∈ body, ∀ parts ∈ keywordAndArgument line, _))

private theorem insideAfter_false {line : List Char}
    (noGroup : ∀ parts ∈ keywordAndArgument line, parts.1 ≠ "if".toList) :
    insideAfter false line = false := by
  unfold insideAfter
  split
  · rename_i keyword argument found
    have other : String.ofList keyword ≠ "if" := by
      intro same
      exact noGroup _ found (by rw [← same, String.toList_ofList])
    simp [other]
  · rfl

private theorem outsideLines_eq_self {body : List (List Char)} (noGroups : WithoutGroups body) :
    outsideLines false body = body := by
  induction body with
  | nil => rfl
  | cons line body inductionHypothesis =>
      obtain ⟨noGroup, others⟩ := List.forall_mem_cons.mp noGroups
      rw [outsideLines, insideAfter_false noGroup, inductionHypothesis others]
      rfl

/-- A body without groups gives no blocks. -/
theorem blocks_eq_nil_of_readBody (noGroups : WithoutGroups (body.map NumberedLine.text))
    (bodyRead : readBody .strict { id := title } body = .ok draft) :
    draft.openBlock = none ∧ draft.blocks = [] := by
  refine @readBody_induction .strict (fun reached => reached.openBlock = none ∧ reached.blocks = [])
    { id := title } draft body ⟨rfl, rfl⟩ ?_ bodyRead
  rintro before line after member made ⟨closed, noBlocks⟩
  have noGroup := noGroups line.text (List.mem_map_of_mem member)
  have stillClosed : after.openBlock = none := by
    rw [← Option.not_isSome_iff_eq_none, isSome_openBlock_of_step made, closed]
    simp [insideAfter_false noGroup]
  refine ⟨stillClosed, ?_⟩
  cases made with
  | beginGroup keyword => exact absurd rfl (noGroup _ keyword)
  | continueGroup _ opened | endWithElse _ opened | jumpFromBlock _ _ _ opened
  | commandInBlock _ _ opened | dialogueInBlock _ opened =>
      rw [closed] at opened
      cases opened
  | endGroup =>
      rw [Draft.closeBlock, closed]
      exact noBlocks
  | _ => exact noBlocks

/-- A visit of a node whose body has neither choices nor blocks runs the commands of the body in the
order of their lines and then the raises in the order of theirs. That is the order of the lines
themselves when no command below the raise of a flag sets or reads the flag. -/
theorem visit_of_plain_body (accepted : read .strict script = .ok tree)
    (listed : part ∈ sectionsFrom 1 (numberedLines script))
    (heading : readHeading {} part.lines = (⟨some title, speaker⟩, some body))
    (noChoices : ∀ line ∈ body, List.isPrefixOf ['-', '>'] line.text = false)
    (noGroups : WithoutGroups (body.map NumberedLine.text)) :
    let changes := (body.map NumberedLine.text).flatMap lineChanges
    ∃ node, tree.get? (String.ofList title) = some node ∧ ∀ schema store,
      (node.visit store schema).2 = runChanges schema store (assignsFirst changes) ∧
        (changes.Pairwise FlagChange.yields →
          (node.visit store schema).2 = runChanges schema store changes) := by
  intro changes
  obtain ⟨draft, bodyRead, found⟩ := exists_draft_of_accepted accepted listed heading
  have unchosen : draft.choices = [] := (choices_eq_nil_iff_of_readBody bodyRead).mpr noChoices
  obtain ⟨closed, noBlocks⟩ := blocks_eq_nil_of_readBody noGroups bodyRead
  have carries := carries_of_readBody listed heading bodyRead unchosen
  rw [outsideLines_eq_self noGroups] at carries
  have node : draft.finish speaker = ⟨String.ofList draft.id,
      (speaker <|> draft.passage.speaker).map String.ofList, .npc draft.speech⟩ := by
    unfold Draft.finish
    rw [Draft.closeBlock, closed]
    dsimp only
    rw [draft.kind_eq_speech unchosen fun filled => absurd noBlocks filled]
  have made (store : Store) : (draft.finish speaker).changes store = assignsFirst changes := by
    have played : ((draft.finish speaker).scene store).content = some draft.passage.content := by
      simp [node, Node.scene, Draft.speech, noBlocks]
    rw [Node.changes, played, Option.elim_some, contentCommands_content listed heading bodyRead,
      carries.assigns, node, entryFlags_speech, carries.raises]
    rfl
  refine ⟨_, found, fun schema store => ?_⟩
  have ran : ((draft.finish speaker).visit store schema).2 =
      runChanges schema store (assignsFirst changes) := by
    rw [Node.visit_eq_runChanges, made]
  exact ⟨ran, fun apart => ran.trans (runChanges_assignsFirst apart).symm⟩

/-- A script of one node that pays twice and raises a flag in between. -/
def purseScript : List Char :=
  "title: a\n---\nHi. <<set $gold = 5>>\n<<set $met = true>>\n<<set $gold to $gold + 1>>\n".toList

def purseBody : List NumberedLine :=
  [⟨3, "Hi. <<set $gold = 5>>".toList⟩, ⟨4, "<<set $met = true>>".toList⟩,
    ⟨5, "<<set $gold to $gold + 1>>".toList⟩]

theorem visit_of_purseBody :
    let changes := (purseBody.map NumberedLine.text).flatMap lineChanges
    ∃ tree part, read .strict purseScript = .ok tree ∧
      part ∈ sectionsFrom 1 (numberedLines purseScript) ∧
      readHeading {} part.lines = (⟨some ['a'], none⟩, some purseBody) ∧
      (∀ line ∈ purseBody, List.isPrefixOf ['-', '>'] line.text = false) ∧
      WithoutGroups (purseBody.map NumberedLine.text) ∧ changes.Pairwise FlagChange.yields ∧
      ∃ node, tree.get? (String.ofList ['a']) = some node ∧
        (∀ schema store, (node.visit store schema).2 = runChanges schema store changes) ∧
        (node.visit default .empty).2.get? "gold" = some (.number 6.0) := by
  intro changes
  obtain ⟨tree, accepted⟩ : ∃ tree, read .strict purseScript = .ok tree := by
    have succeeds : (read .strict purseScript).isOk = true := by decide +kernel
    cases parsed : read .strict purseScript with
    | ok tree => exact ⟨tree, rfl⟩
    | error problem =>
        rw [parsed] at succeeds
        cases succeeds
  let part : Section := ⟨1, ⟨1, "title: a".toList⟩ :: ⟨2, bodyStart⟩ :: purseBody⟩
  have listed : part ∈ sectionsFrom 1 (numberedLines purseScript) := by decide +kernel
  have heading : readHeading {} part.lines = (⟨some ['a'], none⟩, some purseBody) := by
    decide +kernel
  have noChoices : ∀ line ∈ purseBody, List.isPrefixOf ['-', '>'] line.text = false := by
    decide +kernel
  have noGroups : WithoutGroups (purseBody.map NumberedLine.text) := by decide +kernel
  have apart : changes.Pairwise FlagChange.yields := by decide +kernel
  obtain ⟨node, found, visited⟩ := visit_of_plain_body accepted listed heading noChoices noGroups
  have inOrder (schema : FlagSchema) (store : Store) :
      (node.visit store schema).2 = runChanges schema store changes :=
    (visited schema store).2 apart
  refine ⟨tree, part, accepted, listed, heading, noChoices, noGroups, apart, node, found, inOrder,
    ?_⟩
  rw [inOrder]
  decide +kernel

/-- A script of one node that raises a flag and takes it back. -/
def regretScript : List Char :=
  "title: a\n---\n<<set $met = true>>\n<<set $met = false>>\n===\n".toList

/-- A schema whose only flag is persistent. -/
def questSchema : FlagSchema :=
  FlagSchema.empty.insert { id := "met", name := "Met", flagType := .quest }

/-- A raise runs after a command of a later line, which it undoes. -/
theorem raise_after_later_command :
    ∃ tree part body node, read .strict regretScript = .ok tree ∧
      part ∈ sectionsFrom 1 (numberedLines regretScript) ∧
      readHeading {} part.lines = (⟨some ['a'], none⟩, some body) ∧
      (∀ line ∈ body, List.isPrefixOf ['-', '>'] line.text = false) ∧
      WithoutGroups (body.map NumberedLine.text) ∧
      tree.get? (String.ofList ['a']) = some node ∧
      (node.visit default questSchema).2.get? "met" = some (.bool true) ∧
      (runChanges questSchema default
        ((body.map NumberedLine.text).flatMap lineChanges)).get? "met" = some (.bool false) := by
  let body : List NumberedLine :=
    [⟨3, "<<set $met = true>>".toList⟩, ⟨4, "<<set $met = false>>".toList⟩]
  let part : Section := ⟨1, ⟨1, "title: a".toList⟩ :: ⟨2, bodyStart⟩ :: body⟩
  let speech : Speech := { content := "<<set $met = false>>", raises := some ["met"] }
  let node : Node := ⟨"a", none, .npc speech⟩
  let tree := (DialogueTree.bare "a" "a" "a").withNode node
  refine ⟨tree, part, body, node, ?_, ?_, ?_, ?_, ?_, ?_, ?_, ?_⟩ <;> decide +kernel

/-! ## Bodies with blocks -/

/-- The changes of the set lines outside blocks. -/
def outsideSets (body : List (List Char)) : List FlagChange :=
  (outsideLines false body).filterMap setLineChange

/-- The changes of the block that plays, if one does. -/
def chosenChanges (store : Store) (blocks : List Block) : List FlagChange :=
  (Block.select store blocks).elim [] fun block => commandChanges (contentCommands block.content)

private theorem outsideLines_sublist (inside : Bool) (body : List (List Char)) :
    (outsideLines inside body).Sublist body := by
  induction body generalizing inside with
  | nil => exact List.Sublist.refl []
  | cons line body inductionHypothesis =>
      have others := inductionHypothesis (insideAfter inside line)
      cases inside with
      | true => exact others.cons line
      | false => exact others.cons_cons line

private theorem raises_lineChanges {line : List Char} (trimmed : Trimmed line) :
    (lineChanges line).filter (fun change => !change.isAssign) =
      (setLineChange line).toList.filter fun change => !change.isAssign := by
  unfold lineChanges
  split
  · rename_i spoken
    have noCommand : readCommand line = none := by
      cases read : readCommand line with
      | none => rfl
      | some command =>
          obtain ⟨argument, keyword⟩ := exists_keywordAndArgument_of_readCommand trimmed read
          rw [isSpokenLine_of_keyword keyword] at spoken
          cases spoken
    rw [setLineChange, noCommand, List.filter_eq_nil_iff.mpr]
    · rfl
    · intro change member
      simp [isAssign_of_mem_commandChanges member]
  · rfl

private theorem raises_outsideSets {body : List (List Char)}
    (trimmed : ∀ line ∈ body, Trimmed line) :
    ((outsideLines false body).flatMap lineChanges).filter (fun change => !change.isAssign) =
      (outsideSets body).filter fun change => !change.isAssign := by
  have lines : ∀ line ∈ outsideLines false body, Trimmed line := fun line member =>
    trimmed line ((outsideLines_sublist false body).subset member)
  rw [outsideSets, List.filterMap_eq_flatMap_toList, List.filter_flatMap, List.filter_flatMap]
  exact List.flatMap_congr fun line member => raises_lineChanges (lines line member)

/-- A visit of a speech with blocks runs the commands of the block that plays and then the raises
that stand outside the blocks. These are all set lines outside the blocks, each of them once,
exactly when the set lines there do nothing but raise flags. -/
theorem visit_of_grouped_body (accepted : read .strict script = .ok tree)
    (listed : part ∈ sectionsFrom 1 (numberedLines script))
    (heading : readHeading {} part.lines = (⟨some title, speaker⟩, some body)) :
    let sets := outsideSets (body.map NumberedLine.text)
    ∃ node, tree.get? (String.ofList title) = some node ∧ ∀ speech blocks,
      node.kind = .npc speech → speech.blocks = some blocks → ∀ schema store,
        (node.visit store schema).2 = runChanges schema store (node.changes store) ∧
          node.changes store =
            chosenChanges store blocks ++ sets.filter (fun change => !change.isAssign) ∧
          ((node.changes store).Perm (chosenChanges store blocks ++ sets) ↔
            ∀ change ∈ sets, change.isAssign = false) := by
  intro sets
  obtain ⟨draft, bodyRead, found⟩ := exists_draft_of_accepted accepted listed heading
  refine ⟨_, found, fun speech blocks kind grouped schema store => ?_⟩
  obtain ⟨unchosen, speechEq⟩ : draft.choices = [] ∧ speech = draft.closeBlock.speech := by
    have closedKind : draft.closeBlock.kind = .npc speech := kind
    rcases draft.closeBlock.kind_cases with ⟨-, other⟩ | ⟨-, -, -, other⟩ | ⟨noChoices, same, -⟩
    · rw [other] at closedKind
      cases closedKind
    · rw [other] at closedKind
      cases closedKind
    · rw [same] at closedKind
      cases closedKind
      exact ⟨draft.choices_closeBlock ▸ noChoices, rfl⟩
  have raises : draft.raises.map FlagChange.raise = sets.filter fun change => !change.isAssign := by
    rw [(carries_of_readBody listed heading bodyRead unchosen).raises,
      raises_outsideSets (trimmed_of_mem_body listed heading)]
  have made : (draft.finish speaker).changes store =
      chosenChanges store blocks ++ sets.filter fun change => !change.isAssign := by
    have entered : (draft.finish speaker).entryFlags = draft.raises := by
      have closed := entryFlags_speech draft.closeBlock (draft.finish speaker).id
        (draft.finish speaker).speaker
      rw [← speechEq, ← kind, draft.raises_closeBlock] at closed
      exact closed
    have played : ((draft.finish speaker).scene store).content =
        (Block.select store blocks).map Block.content := by
      simp only [Node.scene, kind, grouped]
      cases Block.select store blocks <;> rfl
    rw [Node.changes, played, entered, raises, chosenChanges]
    cases Block.select store blocks <;> rfl
  refine ⟨Node.visit_eq_runChanges _ store schema, made, ?_⟩
  rw [made, List.perm_append_left_iff]
  constructor
  · intro permuted change member
    -- A list that is as long as what is filtered from it loses nothing.
    have all := List.length_filter_eq_length_iff.mp permuted.length_eq change member
    simpa using all
  · intro allRaise
    rw [List.filter_eq_self.mpr]
    intro change member
    simp [allRaise change member]

/-- A script of one node that raises a flag and pays behind a block. -/
def gateScript : List Char :=
  "title: a\n---\n<<if $met>>\nPass. <<set $gold = 1>>\n<<endif>>\n<<set $seen = true>>\n".toList

def gateBody : List NumberedLine :=
  [⟨3, "<<if $met>>".toList⟩, ⟨4, "Pass. <<set $gold = 1>>".toList⟩, ⟨5, "<<endif>>".toList⟩,
    ⟨6, "<<set $seen = true>>".toList⟩]

theorem visit_of_gateBody :
    ∃ tree part, read .strict gateScript = .ok tree ∧
      part ∈ sectionsFrom 1 (numberedLines gateScript) ∧
      readHeading {} part.lines = (⟨some ['a'], none⟩, some gateBody) ∧
      outsideSets (gateBody.map NumberedLine.text) = [.raise "seen"] ∧
      ∃ node speech blocks, tree.get? (String.ofList ['a']) = some node ∧
        node.kind = .npc speech ∧ speech.blocks = some blocks ∧
        ∀ store, (node.changes store).Perm (chosenChanges store blocks ++ [.raise "seen"]) := by
  let part : Section := ⟨1, ⟨1, "title: a".toList⟩ :: ⟨2, bodyStart⟩ :: gateBody⟩
  let block : Block :=
    { kind := .«if», conditions := [.isSet "met"], content := "Pass. <<set $gold = 1>>" }
  let speech : Speech := { content := "", raises := some ["seen"], blocks := some [block] }
  let node : Node := ⟨"a", none, .npc speech⟩
  let tree := (DialogueTree.bare "a" "a" "a").withNode node
  have accepted : read .strict gateScript = .ok tree := by decide +kernel
  have listed : part ∈ sectionsFrom 1 (numberedLines gateScript) := by decide +kernel
  have heading : readHeading {} part.lines = (⟨some ['a'], none⟩, some gateBody) := by
    decide +kernel
  have sets : outsideSets (gateBody.map NumberedLine.text) = [.raise "seen"] := by decide +kernel
  obtain ⟨found, got, visited⟩ := visit_of_grouped_body accepted listed heading
  have same : tree.get? (String.ofList ['a']) = some node := by decide +kernel
  obtain rfl : node = found := Option.some.inj (same.symm.trans got)
  refine ⟨tree, part, accepted, listed, heading, sets, node, speech, [block], same, rfl, rfl,
    fun store => ?_⟩
  obtain ⟨-, -, once⟩ := visited speech [block] rfl rfl .empty store
  rw [sets] at once
  exact once.mpr (by decide)

/-- A script of one node that pays before a block. -/
def payScript : List Char :=
  "title: a\n---\n<<set $gold = 5>>\n<<if $met>>\nHi.\n<<endif>>\n===\n".toList

/-- A set line before a block does not run when it gives a value other than `true`. -/
theorem command_lost_before_block :
    ∃ tree part body node speech blocks, read .strict payScript = .ok tree ∧
      part ∈ sectionsFrom 1 (numberedLines payScript) ∧
      readHeading {} part.lines = (⟨some ['a'], none⟩, some body) ∧
      tree.get? (String.ofList ['a']) = some node ∧ node.kind = .npc speech ∧
      speech.blocks = some blocks ∧
      outsideSets (body.map NumberedLine.text) =
        [.assign ⟨"gold", .literal (.number 5.0)⟩] ∧
      node.changes default = [] ∧ (node.visit default .empty).2.get? "gold" = none := by
  let body : List NumberedLine :=
    [⟨3, "<<set $gold = 5>>".toList⟩, ⟨4, "<<if $met>>".toList⟩, ⟨5, "Hi.".toList⟩,
      ⟨6, "<<endif>>".toList⟩]
  let part : Section := ⟨1, ⟨1, "title: a".toList⟩ :: ⟨2, bodyStart⟩ :: body⟩
  let block : Block := { kind := .«if», conditions := [.isSet "met"], content := "Hi." }
  let speech : Speech := { content := "<<set $gold = 5>>", blocks := some [block] }
  let node : Node := ⟨"a", none, .npc speech⟩
  let tree := (DialogueTree.bare "a" "a" "a").withNode node
  refine ⟨tree, part, body, node, speech, [block], ?_, ?_, ?_, ?_, rfl, rfl, ?_, ?_, ?_⟩ <;>
    decide +kernel

end BranchingDialogue.Script

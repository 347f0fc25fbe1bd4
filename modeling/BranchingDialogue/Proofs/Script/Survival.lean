import BranchingDialogue.Proofs.Script.Reload
import BranchingDialogue.Proofs.Script.Report

/-! A tree survives saving when it is read back from its own script. Trees with nodes do so exactly
when they are scriptable: what is read from the script is sound and recoverable, and its blocks are
one group, as the writer ends the blocks of a node only once. -/

namespace BranchingDialogue

open Script

/-- Whether a tree is read back from its own script. It must equal itself, so that none of its
values is the undefined number, which is equal to nothing. -/
structure DialogueTree.Survives (tree : DialogueTree) : Prop where
  same : readLeniently (write tree) = tree
  equal : tree.agrees tree = true

/-! ## Equality with itself -/

private theorem list_beq_self_iff {α : Type} [BEq α] {members : List α} :
    (members == members) = true ↔ ∀ member ∈ members, (member == member) = true := by
  induction members with
  | nil => simp
  | cons member members inductionHypothesis =>
      rw [List.cons_beq_cons, Bool.and_eq_true, inductionHypothesis, List.forall_mem_cons]

private theorem Condition.beq_self_iff {condition : Condition} :
    (condition == condition) = true ↔ condition.Defined := by
  obtain ⟨flag, operator, value⟩ := condition
  show (flag == flag && (operator == operator && value == value)) = true ↔ _
  simp only [beq_self_eq_true, Bool.true_and]
  cases value with
  | none => simp [Defined]
  | some value =>
      show value.agrees value = true ↔ _
      cases value with
      | bool truth => simp [Value.agrees, Defined, Value.Defined]
      | number amount => simp [Value.agrees, Defined, Value.Defined]
      | text content => simp [Value.agrees, Defined, Value.Defined]

private theorem Block.beq_self_iff {block : Block} :
    (block == block) = true ↔ ∀ condition ∈ block.conditions, condition.Defined := by
  obtain ⟨kind, conditions, content, speaker, next⟩ := block
  show (kind == kind && (conditions == conditions && (content == content &&
    (speaker == speaker && next == next)))) = true ↔ _
  simp [list_beq_self_iff, Condition.beq_self_iff]

private theorem Choice.beq_self_iff {choice : Choice} :
    (choice == choice) = true ↔ ∀ condition ∈ choice.gate, condition.Defined := by
  obtain ⟨id, text, next, conditions, raises⟩ := choice
  show (id == id && (text == text && (next == next &&
    (conditions == conditions && raises == raises)))) = true ↔ _
  cases conditions with
  | none => simp [gate]
  | some conditions =>
      simp [gate, list_beq_self_iff, Condition.beq_self_iff]

private theorem Node.beq_self_iff {node : Node} : (node == node) = true ↔ DefinedValues node := by
  obtain ⟨id, speaker, kind⟩ := node
  show (id == id && (speaker == speaker && kind == kind)) = true ↔ _
  simp only [beq_self_eq_true, Bool.true_and]
  have ofBlocks (blocks : List Block) : (blocks == blocks) = true ↔
      ∀ condition ∈ blocks.flatMap Block.conditions, condition.Defined := by
    simp only [list_beq_self_iff, Block.beq_self_iff, List.forall_mem_flatMap]
  cases kind with
  | npc speech =>
      obtain ⟨content, next, raises, blocks⟩ := speech
      show (content == content && (next == next && (raises == raises && blocks == blocks))) =
        true ↔ ∀ condition ∈ (blocks.getD []).flatMap Block.conditions, condition.Defined
      cases blocks with
      | none => simp
      | some blocks => simpa using ofBlocks blocks
  | player choices =>
      show (choices == choices) = true ↔
        ∀ condition ∈ choices.flatMap Choice.gate, condition.Defined
      simp only [list_beq_self_iff, Choice.beq_self_iff, List.forall_mem_flatMap]
  | conditional blocks => exact ofBlocks blocks

theorem DialogueTree.agrees_self_iff {tree : DialogueTree} :
    tree.agrees tree = true ↔ ∀ node ∈ tree.nodeList, DefinedValues node := by
  have found : ∀ entry ∈ tree.nodes.entries, tree.nodes.get? entry.1 = some entry.2 :=
    fun entry listed => lookup_of_mem tree.nodes.distinct listed
  have same : ∀ entry ∈ tree.nodes.entries,
      ((tree.nodes.get? entry.1 == some entry.2) = true ↔ DefinedValues entry.2) := by
    intro entry listed
    rw [found entry listed]
    exact Node.beq_self_iff
  simp only [agrees, OrderedMap.sameEntries, beq_self_eq_true, Bool.true_and, List.all_eq_true]
  rw [nodeList, OrderedMap.values, List.forall_mem_map]
  exact forall₂_congr same

namespace Script

open Text

/-! ## Groups that are written -/

private theorem groupCount_of_noBegin {lines : List (List Char)}
    (noBegin : ∀ line ∈ lines, beginsGroup line = false) (inside : Bool) :
    groupCount inside lines = 0 := by
  induction lines generalizing inside with
  | nil => rfl
  | cons line lines inductionHypothesis =>
      obtain ⟨first, others⟩ := List.forall_mem_cons.mp noBegin
      simp [groupCount, first, inductionHypothesis others]

section Division

variable {front back : List (List Char)}

/-- Inside a group, lines that end none begin none. -/
theorem groupCount_true_append (noEnd : ∀ line ∈ front, endsGroup line = false)
    (noBegin : ∀ line ∈ back, beginsGroup line = false) : groupCount true (front ++ back) = 0 := by
  induction front with
  | nil => exact groupCount_of_noBegin noBegin true
  | cons line front inductionHypothesis =>
      obtain ⟨first, others⟩ := List.forall_mem_cons.mp noEnd
      simp [groupCount, openAfter, first, inductionHypothesis others]

/-- Lines that end no group, with others behind that begin none, begin one at most. -/
theorem groupCount_le_one (noEnd : ∀ line ∈ front, endsGroup line = false)
    (noBegin : ∀ line ∈ back, beginsGroup line = false) : groupCount false (front ++ back) ≤ 1 := by
  induction front with
  | nil => simp [groupCount_of_noBegin noBegin]
  | cons line front inductionHypothesis =>
      obtain ⟨-, others⟩ := List.forall_mem_cons.mp noEnd
      rw [List.cons_append, groupCount, openAfter]
      by_cases begins : beginsGroup line = true
      · simp [begins, groupCount_true_append others noBegin]
      · simpa [begins] using inductionHypothesis others

end Division

/-- Whether a line neither begins nor ends a group. -/
def KeepsGroup (line : List Char) : Prop :=
  beginsGroup line = false ∧ endsGroup line = false

private theorem keepsGroup_of_readCommand {line : List Char} {command : SetCommand}
    (trimmed : Trimmed line) (read : readCommand line = some command) : KeepsGroup line := by
  obtain ⟨argument, keyword⟩ := exists_keywordAndArgument_of_readCommand trimmed read
  simp [KeepsGroup, beginsGroup, endsGroup, keyword]

private theorem keepsGroup_writeContent {place : Place} {speaker : Option String} {content : String}
    (scriptable : ScriptableContent place speaker content)
    (valid : hasDialogue content = true → ∀ name ∈ speaker, IsSpeaker name) {line : List Char}
    (member : line ∈ writeContent speaker content) : KeepsGroup line := by
  obtain ⟨own, listed, rfl⟩ := exists_of_mem_writeContent scriptable.sound member
  have isContent := scriptable.lines own listed
  cases markup : List.isPrefixOf ['<', '<'] own with
  | true =>
      obtain ⟨command, read, -⟩ := isContent.command markup
      have same : writtenLine speaker own = own := by simp [writtenLine, markup]
      rw [same]
      exact keepsGroup_of_readCommand isContent.trimmed read
  | false =>
      have spoken : isDialogue own = true := by
        simp [isDialogue_eq isContent.filled isContent.trimmed, markup]
      have dialogue : hasDialogue content = true := List.any_eq_true.mpr ⟨own, listed, spoken⟩
      have plain := (writtenLine_dialogue isContent markup (valid dialogue)).2.2.2
      simp [KeepsGroup, beginsGroup, endsGroup, keyword_eq_none plain]

private theorem keepsGroup_writeJump {slot : Slot} (scriptable : slot.Scriptable) {line : List Char}
    (member : line ∈ writeJump slot) : KeepsGroup line := by
  rw [writeJump_eq scriptable] at member
  obtain ⟨target, targetEq, rfl⟩ := Option.map_eq_some_iff.mp (Option.mem_toList.mp member)
  have keyword := @keywordAndArgument_markup "jump" target.toList (by decide) (by decide)
    (trimmed_of_forall (scriptable target targetEq).2)
  simp [KeepsGroup, beginsGroup, endsGroup, keyword]

private theorem keepsGroup_raiseCommand {flag : String} (scriptable : ScriptableFlag flag) :
    KeepsGroup (raiseCommand flag) :=
  keepsGroup_of_readCommand (isSectionLine_raiseCommand scriptable).1
    (readCommand_raiseCommand scriptable)

private theorem endsGroup_writeBlock {block : Block} (scriptable : block.Scriptable)
    {line : List Char} (member : line ∈ writeBlock block) : endsGroup line = false := by
  have valid := scriptable.sound.speaker
  have opening (word : String) (shown : ∀ character ∈ word.toList, isBlank character = false)
      (filled : word.toList ≠ []) (other : word ≠ "endif") {argument : List Char}
      (trimmed : Trimmed argument) : endsGroup (markup word argument) = false := by
    simp [endsGroup, keywordAndArgument_markup shown filled trimmed, other]
  unfold writeBlock at member
  rcases List.mem_append.mp member with inFront | inJump
  · rcases List.mem_cons.mp inFront with rfl | inContent
    · have trimmed := trimmed_writeExpression scriptable.conditions
      cases block.kind with
      | «if» => exact opening "if" (by decide) (by decide) (by decide) trimmed
      | elseIf => exact opening "elseif" (by decide) (by decide) (by decide) trimmed
      | «else» => exact opening "else" (by decide) (by decide) (by decide) trimmed_nil
    · exact (keepsGroup_writeContent scriptable.content (fun _ => valid) inContent).2
  · exact (keepsGroup_writeJump scriptable.next inJump).2

/-- Blocks that are written between lines that keep groups as they are begin one group at most. -/
theorem groupCount_writeBlocks {blocks : List Block}
    (scriptable : ∀ block ∈ blocks, block.Scriptable) {front back : List (List Char)}
    (frontKeeps : ∀ line ∈ front, KeepsGroup line) (backKeeps : ∀ line ∈ back, KeepsGroup line) :
    groupCount false (front ++ writeBlocks blocks ++ back) ≤ 1 := by
  have frontEnds : ∀ line ∈ front, endsGroup line = false := fun line listed =>
    (frontKeeps line listed).2
  have backBegins : ∀ line ∈ back, beginsGroup line = false := fun line listed =>
    (backKeeps line listed).1
  unfold writeBlocks
  split
  · rw [List.append_nil]
    exact groupCount_le_one frontEnds backBegins
  · have division : front ++ (blocks.flatMap writeBlock ++ [markup "endif" []]) ++ back =
        (front ++ blocks.flatMap writeBlock) ++ (markup "endif" [] :: back) := by simp
    rw [division]
    refine groupCount_le_one (fun line listed => ?_)
      (List.forall_mem_cons.mpr ⟨by decide, backBegins⟩)
    rcases List.mem_append.mp listed with inFront | inBlocks
    · exact frontEnds line inFront
    · obtain ⟨block, blockListed, inBlock⟩ := List.mem_flatMap.mp inBlocks
      exact endsGroup_writeBlock (scriptable block blockListed) inBlock

variable {node : Node}

/-- The written body of a node begins one group at most, if it has blocks. -/
theorem groupCount_writeBody (sound : node.Sound) (recoverable : node.Recoverable)
    (hasBlocks : node.blocks?.isSome = true) :
    groupCount false ((writeBody node).map trim) ≤ 1 := by
  obtain ⟨id, speaker, kind⟩ := node
  obtain ⟨-, ofKind⟩ := sound
  obtain ⟨own, blocksRecoverable⟩ := recoverable
  cases kind with
  | npc speech =>
      have blocksScriptable : ∀ block ∈ speech.blocks.getD [], block.Scriptable :=
        fun block listed =>
          (ofKind.forall_blocks block listed).scriptable (blocksRecoverable block listed)
      have body : (writeBody ⟨id, speaker, .npc speech⟩).map trim =
          writeContent speaker speech.content ++ writeBlocks (speech.blocks.getD []) ++
            ((speech.raises.getD []).map raiseCommand ++ writeJump speech.next) := by
        unfold writeBody
        rw [map_trim_eq_self fun line listed => (isSectionLine_speech ofKind listed).1,
          List.append_assoc]
      rw [body]
      refine groupCount_writeBlocks blocksScriptable (fun line listed => ?_) fun line listed => ?_
      · exact keepsGroup_writeContent (ofKind.content.scriptable own.1) own.2 listed
      · rcases List.mem_append.mp listed with inRaises | inJump
        · obtain ⟨flag, flagListed, rfl⟩ := List.mem_map.mp inRaises
          exact keepsGroup_raiseCommand (ofKind.raises.forall_getD flag flagListed)
        · exact keepsGroup_writeJump ofKind.next inJump
  | player choices => cases hasBlocks
  | conditional blocks =>
      have blocksScriptable : ∀ block ∈ blocks, block.Scriptable := fun block listed =>
        (ofKind.2 block listed).scriptable (blocksRecoverable block listed)
      have body : (writeBody ⟨id, speaker, .conditional blocks⟩).map trim =
          [] ++ writeBlocks blocks ++ [] := by
        unfold writeBody
        rw [map_trim_eq_self fun line listed => (isSectionLine_writeBlocks ofKind.2 listed).1]
        simp
      rw [body]
      exact groupCount_writeBlocks blocksScriptable (by simp) (by simp)

/-- The blocks of a node that is read from its own written body are one group. -/
theorem isGroup_of_readBody (sound : node.Sound) (recoverable : node.Recoverable)
    {body : List NumberedLine} {draft : Draft}
    (texts : body.map NumberedLine.text = (writeBody node).map trim)
    (bodyRead : readBody .lenient { id := node.id.toList } body = .ok draft)
    {heading : Option (List Char)} (nodeEq : node = draft.finish heading) :
    ∀ blocks ∈ node.blocks?, isGroup blocks = true := by
  intro blocks listed
  have draftSound := sound_of_readBody sound texts bodyRead
  have passed : draft = Draft.passOver { id := node.id.toList } body := by
    rw [readBody_eq_settle, settle_lenient] at bodyRead
    exact (Except.ok.inj bodyRead).symm
  have count : draft.kinds.count .«if» ≤ 1 := by
    rw [passed, Draft.count_if_passOver, texts]
    simpa [Draft.kinds] using
      groupCount_writeBody sound recoverable (Option.isSome_of_mem listed)
  have regular : draft.Regular := passed ▸ Draft.regular_passOver (.empty _) body
  have inOrder : InOrder (node.blocks.map Block.kind) := by
    rw [nodeEq, kinds_finish]
    split
    · exact (inOrder_iff_count_le_one regular.order).mpr count
    · simp [InOrder]
  have placed : ∀ index block, node.blocks[index]? = some block →
      Node.misplaced node.blocks.length index block.kind = false := by
    intro index block found
    have kind := inOrder index block.kind (by rw [List.getElem?_map, found, Option.map_some])
    rwa [List.length_map] at kind
  rw [nodeEq, finish_eq] at placed listed
  exact isGroup_kind draftSound.closeBlock draft.openBlock_closeBlock placed blocks listed

end Script

/-! ## Trees -/

theorem Node.Scriptable.conditions {node : Node} (scriptable : node.Scriptable) :
    ∀ condition ∈ node.conditions, condition.Scriptable := by
  obtain ⟨id, speaker, kind⟩ := node
  obtain ⟨-, ofKind⟩ := scriptable
  have ofBlocks {blocks : List Block} (blocksScriptable : ∀ block ∈ blocks, block.Scriptable) :
      ∀ condition ∈ blocks.flatMap Block.conditions, condition.Scriptable :=
    List.forall_mem_flatMap.mpr fun block listed => (blocksScriptable block listed).conditions
  cases kind with
  | npc speech =>
      refine ofBlocks fun block listed => ?_
      cases blocks : speech.blocks with
      | none => simp [Node.blocks, blocks?, blocks] at listed
      | some found =>
          have inFound : block ∈ found := by
            simpa [Node.blocks, blocks?, blocks] using listed
          exact (ofKind.blocks found blocks).2.1 block inFound
  | player choices =>
      exact List.forall_mem_flatMap.mpr fun choice listed =>
        (ofKind.2.2.2 choice listed).conditions.forall_getD
  | conditional blocks => exact ofBlocks ofKind.2.2

variable {tree : DialogueTree}

/-- A tree with nodes survives saving exactly when it is scriptable. -/
theorem DialogueTree.survives_iff (filled : tree.nodeList ≠ []) :
    tree.Survives ↔ tree.Scriptable := by
  constructor
  · rintro ⟨same, equal⟩
    have defined := agrees_self_iff.mp equal
    have parsed : read .lenient (write tree) = .ok tree := by rw [read_lenient, same]
    have sound := sound_of_read parsed ((contains_start_iff_of_read parsed).mpr filled) defined
    refine ⟨sound.id, sound.title, sound.start, fun entry listed => ?_⟩
    obtain ⟨ownId, nodeSound⟩ := sound.nodes entry listed
    obtain ⟨body, draft, texts, bodyRead, nodeEq⟩ :=
      exists_draft_of_reload sound parsed (List.mem_map_of_mem listed)
    have recoverable := recoverable_of_readBody nodeSound texts bodyRead nodeEq
    exact ⟨ownId, nodeSound.scriptable recoverable
      (isGroup_of_readBody nodeSound recoverable texts bodyRead nodeEq)⟩
  · intro scriptable
    have same : readLeniently (write tree) = tree := by
      unfold readLeniently
      rw [read_write scriptable .lenient]
    refine ⟨same, agrees_self_iff.mpr fun node listed condition inNode => ?_⟩
    exact ((scriptable_of_mem scriptable node listed).conditions condition inNode).defined

end BranchingDialogue

import BranchingDialogue.Proofs.Script.Scriptable

/-! What a reading gives is sound: written again, its parts stay in their lines and sections. Sound
nodes are scriptable when they are recoverable, which asks for what the script syntax cannot hold:
the speakers and the command-like dialogue that the writer leaves out or takes for something else.
-/

namespace BranchingDialogue

open Script

/-! ## Labels -/

theorem isLabel_ofList {name : List Char} (filled : name ≠ []) (trimmed : Text.Trimmed name)
    (oneLine : Text.OneLine name) : IsLabel (String.ofList name) := by
  refine ⟨?_, ?_, ?_⟩
  · rw [String.toList_ofList]
    exact filled
  · rw [String.toList_ofList]
    exact trimmed
  · rw [String.toList_ofList]
    exact oneLine

/-! ## Content -/

/-- Whether a line of content is a line of a section when it is written. -/
structure IsSoundLine (speaker : Option String) (line : List Char) : Prop where
  filled : line ≠ []
  trimmed : Text.Trimmed line
  dialogue : List.isPrefixOf ['<', '<'] line = false → speaker = none →
    isComment line = false ∧ List.isPrefixOf ['-', '>'] line = false ∧ line ≠ sectionEnd

/-- Whether content consists of lines that are lines of a section when they are written. -/
structure SoundContent (speaker : Option String) (content : String) : Prop where
  joined : Text.joinLines (Text.lines content.toList) = content.toList
  lines : ∀ line ∈ Text.lines content.toList, IsSoundLine speaker line

/-- Whether all lines of content that begin like commands are commands of its place. -/
def CompleteCommands (place : Place) (content : String) : Prop :=
  ∀ line ∈ Text.lines content.toList, List.isPrefixOf ['<', '<'] line = true →
    ∃ command ∈ readCommand line, place = .node → command.expression.isTrue = false

instance (place : Place) (content : String) : Decidable (CompleteCommands place content) :=
  inferInstanceAs (Decidable (∀ line ∈ Text.lines content.toList,
    List.isPrefixOf ['<', '<'] line = true →
      ∃ command ∈ readCommand line, place = .node → command.expression.isTrue = false))

variable {place : Place} {speaker : Option String} {content : String}

theorem IsSoundLine.of_speaker {before after : Option String} {line : List Char}
    (sound : IsSoundLine before line) (lost : after = none → before = none) :
    IsSoundLine after line :=
  ⟨sound.filled, sound.trimmed, fun noMarkup nameless => sound.dialogue noMarkup (lost nameless)⟩

theorem IsContentLine.sound {line : List Char} (isContent : IsContentLine place speaker line) :
    IsSoundLine speaker line :=
  ⟨isContent.filled, isContent.trimmed, isContent.dialogue⟩

theorem ScriptableContent.sound (scriptable : ScriptableContent place speaker content) :
    SoundContent speaker content :=
  ⟨scriptable.joined, fun line member => (scriptable.lines line member).sound⟩

theorem SoundContent.scriptable (sound : SoundContent speaker content)
    (complete : CompleteCommands place content) : ScriptableContent place speaker content := by
  refine ⟨sound.joined, fun line member => ?_⟩
  obtain ⟨filled, trimmed, dialogue⟩ := sound.lines line member
  exact ⟨filled, trimmed, complete line member, dialogue⟩

/-! ## Blocks -/

/-- Whether the written form of a block keeps its place. -/
structure Block.Sound (block : Block) : Prop where
  conditions : ∀ condition ∈ block.conditions, condition.Scriptable
  content : SoundContent block.speaker block.content
  speaker : ∀ name ∈ block.speaker, IsSpeaker name
  next : block.next.Scriptable

/-- Whether the written form of a block leaves nothing out: its commands are complete, and there is
dialogue for its speaker to stand before. -/
@[mk_iff]
structure Block.Recoverable (block : Block) : Prop where
  commands : CompleteCommands .block block.content
  speaker : block.speaker.isSome = true → hasDialogue block.content = true

instance : DecidablePred Block.Recoverable := fun block =>
  decidable_of_iff' _ (Block.recoverable_iff block)

theorem Block.Scriptable.sound {block : Block} (scriptable : block.Scriptable) : block.Sound :=
  ⟨scriptable.conditions, scriptable.content.sound,
    fun name named => (scriptable.speaker name named).1, scriptable.next⟩

theorem Block.Sound.scriptable {block : Block} (sound : block.Sound)
    (recoverable : block.Recoverable) : block.Scriptable := by
  refine ⟨sound.conditions, sound.content.scriptable recoverable.commands, ?_, sound.next⟩
  intro name named
  have isSome : block.speaker.isSome = true := Option.isSome_of_mem named
  exact ⟨sound.speaker name named, recoverable.speaker isSome⟩

/-! ## Nodes -/

structure Speech.Sound (speaker : Option String) (speech : Speech) : Prop where
  content : SoundContent speaker speech.content
  speaker : ∀ name ∈ speaker, IsLabel name
  next : speech.next.Scriptable
  raises : ListedIf ScriptableFlag speech.raises
  blocks : ∀ blocks ∈ speech.blocks, (∀ block ∈ blocks, block.Sound) ∧
    (speech.content ≠ "" ∨ speech.raises ≠ none ∨ speech.next ≠ none)

def Node.Sound (node : Node) : Prop :=
  IsLabel node.id ∧
    match node.kind with
    | .npc speech => speech.Sound node.speaker
    | .player choices =>
        (∀ name ∈ node.speaker, IsLabel name) ∧ choices ≠ [] ∧
          (choices.map Choice.id = (List.range choices.length).map (choiceId node.id)) ∧
          ∀ choice ∈ choices, choice.Scriptable
    | .conditional blocks =>
        (∀ name ∈ node.speaker, IsLabel name) ∧ ∀ block ∈ blocks, block.Sound

/-- Whether the written form of a node leaves nothing out: its commands and those of its blocks are
complete, and its speaker can stand before its dialogue. -/
def Node.Recoverable (node : Node) : Prop :=
  (match node.kind with
    | .npc speech => CompleteCommands .node speech.content ∧
        (hasDialogue speech.content = true → ∀ name ∈ node.speaker, IsSpeaker name)
    | _ => True) ∧
  ∀ block ∈ node.blocks, block.Recoverable

instance : DecidablePred Node.Recoverable
  | ⟨_, speaker, .npc speech⟩ =>
      inferInstanceAs (Decidable ((CompleteCommands .node speech.content ∧
        (hasDialogue speech.content = true → ∀ name ∈ speaker, IsSpeaker name)) ∧
        ∀ block ∈ speech.blocks.getD [], block.Recoverable))
  | ⟨_, _, .player _⟩ =>
      inferInstanceAs (Decidable (True ∧ ∀ block ∈ ([] : List Block), block.Recoverable))
  | ⟨_, _, .conditional blocks⟩ =>
      inferInstanceAs (Decidable (True ∧ ∀ block ∈ blocks, block.Recoverable))

theorem Speech.Sound.forall_blocks {speech : Speech} (sound : speech.Sound speaker) :
    ∀ block ∈ speech.blocks.getD [], block.Sound := by
  cases listed : speech.blocks with
  | none => simp
  | some blocks => exact (sound.blocks blocks listed).1

theorem Speech.Scriptable.sound {speech : Speech} (scriptable : speech.Scriptable speaker) :
    speech.Sound speaker := by
  refine ⟨scriptable.content.sound, ?_, scriptable.next, scriptable.raises, ?_⟩
  · intro name named
    have whole := scriptable.speaker name named
    split at whole
    · exact whole.label
    · exact whole
  · intro blocks listed
    obtain ⟨-, blocksScriptable, besides⟩ := scriptable.blocks blocks listed
    exact ⟨fun block member => (blocksScriptable block member).sound, besides⟩

theorem Node.Scriptable.sound {node : Node} (scriptable : node.Scriptable) : node.Sound := by
  obtain ⟨id, speaker, kind⟩ := node
  obtain ⟨label, ofKind⟩ := scriptable
  cases kind with
  | npc speech => exact ⟨label, Speech.Scriptable.sound ofKind⟩
  | player choices => exact ⟨label, ofKind⟩
  | conditional blocks =>
      exact ⟨label, ofKind.1, fun block member => (ofKind.2.2 block member).sound⟩

theorem Node.Sound.scriptable {node : Node} (sound : node.Sound) (recoverable : node.Recoverable)
    (group : ∀ blocks ∈ node.blocks?, isGroup blocks = true) : node.Scriptable := by
  obtain ⟨id, speaker, kind⟩ := node
  obtain ⟨label, ofKind⟩ := sound
  obtain ⟨own, blocksRecoverable⟩ := recoverable
  cases kind with
  | npc speech =>
      obtain ⟨content, labels, next, raises, blocks⟩ := ofKind
      refine ⟨label, content.scriptable own.1, ?_, next, raises, ?_⟩
      · intro name named
        split
        · rename_i dialogue
          exact own.2 dialogue name named
        · exact labels name named
      · intro listed listedEq
        obtain ⟨blocksSound, besides⟩ := blocks listed listedEq
        refine ⟨group listed listedEq, fun block member => ?_, besides⟩
        have inNode : block ∈ Node.blocks ⟨id, speaker, .npc speech⟩ := by
          unfold Node.blocks Node.blocks?
          dsimp only
          rw [Option.mem_def.mp listedEq]
          exact member
        exact (blocksSound block member).scriptable (blocksRecoverable block inNode)
  | player choices => exact ⟨label, ofKind⟩
  | conditional blocks =>
      exact ⟨label, ofKind.1, group blocks rfl, fun block member =>
        (ofKind.2 block member).scriptable (blocksRecoverable block member)⟩

/-! ## Trees -/

/-- Whether the written form of a tree keeps its parts apart. -/
structure DialogueTree.Sound (tree : DialogueTree) : Prop where
  id : IsLabel tree.id
  title : IsLabel tree.title
  start : tree.contains tree.start = true
  nodes : ∀ entry ∈ tree.nodes.entries, entry.1 = entry.2.id ∧ entry.2.Sound

theorem DialogueTree.Scriptable.sound {tree : DialogueTree} (scriptable : tree.Scriptable) :
    tree.Sound := by
  refine ⟨scriptable.id, scriptable.title, scriptable.start, fun entry member => ?_⟩
  obtain ⟨ownId, nodeScriptable⟩ := scriptable.nodes entry member
  exact ⟨ownId, nodeScriptable.sound⟩

end BranchingDialogue

import BranchingDialogue.Proofs.Script.Expression
import BranchingDialogue.Script.Body
import BranchingDialogue.Script.Writer

/-! The trees that the script syntax can hold. Names stand on lines of their own, blocks form one
group of arms, and every line of content is one that the reader takes for content again. -/

namespace BranchingDialogue

open Script

/-- Whether a name fills a line of its own. -/
@[mk_iff]
structure IsLabel (name : String) : Prop where
  filled : name.toList ≠ []
  trimmed : Text.Trimmed name.toList
  oneLine : Text.OneLine name.toList

instance (name : String) : Decidable (IsLabel name) :=
  decidable_of_iff' _ (isLabel_iff name)

/-- Whether a name can stand before a dialogue line. -/
@[mk_iff]
structure IsSpeaker (name : String) : Prop where
  valid : isSpeakerName name.toList = true
  label : IsLabel name
  shown : isComment name.toList = false

instance (name : String) : Decidable (IsSpeaker name) :=
  decidable_of_iff' _ (isSpeaker_iff name)

/-- Whether a slot leads nowhere or to a name without blanks. -/
def Slot.Scriptable (slot : Slot) : Prop :=
  ∀ target ∈ slot, target.toList ≠ [] ∧ ∀ character ∈ target.toList, Text.isBlank character = false

instance (slot : Slot) : Decidable slot.Scriptable :=
  inferInstanceAs (Decidable (∀ target ∈ slot, target.toList ≠ [] ∧
    ∀ character ∈ target.toList, Text.isBlank character = false))

/-- Whether an optional list is absent, or not empty with a property of all its members. -/
def ListedIf {α : Type} (property : α → Prop) (list : Option (List α)) : Prop :=
  ∀ members ∈ list, members ≠ [] ∧ ∀ member ∈ members, property member

instance {α : Type} (property : α → Prop) [DecidablePred property]
    (list : Option (List α)) : Decidable (ListedIf property list) :=
  decidable_of_iff (∀ members ∈ list, members.isEmpty = false ∧ ∀ member ∈ members, property member)
    (by simp [ListedIf])

/-- An optional list as the reader makes it: absent when it would be empty. -/
theorem ListedIf.eq_ite {α : Type} {property : α → Prop} {list : Option (List α)}
    (listed : ListedIf property list) :
    list = if (list.getD []).isEmpty then none else some (list.getD []) := by
  cases list with
  | none => rfl
  | some members => simp [(listed members rfl).1]

theorem ListedIf.forall_getD {α : Type} {property : α → Prop} {list : Option (List α)}
    (listed : ListedIf property list) : ∀ member ∈ list.getD [], property member := by
  cases list with
  | none => simp
  | some members => exact (listed members rfl).2

def ScriptableFlag (flag : String) : Prop :=
  isScriptable flag = true

instance (flag : String) : Decidable (ScriptableFlag flag) :=
  inferInstanceAs (Decidable (isScriptable flag = true))

/-! ## Content -/

/-- Where content stands. A raise of a flag outside blocks is no content but belongs to the node. -/
inductive Place
  | node
  | block
  deriving DecidableEq

/-- Whether a line is read as content again: as a complete command, or as dialogue that is not
taken for something else when it stands without the name of a speaker. -/
@[mk_iff]
structure IsContentLine (place : Place) (speaker : Option String) (line : List Char) : Prop where
  filled : line ≠ []
  trimmed : Text.Trimmed line
  command : List.isPrefixOf ['<', '<'] line = true →
    ∃ command ∈ readCommand line, place = .node → command.expression.isTrue = false
  dialogue : List.isPrefixOf ['<', '<'] line = false → speaker = none →
    isComment line = false ∧ List.isPrefixOf ['-', '>'] line = false ∧ line ≠ sectionEnd

/-- Whether content consists of lines that are read as content again. -/
@[mk_iff]
structure ScriptableContent (place : Place) (speaker : Option String) (content : String) :
    Prop where
  joined : Text.joinLines (Text.lines content.toList) = content.toList
  lines : ∀ line ∈ Text.lines content.toList, IsContentLine place speaker line

instance (place : Place) (speaker : Option String) (line : List Char) :
    Decidable (IsContentLine place speaker line) :=
  decidable_of_iff' _ (isContentLine_iff place speaker line)

instance (place : Place) (speaker : Option String) (content : String) :
    Decidable (ScriptableContent place speaker content) :=
  decidable_of_iff' _ (scriptableContent_iff place speaker content)

def hasDialogue (content : String) : Bool :=
  (Text.lines content.toList).any isDialogue

/-! ## Blocks -/

/-- Whether blocks go on with a group: with any number of `elseif` arms and perhaps an `else` arm
without conditions at the end. -/
def continuesGroup : List Block → Bool
  | [] => true
  | block :: rest =>
      match block.kind with
      | .«if» => false
      | .elseIf => continuesGroup rest
      | .«else» => block.conditions.isEmpty && rest.isEmpty

/-- Whether blocks are the arms of one group. -/
def isGroup : List Block → Bool
  | [] => false
  | block :: rest => block.kind = .«if» && continuesGroup rest

/-- Whether a block has a written form that keeps all of it. Its speaker stands before its dialogue
lines only. -/
@[mk_iff]
structure Block.Scriptable (block : Block) : Prop where
  conditions : ∀ condition ∈ block.conditions, condition.Scriptable
  content : ScriptableContent .block block.speaker block.content
  speaker : ∀ name ∈ block.speaker, IsSpeaker name ∧ hasDialogue block.content = true
  next : block.next.Scriptable

instance : DecidablePred Block.Scriptable := fun block =>
  decidable_of_iff' _ (Block.scriptable_iff block)

/-! ## Nodes -/

@[mk_iff]
structure Choice.Scriptable (choice : Choice) : Prop where
  text : IsLabel choice.text
  open_end : ¬ "<<if".toList <:+: choice.text.toList
  conditions : ListedIf Condition.Scriptable choice.conditions
  raises : ListedIf ScriptableFlag choice.raises
  next : choice.next.Scriptable

instance : DecidablePred Choice.Scriptable := fun choice =>
  decidable_of_iff' _ (Choice.scriptable_iff choice)

/-- The id of a choice at an index of a node. -/
def choiceId (node : String) (index : Nat) : String :=
  String.ofList (node.toList ++ "_choice_".toList ++ (toString (index + 1)).toList)

/-- Whether a speech has a written form that keeps all of it. A speech with blocks has something
besides them, as blocks alone are a node of another kind. -/
@[mk_iff]
structure Speech.Scriptable (speaker : Option String) (speech : Speech) : Prop where
  content : ScriptableContent .node speaker speech.content
  speaker : ∀ name ∈ speaker, if hasDialogue speech.content then IsSpeaker name else IsLabel name
  next : speech.next.Scriptable
  raises : ListedIf ScriptableFlag speech.raises
  blocks : ∀ blocks ∈ speech.blocks, isGroup blocks = true ∧
    (∀ block ∈ blocks, block.Scriptable) ∧
    (speech.content ≠ "" ∨ speech.raises ≠ none ∨ speech.next ≠ none)

instance (speaker : Option String) (speech : Speech) : Decidable (speech.Scriptable speaker) :=
  decidable_of_iff' _ (Speech.scriptable_iff speaker speech)

def Node.Scriptable (node : Node) : Prop :=
  IsLabel node.id ∧
    match node.kind with
    | .npc speech => speech.Scriptable node.speaker
    | .player choices =>
        (∀ name ∈ node.speaker, IsLabel name) ∧ choices ≠ [] ∧
          (choices.map Choice.id = (List.range choices.length).map (choiceId node.id)) ∧
          ∀ choice ∈ choices, choice.Scriptable
    | .conditional blocks =>
        (∀ name ∈ node.speaker, IsLabel name) ∧ isGroup blocks = true ∧
          ∀ block ∈ blocks, block.Scriptable

instance : DecidablePred Node.Scriptable
  | ⟨id, speaker, .npc speech⟩ =>
      inferInstanceAs (Decidable (IsLabel id ∧ speech.Scriptable speaker))
  | ⟨id, speaker, .player choices⟩ =>
      inferInstanceAs (Decidable (IsLabel id ∧ (∀ name ∈ speaker, IsLabel name) ∧ choices ≠ [] ∧
        (choices.map Choice.id = (List.range choices.length).map (choiceId id)) ∧
        ∀ choice ∈ choices, choice.Scriptable))
  | ⟨id, speaker, .conditional blocks⟩ =>
      inferInstanceAs (Decidable (IsLabel id ∧ (∀ name ∈ speaker, IsLabel name) ∧
        isGroup blocks = true ∧ ∀ block ∈ blocks, block.Scriptable))

/-- Whether a tree has a written form that keeps all of it. -/
@[mk_iff]
structure DialogueTree.Scriptable (tree : DialogueTree) : Prop where
  id : IsLabel tree.id
  title : IsLabel tree.title
  start : tree.contains tree.start = true
  nodes : ∀ entry ∈ tree.nodes.entries, entry.1 = entry.2.id ∧ entry.2.Scriptable

instance : DecidablePred DialogueTree.Scriptable := fun tree =>
  decidable_of_iff' _ (DialogueTree.scriptable_iff tree)

end BranchingDialogue

import BranchingDialogue.Graph.Node
import BranchingDialogue.Script.Command
import BranchingDialogue.Script.DialogueLine
import BranchingDialogue.Script.Expression
import BranchingDialogue.Script.Section

/-! The lines of a body are read one after another into a draft of the node. A draft has a text of
its own, the choices and the closed blocks so far, and perhaps a block that is still open. The kind
of the node is decided when the body is over. -/

namespace BranchingDialogue.Script

/-- Dialogue lines with their speaker, which is the first one named. -/
structure Passage where
  speaker : Option (List Char) := none
  lines : List (List Char) := []
  deriving DecidableEq, Inhabited

structure OpenBlock where
  kind : BlockKind
  conditions : List Condition
  passage : Passage := {}
  next : Slot := none
  deriving DecidableEq, Inhabited

structure Draft where
  id : List Char
  passage : Passage := {}
  next : Slot := none
  raises : List String := []
  choices : List Choice := []
  blocks : List Block := []
  openBlock : Option OpenBlock := none
  deriving DecidableEq, Inhabited

namespace Passage

def content (passage : Passage) : String :=
  String.ofList (Text.joinLines passage.lines)

/-- The passage with a line that is no dialogue. -/
def addCommand (passage : Passage) (line : List Char) : Passage :=
  { passage with lines := passage.lines ++ [line] }

/-- The passage with a dialogue line. The first speaker becomes that of the passage. Lines of that
speaker lose the name before them, and lines of others keep it. -/
def addDialogue (passage : Passage) (line : List Char) : Passage :=
  let (speaker, text) := splitSpeaker line
  let spoken := passage.lines ++ [unescapeLine text]
  match speaker, passage.speaker with
  | some name, none => ⟨some name, spoken⟩
  | some name, some owner =>
      if name = owner then
        { passage with lines := spoken }
      else
        { passage with lines := passage.lines ++ [unescapeLine line] }
  | none, _ => { passage with lines := passage.lines ++ [unescapeLine line] }

end Passage

def OpenBlock.close (block : OpenBlock) : Block :=
  { kind := block.kind
    conditions := block.conditions
    content := block.passage.content
    speaker := block.passage.speaker.map String.ofList
    next := block.next }

def changeLast {α : Type} (change : α → α) (list : List α) : List α :=
  list.modify (list.length - 1) change

namespace Draft

/-! ## Choices -/

def splitChoice (text : List Char) : Option (List Char × List Condition) :=
  match Text.cut "<<if".toList text with
  | none => some (text, [])
  | some (before, after) =>
      ((List.isSuffixOf? ['>', '>'] (Text.trimEnd after)).bind readExpression).map
        fun conditions => (Text.trim before, conditions)

/-- The draft with the choice of a line. Choices are numbered from one within their node. -/
def addChoice (draft : Draft) (text : List Char) : Option Draft :=
  match splitChoice text with
  | none => none
  | some (shown, conditions) =>
      if shown.isEmpty then
        none
      else
        let number := (toString (draft.choices.length + 1)).toList
        let choice : Choice :=
          { id := String.ofList (draft.id ++ "_choice_".toList ++ number)
            text := String.ofList shown
            conditions := if conditions.isEmpty then none else some conditions }
        some { draft with choices := draft.choices ++ [choice] }

/-! ## Blocks -/

def closeBlock (draft : Draft) : Draft :=
  match draft.openBlock with
  | none => draft
  | some block => { draft with blocks := draft.blocks ++ [block.close], openBlock := none }

/-- The draft with a new block opened in the place of an open one, which is closed. -/
def openNext (draft : Draft) (kind : BlockKind) (conditions : List Condition) : Draft :=
  { draft.closeBlock with openBlock := some { kind, conditions } }

/-- The draft with a group of blocks begun. Groups are not nested. -/
def beginGroup (draft : Draft) (condition : List Char) : Option Draft :=
  match draft.openBlock with
  | some _ => none
  | none => (readExpression condition).map fun conditions => draft.openNext .«if» conditions

/-- The draft with the group continued under another condition. Nothing follows the last arm. -/
def continueGroup (draft : Draft) (condition : List Char) : Option Draft :=
  match draft.openBlock with
  | none => none
  | some block =>
      if block.kind = .«else» then
        none
      else
        (readExpression condition).map fun conditions => draft.openNext .elseIf conditions

def endGroupWithElse (draft : Draft) (condition : List Char) : Option Draft :=
  match draft.openBlock with
  | none => none
  | some block =>
      if block.kind = .«else» || !condition.isEmpty then
        none
      else
        some (draft.openNext .«else» [])

/-! ## Jumps and assignments -/

/-- The draft with a jump, which belongs to the open block, else to the last choice, else to the
node. -/
def addJump (draft : Draft) (target : List Char) : Option Draft :=
  if target.isEmpty || target.any Text.isBlank then
    none
  else
    let next := some (String.ofList target)
    match draft.openBlock with
    | some block => some { draft with openBlock := some { block with next } }
    | none =>
        if draft.choices.isEmpty then
          some { draft with next }
        else
          some { draft with choices := changeLast (fun choice => { choice with next }) draft.choices }

/-- The draft with a set command. In an open block it stays in the content. After a choice it must
raise a flag, which the choice does then. Elsewhere a raise belongs to the node, and other commands
stay in the content. -/
def addCommand (draft : Draft) (line : List Char) : Option Draft :=
  match readCommand line with
  | none => none
  | some command =>
      match draft.openBlock with
      | some block =>
          some { draft with
            openBlock := some { block with passage := block.passage.addCommand line } }
      | none =>
          if draft.choices.isEmpty then
            if command.expression.isTrue then
              some { draft with raises := draft.raises ++ [command.flag] }
            else
              some { draft with passage := draft.passage.addCommand line }
          else if command.expression.isTrue then
            let raise := fun (choice : Choice) => choice.withFlag command.flag
            some { draft with choices := changeLast raise draft.choices }
          else
            none

def addMarkup (draft : Draft) (line : List Char) : Option Draft :=
  match (List.isPrefixOf? ['<', '<'] line).bind (List.isSuffixOf? ['>', '>']) with
  | none => none
  | some inside =>
      let inner := Text.trim inside
      let (keyword, argument) :=
        match Text.cutWhere Text.isBlank inner with
        | some (word, rest) => (String.ofList word, Text.trim rest)
        | none => (String.ofList inner, [])
      match keyword with
      | "if" => draft.beginGroup argument
      | "elseif" => draft.continueGroup argument
      | "else" => draft.endGroupWithElse argument
      | "endif" => some draft.closeBlock
      | "jump" => draft.addJump argument
      | "set" => draft.addCommand line
      | _ => none

/-! ## Lines -/

/-- The draft with a dialogue line. After choices there is no dialogue outside blocks. -/
def addDialogue (draft : Draft) (line : List Char) : Option Draft :=
  match draft.openBlock with
  | some block =>
      some { draft with
        openBlock := some { block with passage := block.passage.addDialogue line } }
  | none =>
      if draft.choices.isEmpty then
        some { draft with passage := draft.passage.addDialogue line }
      else
        none

def addLine (draft : Draft) (line : List Char) : Option Draft :=
  if isIdle line then
    some draft
  else
    match List.isPrefixOf? ['-', '>'] line with
    | some rest => draft.addChoice (Text.trim rest)
    | none =>
        if List.isPrefixOf ['<', '<'] line then
          draft.addMarkup line
        else
          draft.addDialogue line

/-! ## The node -/

/-- What a draft without open block becomes: a decision when it has choices, a group of blocks when
it has nothing but blocks, and a speech otherwise. -/
def kind (draft : Draft) : NodeKind :=
  if !draft.choices.isEmpty then
    .player draft.choices
  else if !draft.blocks.isEmpty && draft.passage.lines.isEmpty && draft.raises.isEmpty &&
      draft.next.isNone then
    .conditional draft.blocks
  else
    .npc
      { content := draft.passage.content
        next := draft.next
        raises := if draft.raises.isEmpty then none else some draft.raises
        blocks := if draft.blocks.isEmpty then none else some draft.blocks }

/-- The node of a draft. A speaker named in the heading wins over one in the body. -/
def finish (draft : Draft) (headingSpeaker : Option (List Char)) : Node :=
  { id := String.ofList draft.id
    speaker := (headingSpeaker <|> draft.passage.speaker).map String.ofList
    kind := draft.closeBlock.kind }

end Draft

end BranchingDialogue.Script

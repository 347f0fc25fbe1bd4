import BranchingDialogue.Graph.Tree
import BranchingDialogue.Script.DialogueLine
import BranchingDialogue.Script.Expression
import BranchingDialogue.Script.Section

/-! A tree is written as a list of lines: comments about the dialogue, and a section for each node,
with an empty line before every section that is not the first thing written. -/

namespace BranchingDialogue.Script

/-! ## Content -/

def isDialogue (line : List Char) : Bool :=
  let text := Text.trim line
  !text.isEmpty && !List.isPrefixOf ['<', '<'] text

/-- The written form of a line of content. Commands stand as they are, and dialogue follows the
name of its speaker. -/
def writeContentLine (speaker : Option String) (line : List Char) : Option (List Char) :=
  let text := Text.trim line
  if text.isEmpty then
    none
  else if !isDialogue text then
    some text
  else
    match speaker with
    | some name => some (name.toList ++ speakerMark ++ escapeLine text)
    | none => some (escapeLine text)

def writeContent (speaker : Option String) (content : String) : List (List Char) :=
  (Text.lines content.toList).filterMap (writeContentLine speaker)

def markup (word : String) (argument : List Char) : List Char :=
  ['<', '<'] ++ word.toList ++ (if argument.isEmpty then [] else ' ' :: argument) ++ ['>', '>']

def raiseCommand (flag : String) : List Char :=
  markup "set" ('$' :: flag.toList ++ " = true".toList)

def writeJump (slot : Slot) : List (List Char) :=
  (slot.live.map fun target => markup "jump" target.toList).toList

/-! ## Nodes -/

def writeBlock (block : Block) : List (List Char) :=
  let condition := writeExpression block.conditions
  let opening :=
    match block.kind with
    | .«if» => markup "if" condition
    | .elseIf => markup "elseif" condition
    | .«else» => markup "else" []
  opening :: writeContent block.speaker block.content ++ writeJump block.next

def writeBlocks (blocks : List Block) : List (List Char) :=
  if blocks.isEmpty then [] else blocks.flatMap writeBlock ++ [markup "endif" []]

def indent (line : List Char) : List Char :=
  List.replicate 4 ' ' ++ line

def writeChoice (choice : Choice) : List (List Char) :=
  let condition := writeExpression choice.gate
  let opening := "-> ".toList ++ choice.text.toList
  let first := if condition.isEmpty then opening else opening ++ ' ' :: markup "if" condition
  first :: (choice.flags.map raiseCommand ++ writeJump choice.next).map indent

def writeSpeaker (speaker : Option String) : List (List Char) :=
  (speaker.map fun name => "speaker: ".toList ++ name.toList).toList

/-- The lines of a section between its title and its end. The speaker of a speech stands before its
dialogue lines, and in the heading only when there are none. -/
def writeKind (speaker : Option String) : NodeKind → List (List Char)
  | .npc speech =>
      let inHeading :=
        if (Text.lines speech.content.toList).any isDialogue then [] else writeSpeaker speaker
      inHeading ++ [bodyStart] ++ writeContent speaker speech.content ++
        writeBlocks (speech.blocks.getD []) ++ (speech.raises.getD []).map raiseCommand ++
        writeJump speech.next
  | .player choices => writeSpeaker speaker ++ [bodyStart] ++ choices.flatMap writeChoice
  | .conditional blocks => writeSpeaker speaker ++ [bodyStart] ++ writeBlocks blocks

def writeNode (node : Node) : List (List Char) :=
  ("title: ".toList ++ node.id.toList) :: writeKind node.speaker node.kind ++ [sectionEnd]

/-! ## Trees -/

/-- A comment about the dialogue, which is left out when it would tell nothing. -/
def writeComment (key value : String) : List (List Char) :=
  if value.isEmpty then [] else ["// ".toList ++ key.toList ++ ": ".toList ++ value.toList]

def writePreamble (tree : DialogueTree) : List (List Char) :=
  writeComment "dialogue" tree.id ++ writeComment "name" tree.title ++
    writeComment "start" tree.start

def writeSections (written : List (List Char)) (nodes : List Node) : List (List Char) :=
  nodes.foldl
    (fun soFar node => soFar ++ (if soFar.isEmpty then [] else [[]]) ++ writeNode node)
    written

def write (tree : DialogueTree) : List Char :=
  (writeSections (writePreamble tree) tree.nodeList).flatMap Text.endLine

end BranchingDialogue.Script

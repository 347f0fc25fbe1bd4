import BranchingDialogue.Graph.Tree
import BranchingDialogue.Script.Body

/-! A script is read leniently or strictly. The lenient reading passes over lines that are not
recognized, over sections without title or body and over sections whose title is taken. The strict
reading stops at the first of these. -/

namespace BranchingDialogue.Script

inductive MissingPart
  | separator
  | title
  deriving DecidableEq

def MissingPart.wording : MissingPart → String
  | .separator => "'---' separator"
  | .title => "title"

inductive ScriptError
  | unrecognizedLine (node : String) (line : Nat) (text : String)
  | malformedBlock (line : Nat) (missing : MissingPart)
  | duplicateNode (node : String) (line : Nat)
  deriving DecidableEq

def ScriptError.message : ScriptError → String
  | .unrecognizedLine node line text => s!"line {line} in node '{node}': unrecognized line '{text}'"
  | .malformedBlock line missing =>
      let part := missing.wording
      s!"block starting at line {line} has no {part}"
  | .duplicateNode node line => s!"line {line}: duplicate node title '{node}'"

inductive Mode
  | lenient
  | strict
  deriving DecidableEq

/-- What a reading does where the strict one stops: the strict reading gives the error, and the
lenient one goes on with `value`. -/
def Mode.orStop {α : Type} (mode : Mode) (error : ScriptError) (value : α) :
    Except ScriptError α :=
  match mode with
  | .lenient => .ok value
  | .strict => .error error

/-! ## Headings -/

structure Heading where
  title : Option (List Char) := none
  speaker : Option (List Char) := none
  deriving DecidableEq, Inhabited

/-- The heading with what one line tells. A later line wins over an earlier one of its kind. -/
def Heading.readLine (heading : Heading) (line : List Char) : Heading :=
  match keyAndValue line with
  | none => heading
  | some (key, value) =>
      if value.isEmpty then
        heading
      else if key = "title".toList then
        { heading with title := some value }
      else if key = "speaker".toList then
        { heading with speaker := some value }
      else
        heading

def readHeading (heading : Heading) : List NumberedLine → Heading × Option (List NumberedLine)
  | [] => (heading, none)
  | line :: rest =>
      if line.text = bodyStart then
        (heading, some rest)
      else
        readHeading (heading.readLine line.text) rest

/-! ## Sections -/

def readLine (mode : Mode) (draft : Draft) (line : NumberedLine) : Except ScriptError Draft :=
  match draft.addLine line.text with
  | some next => .ok next
  | none =>
      let error :=
        .unrecognizedLine (String.ofList draft.id) line.number (String.ofList line.text)
      mode.orStop error draft

def readBody (mode : Mode) (draft : Draft) (lines : List NumberedLine) :
    Except ScriptError Draft :=
  lines.foldlM (readLine mode) draft

/-- The node of a section. A section of comments only has none. -/
def readSection (mode : Mode) (part : Section) : Except ScriptError (Option Node) :=
  match readHeading {} part.lines with
  | (⟨some title, speaker⟩, some body) =>
      (readBody mode { id := title } body).map fun draft => some (draft.finish speaker)
  | (_, body) =>
      if part.lines.all fun line => isIdle line.text then
        .ok none
      else
        let missing := if body.isNone then .separator else .title
        mode.orStop (.malformedBlock part.firstLine missing) none

def addSection (mode : Mode) (nodes : List Node) (part : Section) :
    Except ScriptError (List Node) := do
  match ← readSection mode part with
  | none => return nodes
  | some node =>
      if nodes.any fun other => other.id = node.id then
        mode.orStop (.duplicateNode node.id part.firstLine) nodes
      else
        return nodes ++ [node]

def readNodes (mode : Mode) (parts : List Section) : Except ScriptError (List Node) :=
  parts.foldlM (addSection mode) []

/-! ## Trees -/

/-- The tree of the nodes of a script. It starts where the preamble tells if that is one of its
nodes, and otherwise at the first node. -/
def Preamble.tree (preamble : Preamble) (nodes : List Node) : DialogueTree :=
  let named := preamble.start.filter fun start => nodes.any fun node => node.id = start
  let start := (named <|> nodes.head?.map Node.id).getD ""
  let id := preamble.id.getD start
  (DialogueTree.bare id (preamble.title.getD id) start).withNodes nodes

def read (mode : Mode) (script : List Char) : Except ScriptError DialogueTree :=
  let lines := numberedLines script
  (readNodes mode (sectionsFrom 1 lines)).map (Preamble.ofLines lines).tree

def readLeniently (script : List Char) : DialogueTree :=
  match read .lenient script with
  | .ok tree => tree
  | .error _ => .bare "" "" ""

end BranchingDialogue.Script

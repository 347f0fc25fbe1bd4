import BranchingDialogue.Text.Blank
import BranchingDialogue.Text.Cut
import BranchingDialogue.Text.Lines

/-! A script is divided by lines of three equals signs into sections, one for each node. A section
has a heading with the title of the node, a line of three hyphens, and a body. Comments before the
first node give the dialogue an id, a title and a start. -/

namespace BranchingDialogue.Script

/-- A line of a script without blanks at its ends, and its number from one. -/
structure NumberedLine where
  number : Nat
  text : List Char
  deriving DecidableEq

def numberedLines (script : List Char) : List NumberedLine :=
  (Text.lines script).mapIdx fun index line => ⟨index + 1, Text.trim line⟩

def sectionEnd : List Char :=
  "===".toList

def bodyStart : List Char :=
  "---".toList

def isComment (line : List Char) : Bool :=
  List.isPrefixOf ['/', '/'] line

def isIdle (line : List Char) : Bool :=
  line.isEmpty || isComment line

/-! ## Comments about the dialogue -/

/-- What the comments before the first node tell about the dialogue. -/
structure Preamble where
  id : Option String := none
  title : Option String := none
  start : Option String := none
  deriving DecidableEq, Inhabited

/-- The key and the value of a line with a colon, both without blanks at their ends. -/
def keyAndValue (line : List Char) : Option (List Char × List Char) :=
  (Text.cut [':'] line).map fun (key, value) => (Text.trim key, Text.trim value)

namespace Preamble

def readLine (preamble : Preamble) (line : List Char) : Preamble :=
  match (List.isPrefixOf? ['/', '/'] line).bind keyAndValue with
  | none => preamble
  | some (key, value) =>
      let told := some (String.ofList value)
      if value.isEmpty then
        preamble
      else if key = "dialogue".toList then
        { preamble with id := told }
      else if key = "name".toList then
        { preamble with title := told }
      else if key = "start".toList then
        { preamble with start := told }
      else
        preamble

def endsAt (line : List Char) : Bool :=
  List.isPrefixOf "title:".toList line || line = bodyStart || line = sectionEnd

/-- The preamble of a script. A later comment wins over an earlier one of its kind. -/
def ofLines (lines : List NumberedLine) : Preamble :=
  let before := lines.takeWhile fun line => !endsAt line.text
  before.foldl (fun preamble line => preamble.readLine line.text) {}

end Preamble

/-! ## Sections -/

/-- The lines of a section, which ends at a line of equals signs. -/
structure Section where
  firstLine : Nat
  lines : List NumberedLine
  deriving DecidableEq, Inhabited

/-- The sections of the lines from one number on. What follows the last line of equals signs is a
section when it has a line that is not empty. -/
def sectionsFrom (firstLine : Nat) : List NumberedLine → List Section
  | [] => []
  | line :: rest =>
      if line.text = sectionEnd then
        ⟨firstLine, []⟩ :: sectionsFrom (line.number + 1) rest
      else
        match sectionsFrom firstLine rest with
        | [] => if line.text.isEmpty then [] else [⟨firstLine, [line]⟩]
        | found :: others => ⟨firstLine, line :: found.lines⟩ :: others

end BranchingDialogue.Script

import BranchingDialogue.Text.Blank
import BranchingDialogue.Text.Cut
import BranchingDialogue.Text.Escape

/-! A dialogue line is a text, or the name of a speaker, a colon, a space and a text. A backslash
before a colon keeps it from ending the name of a speaker. -/

namespace BranchingDialogue.Script

def lineMarks : List Char :=
  ['\\', ':']

def speakerMark : List Char :=
  [':', ' ']

def markupCharacters : List Char :=
  ['<', '>', '$', '"', ':']

def isSpeakerName (name : List Char) : Bool :=
  !name.isEmpty && name.length ≤ 40 &&
    name.all (fun character => !markupCharacters.contains character) &&
    name.head? != some '-' && name.getLast? != some '\\'

/-- The speaker of a line, if it names one, and the text. -/
def splitSpeaker (line : List Char) : Option (List Char) × List Char :=
  match Text.cut speakerMark line with
  | none => (none, line)
  | some (before, after) =>
      let name := Text.trim before
      if isSpeakerName name then (some name, Text.trim after) else (none, line)

/-- The line that the escapes of a written line stand for. -/
def unescapeLine (line : List Char) : List Char :=
  Text.unescape lineMarks line

/-- A line as it is written: its backslashes are doubled, and a colon that would end the name of a
speaker is escaped. -/
def escapeLine (line : List Char) : List Char :=
  let doubled := Text.escape ['\\'] line
  match splitSpeaker doubled, Text.cut speakerMark doubled with
  | (some _, _), some (before, after) => before ++ '\\' :: speakerMark ++ after
  | _, _ => doubled

end BranchingDialogue.Script

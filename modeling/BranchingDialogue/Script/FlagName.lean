import BranchingDialogue.Text.Blank

/-! A script writes a flag as a dollar sign and the name of the flag. The name is a run of
characters that the rest of the script syntax does not use. -/

namespace BranchingDialogue.Script

/-- The characters that the script syntax uses beside names of flags. -/
def flagDelimiters : List Char :=
  ['=', '!', '<', '>', '$', '&', '|', '"', '\'']

def isFlagCharacter (character : Char) : Bool :=
  !Text.isBlank character && !flagDelimiters.contains character

def isFlagName (name : List Char) : Bool :=
  !name.isEmpty && name.all isFlagCharacter

def isScriptable (flag : String) : Bool :=
  isFlagName flag.toList

/-- The ways to divide a text into a name of at most `size` characters and the rest, the longest
name first. -/
def nameSplitsUpTo (text : List Char) : Nat → List (List Char × List Char)
  | 0 => []
  | size + 1 => (text.take (size + 1), text.drop (size + 1)) :: nameSplitsUpTo text size

def nameSplits (text : List Char) : List (List Char × List Char) :=
  nameSplitsUpTo text (text.takeWhile isFlagCharacter).length

/-- The flag that a text refers to: a dollar sign and a name, with nothing after it. -/
def readFlag : List Char → Option String
  | '$' :: name => if isFlagName name then some (String.ofList name) else none
  | _ => none

end BranchingDialogue.Script

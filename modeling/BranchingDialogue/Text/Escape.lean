/-! A backslash before a marked character stands for that character. Other backslashes stand for
themselves. -/

namespace BranchingDialogue.Text

def escape (marks : List Char) (text : List Char) : List Char :=
  text.flatMap fun character => if character ∈ marks then ['\\', character] else [character]

/-- The text without the backslashes that stand before marked characters. -/
def unescape (marks : List Char) : List Char → List Char
  | [] => []
  | '\\' :: character :: rest =>
      if character ∈ marks then
        character :: unescape marks rest
      else
        '\\' :: character :: unescape marks rest
  | character :: rest => character :: unescape marks rest

end BranchingDialogue.Text

/-! A line ends at a line feed. The line keeps neither the line feed nor one carriage return just
before it. What follows the last line feed is a line of its own when it is not empty. -/

namespace BranchingDialogue.Text

def lines : List Char → List (List Char)
  | [] => []
  | '\n' :: rest => [] :: lines rest
  | '\r' :: '\n' :: rest => [] :: lines rest
  | character :: rest =>
      match lines rest with
      | [] => [[character]]
      | first :: others => (character :: first) :: others

def joinLines (parts : List (List Char)) : List Char :=
  ['\n'].intercalate parts

/-- A text followed by the line feed that ends it as a line. -/
def endLine (text : List Char) : List Char :=
  text ++ ['\n']

end BranchingDialogue.Text

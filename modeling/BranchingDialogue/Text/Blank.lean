/-! A character is blank when it has the Unicode property White_Space. This module holds the
property, the removal of blanks at the ends of a text, and the division of a text into its words. -/

namespace BranchingDialogue.Text

/-- The Unicode property White_Space. -/
def isBlank (character : Char) : Bool :=
  let point := character.toNat
  (0x09 ≤ point && point ≤ 0x0d) || point == 0x20 || point == 0x85 || point == 0xa0 ||
    point == 0x1680 || (0x2000 ≤ point && point ≤ 0x200a) || point == 0x2028 ||
    point == 0x2029 || point == 0x202f || point == 0x205f || point == 0x3000

def trimStart (text : List Char) : List Char :=
  text.dropWhile isBlank

def trimEnd (text : List Char) : List Char :=
  (text.reverse.dropWhile isBlank).reverse

def trim (text : List Char) : List Char :=
  trimEnd (trimStart text)

def isBlankText (text : List Char) : Bool :=
  text.all isBlank

/-- The word that a text starts with, which may be empty, and the words after it. -/
def firstWordAndRest : List Char → List Char × List (List Char)
  | [] => ([], [])
  | character :: rest =>
      let (word, others) := firstWordAndRest rest
      if isBlank character then
        ([], if word.isEmpty then others else word :: others)
      else
        (character :: word, others)

/-- The words of a text: its longest runs of characters that are not blank. -/
def words (text : List Char) : List (List Char) :=
  let (word, others) := firstWordAndRest text
  if word.isEmpty then others else word :: others

def singleSpaced (text : List Char) : List Char :=
  [' '].intercalate (words text)

end BranchingDialogue.Text

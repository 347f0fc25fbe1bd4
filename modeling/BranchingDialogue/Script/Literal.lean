import BranchingDialogue.Flag.Value
import BranchingDialogue.Text.Cut
import BranchingDialogue.Text.Escape

/-! Values as scripts write them: truth values, numbers, texts in quotes and bare words. -/

namespace BranchingDialogue.Script

def quotedMarks : List Char :=
  ['\\', '"']

def betweenQuotes (quote : Char) (text : List Char) : Option (List Char) :=
  (List.isPrefixOf? [quote] text).bind (List.isSuffixOf? [quote])

/-- The value that a text between blanks writes. A text that writes neither a truth value nor a
number is taken as it stands, without its quotes if it has them. Nothing writes no value. -/
def readLiteral (raw : List Char) : Option Value :=
  let text := Text.trim raw
  if text.isEmpty then
    none
  else if text = "true".toList then
    some (.bool true)
  else if text = "false".toList then
    some (.bool false)
  else
    match Decimal.read text with
    | some amount => some (.number amount)
    | none =>
        match betweenQuotes '"' text <|> betweenQuotes '\'' text with
        | some inner => some (.text (String.ofList (Text.unescape quotedMarks inner)))
        | none => some (.text (String.ofList text))

/-- A value as a literal. Texts are always quoted. -/
def writeLiteral : Value → List Char
  | .bool truth => if truth then "true".toList else "false".toList
  | .number amount => numberText amount
  | .text content => '"' :: Text.escape quotedMarks content.toList ++ ['"']

end BranchingDialogue.Script

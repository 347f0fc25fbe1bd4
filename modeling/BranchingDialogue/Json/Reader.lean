import BranchingDialogue.Json.Number
import BranchingDialogue.Json.Quoted
import BranchingDialogue.Text.Cut

/-! A document is one value with nothing but blanks around it. The readers of values, items and
members take a bound on the number of nested calls, which the length of the document gives. -/

namespace BranchingDialogue.Json

def skipSpace (text : List Char) : List Char :=
  text.dropWhile isSpace

def constants : List (String × Json) :=
  [("null", .null), ("true", .bool true), ("false", .bool false)]

def constantAndRest (text : List Char) : Option (Json × List Char) :=
  constants.findSome? fun (name, value) =>
    (List.isPrefixOf? name.toList text).map fun rest => (value, rest)

mutual

def valueAndRest : Nat → List Char → Option (Json × List Char)
  | 0, _ => none
  | fuel + 1, text =>
      match skipSpace text with
      | '"' :: inside => (textAndRest inside).map fun (content, rest) => (.string content, rest)
      | '[' :: inside =>
          match skipSpace inside with
          | ']' :: rest => some (.list [], rest)
          | first => (itemsAndRest fuel first).map fun (items, rest) => (.list items, rest)
      | '{' :: inside =>
          match skipSpace inside with
          | '}' :: rest => some (.object [], rest)
          | first => (membersAndRest fuel first).map fun (members, rest) => (.object members, rest)
      | other =>
          constantAndRest other <|>
            (numberAndRest other).map fun (amount, rest) => (.number amount, rest)

def itemsAndRest : Nat → List Char → Option (List Json × List Char)
  | 0, _ => none
  | fuel + 1, text => do
      let (item, afterItem) ← valueAndRest fuel text
      match skipSpace afterItem with
      | ']' :: rest => return ([item], rest)
      | ',' :: next =>
          let (others, rest) ← itemsAndRest fuel next
          return (item :: others, rest)
      | _ => none

def membersAndRest : Nat → List Char → Option (List (Text × Json) × List Char)
  | 0, _ => none
  | fuel + 1, text => do
      let opened ← List.isPrefixOf? ['"'] (skipSpace text)
      let (key, afterKey) ← textAndRest opened
      let afterColon ← List.isPrefixOf? [':'] (skipSpace afterKey)
      let (value, afterValue) ← valueAndRest fuel afterColon
      match skipSpace afterValue with
      | '}' :: rest => return ([(key, value)], rest)
      | ',' :: next =>
          let (others, rest) ← membersAndRest fuel next
          return ((key, value) :: others, rest)
      | _ => none

end

def read (document : String) : Option Json :=
  let text := document.toList
  match valueAndRest (2 * text.length + 2) text with
  | some (value, rest) => if (skipSpace rest).isEmpty then some value else none
  | none => none

end BranchingDialogue.Json

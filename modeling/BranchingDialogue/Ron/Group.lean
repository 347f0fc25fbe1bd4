import BranchingDialogue.Ron.Sequence

/-! A group is what stands in parentheses: a tuple, or a record with names before its values. Which
of them it is shows in its first name and in a look ahead to its end. -/

namespace BranchingDialogue.Ron

inductive GroupKind
  | tuple
  | record
  deriving DecidableEq

/-- What follows the text at the start of a document. Where a mark of texts begins no text, what
follows the mark. -/
def afterText (text : List Char) : List Char :=
  match stringAndRest text, text with
  | some (_, rest), _ => rest
  | none, '"' :: rest => rest
  | none, 'r' :: rest =>
      let opening := rest.dropWhile (· = '#')
      (List.isPrefixOf? ['"'] opening).getD opening
  | none, other => other

/-- Whether the end of a group with some brackets open, or a comma between its own items, comes
after no more marks than `budget` has characters. Comments and texts are passed over. -/
def endsWithin : List Char → Nat → List Char → Bool
  | [], _, _ => false
  | _ :: budget, brackets, text =>
      match (skipBlank text).map afterText with
      | none | some [] => false
      | some (mark :: rest) =>
          if ['(', '[', '\x7b'].contains mark then
            endsWithin budget (brackets + 1) rest
          else if [')', ']', '\x7d'].contains mark then
            brackets ≤ 1 || endsWithin budget (brackets - 1) rest
          else
            (mark = ',' && brackets = 1) || endsWithin budget brackets rest

/-- The kind of a group, given what follows its opening parenthesis. It must have an end, if its first
name does not tell. -/
def groupKind (text : List Char) : Option GroupKind := do
  let start ← skipBlank text
  let tuple := fun rest => if endsWithin rest 1 rest then some GroupKind.tuple else none
  match nameAndRest start with
  | none => tuple start
  | some (_, rest) =>
      match ← skipBlank rest with
      | ':' :: _ => return .record
      | ',' :: _ | ')' :: _ => return .tuple
      | next => tuple next

/-- The group with a name, given what follows its opening parenthesis. -/
def groupAndRest (name : Option String) (value : Reader Ron) : Reader Ron :=
  fun text => do
    match ← groupKind text with
    | .tuple =>
        let (items, rest) ← itemsAndRest value ')' text
        return (.tuple name items, rest)
    | .record =>
        let (fields, rest) ← itemsAndRest (pairAndRest nameAndRest fun _ => value) ')' text
        return (.record name fields, rest)

end BranchingDialogue.Ron

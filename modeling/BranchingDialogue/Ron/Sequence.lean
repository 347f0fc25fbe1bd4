import BranchingDialogue.Ron.Basic
import BranchingDialogue.Ron.Token

/-! Items with commas between them, pairs of a key and a value, and values that may be absent. Each
reader is built from the readers of its parts. -/

namespace BranchingDialogue.Ron

/-- Reads what stands at the start of a text, and gives what follows it. -/
abbrev Reader (α : Type) : Type :=
  List Char → Option (α × List Char)

/-- Items up to a closing mark, which together with the mark are no more than `budget` has
characters. The last one can have a comma too. -/
def itemsWithin {α : Type} (item : Reader α) (closing : Char) : List Char → Reader (List α)
  | [], _ => none
  | _ :: budget, text => do
      let start ← skipBlank text
      match List.isPrefixOf? [closing] start with
      | some rest => return ([], rest)
      | none =>
          let (first, afterFirst) ← item start
          let (comma, next) ← skipComma afterFirst
          if comma then
            let (others, rest) ← itemsWithin item closing budget next
            return (first :: others, rest)
          else
            let rest ← List.isPrefixOf? [closing] next
            return ([first], rest)

def itemsAndRest {α : Type} (item : Reader α) (closing : Char) : Reader (List α) :=
  fun text => itemsWithin item closing text text

def pairAndRest {κ α : Type} (key : Reader κ) (value : κ → Reader α) : Reader (κ × α) :=
  fun text => do
    let (name, afterName) ← key text
    let afterColon ← List.isPrefixOf? [':'] (← skipBlank afterName)
    let (content, rest) ← value name (← skipBlank afterColon)
    return ((name, content), rest)

/-- A value that is present, given what follows the word for that: it stands in parentheses, or
alone when `implicit` holds. -/
def presentAndRest {α : Type} (implicit : Bool) (value : Reader α) : Reader α :=
  fun text => do
    match ← skipBlank text with
    | '(' :: inside =>
        let (content, afterContent) ← value (← skipBlank inside)
        let (_, closing) ← skipComma afterContent
        let rest ← List.isPrefixOf? [')'] closing
        return (content, rest)
    | other => if implicit then value other else none

/-- A value that may be absent. The words for absent and present end without regard to what
follows them, and no word is needed for a present value when `implicit` holds. -/
def optionalAndRest (implicit : Bool) (value : Reader Ron) : Reader Ron :=
  fun text =>
    match List.isPrefixOf? "None".toList text with
    | some rest => some (.absent, rest)
    | none =>
        let content :=
          match List.isPrefixOf? "Some".toList text with
          | some rest => presentAndRest implicit value rest
          | none => if implicit then value text else none
        content.map fun (content, rest) => (.present content, rest)

end BranchingDialogue.Ron

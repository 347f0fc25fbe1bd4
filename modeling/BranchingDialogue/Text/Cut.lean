/-! The division of a text at the first occurrence of a mark, and at the first character of a kind.
-/

namespace BranchingDialogue.Text

/-- The parts of a text before and after the first occurrence of `mark`. -/
def cut (mark : List Char) : List Char → Option (List Char × List Char)
  | [] => if mark.isEmpty then some ([], []) else none
  | character :: rest =>
      match mark.isPrefixOf? (character :: rest) with
      | some after => some ([], after)
      | none => (cut mark rest).map fun (before, after) => (character :: before, after)

/-- The parts of a text before and after the first character that satisfies `test`. -/
def cutWhere (test : Char → Bool) : List Char → Option (List Char × List Char)
  | [] => none
  | character :: rest =>
      if test character then
        some ([], rest)
      else
        (cutWhere test rest).map fun (before, after) => (character :: before, after)

end BranchingDialogue.Text

import BranchingDialogue.Decimal.Layout
import BranchingDialogue.Json.Quoted

/-! A document is written in a layout, which says where blanks stand between its parts: compactly,
or on many lines. A number that is not finite is written as `null`. -/

namespace BranchingDialogue.Json

/-- Numbers are positional from the hundred-thousandths to the quadrillions, and whole ones show
one place after the point. -/
def numberLayout : NumberLayout :=
  ⟨.even, fun order => -5 ≤ order && order < 16, ['.', '0']⟩

def writeNumber : Number → List Char
  | .whole amount =>
      (if amount < 0 then ['-'] else []) ++ Decimal.digits amount.natAbs
  | .real amount => if amount.isFinite then numberLayout.write amount else "null".toList
  | .tooLarge => "null".toList

def writeText : Text → List Char
  | some content => quote content
  | none => "null".toList

def writeScalar : Json → List Char
  | .bool true => "true".toList
  | .bool false => "false".toList
  | .number amount => writeNumber amount
  | .string content => writeText content
  | _ => "null".toList

/-- Where blanks stand in a written document: at the start of the line of each item, member and
closing bracket, which depends on the level of nesting, and after each colon. -/
structure Layout where
  line : Nat → List Char
  gap : List Char
  blank_line : ∀ level, ∀ character ∈ line level, isSpace character = true
  blank_gap : ∀ character ∈ gap, isSpace character = true

namespace Layout

def oneLine : Layout :=
  ⟨fun _ => [], [], by simp, by simp⟩

/-- A line for each part of a document, with two spaces for each level of nesting. -/
def indented : Layout where
  line level := '\n' :: List.replicate (2 * level) ' '
  gap := [' ']
  blank_line level := by
    intro character member
    rcases List.mem_cons.mp member with feed | inIndent
    · rw [feed]
      rfl
    · rw [List.eq_of_mem_replicate inIndent]
      rfl
  blank_gap := by simp [isSpace]

mutual

def write (layout : Layout) (level : Nat) : Json → List Char
  | .list [] => ['[', ']']
  | .list items => '[' :: layout.writeItems (level + 1) items ++ layout.line level ++ [']']
  | .object [] => ['{', '}']
  | .object members => '{' :: layout.writeMembers (level + 1) members ++ layout.line level ++ ['}']
  | scalar => writeScalar scalar

def writeItems (layout : Layout) (level : Nat) : List Json → List Char
  | [] => []
  | [item] => layout.line level ++ layout.write level item
  | item :: rest =>
      layout.line level ++ layout.write level item ++ ',' :: layout.writeItems level rest

def writeMembers (layout : Layout) (level : Nat) : List (Text × Json) → List Char
  | [] => []
  | [(key, value)] =>
      layout.line level ++ writeText key ++ ':' :: layout.gap ++ layout.write level value
  | (key, value) :: rest =>
      layout.line level ++ writeText key ++ ':' :: layout.gap ++ layout.write level value ++
        ',' :: layout.writeMembers level rest

end

end Layout

def compact (document : Json) : String :=
  String.ofList (Layout.oneLine.write 0 document)

def pretty (document : Json) : String :=
  String.ofList (Layout.indented.write 0 document)

end BranchingDialogue.Json

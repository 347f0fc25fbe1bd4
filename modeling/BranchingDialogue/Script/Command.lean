import BranchingDialogue.Flag.Store
import BranchingDialogue.Script.FlagName
import BranchingDialogue.Script.Literal
import BranchingDialogue.Text.WordCharacter

/-! A set command gives a flag a value: a literal, the value of another flag, or the number of
another flag with an amount added or taken away. Commands stand between double angle brackets in the
content of nodes. -/

namespace BranchingDialogue.Script

inductive SetExpression
  | literal (value : Value)
  | copy (source : String)
  | offset (source : String) (delta : Float)
  deriving DecidableEq

structure SetCommand where
  flag : String
  expression : SetExpression
  deriving DecidableEq

/-! ## Right-hand sides -/

/-- The number of an offset: digits with an optional minus before them and optional decimal
places. -/
def offsetNumber (text : List Char) : Option Float :=
  let digits := (List.isPrefixOf? ['-'] text).getD text
  let (whole, rest) := Decimal.leadingDigits digits
  let plain :=
    match rest with
    | [] => true
    | '.' :: places => !places.isEmpty && places.all Char.isDigit
    | _ => false
  if whole.isEmpty || !plain then none else Decimal.read text

def offsetDelta (text : List Char) : Option Float :=
  match Text.trimStart text with
  | '+' :: rest => offsetNumber (Text.trimStart rest)
  | '-' :: rest => (offsetNumber (Text.trimStart rest)).map fun amount => -amount
  | _ => none

/-- The offset that a text writes after its dollar sign. The longest name with an amount after it
is the flag. -/
def readOffset (text : List Char) : Option SetExpression :=
  (nameSplits text).findSome? fun (name, rest) =>
    (offsetDelta rest).map fun delta => .offset (String.ofList name) delta

/-- The right-hand side that a text between blanks writes. What begins with a dollar sign and is
no offset is a copy. -/
def readSetExpression (raw : List Char) : Option SetExpression :=
  match Text.trim raw with
  | '$' :: rest => readOffset rest <|> some (.copy (String.ofList rest))
  | text => (readLiteral text).map .literal

/-! ## Recognition -/

/-- A command as it stands in a text: the name of the flag and the text of the right-hand side. -/
structure RawCommand where
  flag : List Char
  expression : List Char
  deriving DecidableEq

/-- What follows the closing brackets of a command, if only blanks come before them. -/
def afterClosing (text : List Char) : Option (List Char) :=
  List.isPrefixOf? ['>', '>'] (Text.trimStart text)

/-- The text of a right-hand side up to the first closing brackets outside quotes, and what follows
the brackets. Outside quotes there is no angle bracket that closes nothing; `quoted` tells whether
the text begins inside quotes. -/
def rightHandSide : Bool → List Char → Option (List Char × List Char)
  | true, [] => none
  | true, ['\\'] => none
  | true, '\\' :: character :: rest =>
      if character = '\n' then
        none
      else
        (rightHandSide true rest).map fun (side, after) => ('\\' :: character :: side, after)
  | true, character :: rest =>
      (rightHandSide (character != '"') rest).map fun (side, after) => (character :: side, after)
  | false, [] => none
  | false, character :: rest =>
      match afterClosing (character :: rest) with
      | some after => some ([], after)
      | none =>
          if character = '>' then
            none
          else
            (rightHandSide (character == '"') rest).map
              fun (side, after) => (character :: side, after)

/-- What follows the sign or the word of assignment after a flag name. The word `to` stands for
itself only, so that it continues no word of the name and no word continues it. -/
def afterAssignment (name text : List Char) : Option (List Char) :=
  let trimmed := Text.trimStart text
  match trimmed with
  | '=' :: rest => some rest
  | 't' :: 'o' :: rest =>
      let apart :=
        trimmed.length < text.length || !(name.getLast?.any Text.isWordCharacter)
      if apart && Text.startsOutsideWord rest then some rest else none
  | _ => none

/-- The start of a command up to the dollar sign of its flag, taken away. -/
def afterOpening (text : List Char) : Option (List Char) := do
  let inside ← List.isPrefixOf? ['<', '<'] text
  let rest ← List.isPrefixOf? "set".toList (Text.trimStart inside)
  let trimmed := Text.trimStart rest
  if trimmed.length < rest.length then List.isPrefixOf? ['$'] trimmed else none

/-- The command that a text begins with, and what follows it. The longest name that leaves a
command is the flag. -/
def commandAt (text : List Char) : Option (RawCommand × List Char) :=
  (afterOpening text).bind fun body =>
    (nameSplits body).findSome? fun (name, rest) => do
      let assigned ← afterAssignment name rest
      let (side, after) ← rightHandSide false (Text.trimStart assigned)
      return (⟨name, side⟩, after)

def RawCommand.read (command : RawCommand) : Option SetCommand :=
  (readSetExpression command.expression).map fun expression =>
    ⟨String.ofList command.flag, expression⟩

def readCommand (line : List Char) : Option SetCommand :=
  match commandAt (Text.trim line) with
  | some (command, []) => command.read
  | _ => none

/-! ## Commands in content -/

inductive Piece
  | shown (character : Char)
  | command (command : RawCommand)
  deriving DecidableEq

/-- The pieces of a text, of which the next `covered` characters belong to a command. -/
def piecesFrom : Nat → List Char → List Piece
  | _, [] => []
  | covered + 1, _ :: rest => piecesFrom covered rest
  | 0, character :: rest =>
      match commandAt (character :: rest) with
      | some (command, after) => .command command :: piecesFrom (rest.length - after.length) rest
      | none => .shown character :: piecesFrom 0 rest

def pieces (text : List Char) : List Piece :=
  piecesFrom 0 text

def Piece.command? : Piece → Option RawCommand
  | .shown _ => none
  | .command found => some found

def Piece.shown? : Piece → Option Char
  | .shown character => some character
  | .command _ => none

def commands (text : List Char) : List RawCommand :=
  (pieces text).filterMap Piece.command?

def withoutCommands (text : List Char) : List Char :=
  (pieces text).filterMap Piece.shown?

def SetExpression.sources : SetExpression → List String
  | .literal _ => []
  | .copy source => [source]
  | .offset source _ => [source]

def commandFlags (text : List Char) : List String :=
  (commands text).flatMap fun command =>
    String.ofList command.flag ::
      (readSetExpression command.expression).elim [] SetExpression.sources

/-! ## Meaning -/

/-- The value of a right-hand side in a store. A copied flag without value counts as a truth value,
which tells whether it is in the memory set. A flag without value has the number zero. -/
def SetExpression.resolve (expression : SetExpression) (store : Store) : Value :=
  match expression with
  | .literal value => value
  | .copy source => (store.get? source).getD (.bool (store.remembers source))
  | .offset source delta => .number ((store.get? source).elim 0.0 Value.toNumber + delta)

def SetExpression.isTrue : SetExpression → Bool
  | .literal (.bool truth) => truth
  | _ => false

end BranchingDialogue.Script

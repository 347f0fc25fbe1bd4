import BranchingDialogue.Json.Basic

/-! A text stands in quotes. Quotes, backslashes and control characters in it are escaped. An escape
can give a 16-bit code unit; two of them make up a character beyond the first 65536. -/

namespace BranchingDialogue.Json

/-- What one character or escape of a written text stands for: a character, or half of a surrogate
pair. -/
inductive CodeUnit
  | scalar (character : Char)
  | half (value : Nat)
  deriving DecidableEq

def hexValue (character : Char) : Option Nat :=
  if character.isDigit then
    some (character.toNat - '0'.toNat)
  else if 'a' ≤ character && character ≤ 'f' then
    some (character.toNat - 'a'.toNat + 10)
  else if 'A' ≤ character && character ≤ 'F' then
    some (character.toNat - 'A'.toNat + 10)
  else
    none

def hexNumber (digits : List Char) : Option Nat :=
  digits.foldlM (fun total digit => (hexValue digit).map fun value => 16 * total + value) 0

def CodeUnit.ofNat (value : Nat) : CodeUnit :=
  if 0xd800 ≤ value && value < 0xe000 then .half value else .scalar (Char.ofNat value)

/-- The character of an escape other than that of a code unit. -/
def escapedCharacter : Char → Option Char
  | '"' => some '"'
  | '\\' => some '\\'
  | '/' => some '/'
  | 'b' => some '\x08'
  | 'f' => some '\x0c'
  | 'n' => some '\n'
  | 'r' => some '\r'
  | 't' => some '\t'
  | _ => none

/-- The code units of a text up to its closing quote, with what follows the quote. -/
def unitsAndRest : List Char → Option (List CodeUnit × List Char)
  | [] => none
  | '"' :: rest => some ([], rest)
  | '\\' :: 'u' :: first :: second :: third :: fourth :: rest => do
      let value ← hexNumber [first, second, third, fourth]
      let (units, after) ← unitsAndRest rest
      return (.ofNat value :: units, after)
  | '\\' :: mark :: rest => do
      let character ← escapedCharacter mark
      let (units, after) ← unitsAndRest rest
      return (.scalar character :: units, after)
  | character :: rest => do
      if character = '\\' || character.toNat < 0x20 then
        none
      let (units, after) ← unitsAndRest rest
      return (.scalar character :: units, after)

/-- The characters of some code units, unless there is half of a surrogate pair. -/
def charactersOfUnits : List CodeUnit → Option (List Char)
  | [] => some []
  | .scalar character :: rest => (charactersOfUnits rest).map (character :: ·)
  | .half high :: .half low :: rest =>
      if high < 0xdc00 && 0xdc00 ≤ low then
        let point := 0x10000 + (high - 0xd800) * 0x400 + (low - 0xdc00)
        (charactersOfUnits rest).map (Char.ofNat point :: ·)
      else
        none
  | .half _ :: _ => none

def textAndRest (text : List Char) : Option (Text × List Char) :=
  (unitsAndRest text).map fun (units, rest) =>
    ((charactersOfUnits units).map String.ofList, rest)

/-! ## Writing -/

def hexPair (value : Nat) : List Char :=
  [Nat.digitChar (value / 16), Nat.digitChar (value % 16)]

def writeCharacter (character : Char) : List Char :=
  match character with
  | '"' => ['\\', '"']
  | '\\' => ['\\', '\\']
  | '\x08' => ['\\', 'b']
  | '\x0c' => ['\\', 'f']
  | '\n' => ['\\', 'n']
  | '\r' => ['\\', 'r']
  | '\t' => ['\\', 't']
  | other =>
      if other.toNat < 0x20 then
        ['\\', 'u', '0', '0'] ++ hexPair other.toNat
      else
        [other]

def quote (text : String) : List Char :=
  '"' :: text.toList.flatMap writeCharacter ++ ['"']

end BranchingDialogue.Json

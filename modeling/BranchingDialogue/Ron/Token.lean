import BranchingDialogue.Decimal.Reading
import BranchingDialogue.Json.Quoted
import BranchingDialogue.Text.Cut

/-! Blanks and comments, names, texts, characters and numbers. Each reader gives what it read and
what follows. -/

namespace BranchingDialogue.Ron

/-! ## Blanks -/

/-- Where a text stands among blanks: outside comments, in a comment that ends with its line, or in
some comments that enclose each other. -/
inductive BlankPlace
  | outside
  | lineComment
  | blockComment (more : Nat)
  deriving DecidableEq

def isSpace (character : Char) : Bool :=
  character = ' ' || character = '\n' || character = '\t' || character = '\r'

/-- What follows the blanks and comments at the start of a text. A slash begins nothing else than
a comment, and comments within a line or between two marks must be closed. -/
def skipFrom : BlankPlace → List Char → Option (List Char)
  | .outside, [] => some []
  | .outside, '/' :: '/' :: rest => skipFrom .lineComment rest
  | .outside, '/' :: '*' :: rest => skipFrom (.blockComment 0) rest
  | .outside, character :: rest =>
      if isSpace character then
        skipFrom .outside rest
      else if character = '/' then
        none
      else
        some (character :: rest)
  | .lineComment, [] => some []
  | .lineComment, character :: rest =>
      skipFrom (if character = '\n' then .outside else .lineComment) rest
  | .blockComment _, [] => none
  | .blockComment more, '/' :: '*' :: rest => skipFrom (.blockComment (more + 1)) rest
  | .blockComment 0, '*' :: '/' :: rest => skipFrom .outside rest
  | .blockComment (more + 1), '*' :: '/' :: rest => skipFrom (.blockComment more) rest
  | .blockComment more, _ :: rest => skipFrom (.blockComment more) rest

def skipBlank (text : List Char) : Option (List Char) :=
  skipFrom .outside text

/-- What follows a comma with blanks around it, if there is one, and the blanks before it
otherwise; and whether there was a comma. -/
def skipComma (text : List Char) : Option (Bool × List Char) := do
  match ← skipBlank text with
  | ',' :: rest => return (true, ← skipBlank rest)
  | other => return (false, other)

/-! ## Names -/

def isNameStart (character : Char) : Bool :=
  character.isAlpha || character = '_'

def isNameCharacter (character : Char) : Bool :=
  isNameStart character || character.isDigit

def isRawNameCharacter (character : Char) : Bool :=
  isNameCharacter character || character = '.' || character = '+' || character = '-'

/-- A name without the mark of raw names. It is not followed by a character of raw names. -/
def plainName (text : List Char) : Option (String × List Char) :=
  let name := text.takeWhile isNameCharacter
  let rest := text.dropWhile isNameCharacter
  if !(text.head?.any isNameStart) || rest.head?.any isRawNameCharacter then
    none
  else
    some (String.ofList name, rest)

/-- The name at the start of a text. A raw name has a mark before it. -/
def nameAndRest : List Char → Option (String × List Char)
  | ['r'] => none
  | 'r' :: '"' :: _ => none
  | 'r' :: '#' :: text =>
      if text.head?.any isRawNameCharacter then
        some (String.ofList (text.takeWhile isRawNameCharacter),
          text.dropWhile isRawNameCharacter)
      else
        none
  | text => plainName text

/-- What follows a word that no character of names continues. -/
def afterWord (word : String) (text : List Char) : Option (List Char) :=
  (List.isPrefixOf? word.toList text).filter fun rest => !(rest.head?.any isNameCharacter)

/-! ## Texts and characters -/

/-- The number that one to six hexadecimal digits before a closing brace write, with what follows
the brace; `room` more digits can come. -/
def bracedNumber (room total : Nat) : List Char → Option (Nat × List Char)
  | [] => none
  | '}' :: rest => some (total, rest)
  | digit :: rest =>
      match room with
      | 0 => none
      | room + 1 => (Json.hexValue digit).bind fun value => bracedNumber room (16 * total + value) rest

def characterAt (point : Nat) : Option Char :=
  if point.isValidChar then some (Char.ofNat point) else none

def escapeAndRest : List Char → Option (Char × List Char)
  | '\'' :: rest => some ('\'', rest)
  | '"' :: rest => some ('"', rest)
  | '\\' :: rest => some ('\\', rest)
  | 'n' :: rest => some ('\n', rest)
  | 'r' :: rest => some ('\r', rest)
  | 't' :: rest => some ('\t', rest)
  | '0' :: rest => some (Char.ofNat 0, rest)
  | 'x' :: first :: second :: rest =>
      (Json.hexNumber [first, second]).map fun value => (Char.ofNat value, rest)
  | 'u' :: '\x7b' :: text => do
      if text.head? = some '\x7d' then
        none
      let (point, rest) ← bracedNumber 6 0 text
      let character ← characterAt point
      return (character, rest)
  | _ => none

/-- A text with escapes up to its closing quote. No more characters and escapes are read than
`budget` has characters. -/
def escapedText : List Char → List Char → Option (List Char × List Char)
  | [], _ | _, [] => none
  | _ :: _, '"' :: rest => some ([], rest)
  | _ :: budget, '\\' :: text => do
      let (character, afterEscape) ← escapeAndRest text
      let (content, rest) ← escapedText budget afterEscape
      return (character :: content, rest)
  | _ :: budget, character :: text =>
      (escapedText budget text).map fun (content, rest) => (character :: content, rest)

/-- A raw text, given what follows the letter that marks it: as many number signs as are before
its first quote close it after its last quote. -/
def rawText (text : List Char) : Option (List Char × List Char) :=
  let signs := text.takeWhile (· = '#')
  (List.isPrefixOf? ['"'] (text.dropWhile (· = '#'))).bind (Text.cut ('"' :: signs))

def stringAndRest : List Char → Option (String × List Char)
  | '"' :: text =>
      (escapedText text text).map fun (content, rest) => (String.ofList content, rest)
  | 'r' :: text => (rawText text).map fun (content, rest) => (String.ofList content, rest)
  | _ => none

def characterAndRest : List Char → Option (Char × List Char)
  | '\'' :: '\\' :: text => do
      let (character, afterEscape) ← escapeAndRest text
      let rest ← List.isPrefixOf? ['\''] afterEscape
      return (character, rest)
  | '\'' :: character :: '\'' :: rest => if character = '\'' then none else some (character, rest)
  | _ => none

/-! ## Numbers -/

def isWholeCharacter (character : Char) : Bool :=
  (Json.hexValue character).isSome || character = '_'

def isRealCharacter (character : Char) : Bool :=
  character.isDigit || ['e', 'E', '.', '+', '-', '_'].contains character

/-- The whole number that digits write in a base. Underscores between them do not count. -/
def wholeInBase (base : Nat) (digits : List Char) : Option Nat :=
  if digits.isEmpty || digits.head? = some '_' then
    none
  else
    (digits.filter (· ≠ '_')).foldlM
      (fun total digit =>
        (Json.hexValue digit).bind fun value =>
          if value < base then some (base * total + value) else none)
      0

/-- The magnitude of a whole number, with what follows it. A mark can give another base than ten. -/
def wholeAndRest (text : List Char) : Option (Nat × List Char) :=
  let (base, digits) :=
    match text with
    | '0' :: 'x' :: rest => (16, rest)
    | '0' :: 'b' :: rest => (2, rest)
    | '0' :: 'o' :: rest => (8, rest)
    | other => (10, other)
  (wholeInBase base (digits.takeWhile isWholeCharacter)).map fun amount =>
    (amount, digits.dropWhile isWholeCharacter)

def namedNumbers : List String :=
  ["inf", "+inf", "-inf", "NaN", "+NaN", "-NaN"]

def realAndRest (text : List Char) : Option (Float × List Char) :=
  let named := namedNumbers.findSome? fun name =>
    (afterWord name text).bind fun rest =>
      (Decimal.read name.toList).map fun amount => (amount, rest)
  let written :=
    (Decimal.read (text.takeWhile isRealCharacter)).map fun amount =>
      (amount, text.dropWhile isRealCharacter)
  named <|> written

/-- A whole number of 64 bits, with what follows it. A number with a sign is between `-2 ^ 63` and
`2 ^ 63 - 1`. -/
def boundedWholeAndRest (text : List Char) : Option (Int × List Char) :=
  match text with
  | '-' :: digits => do
      let (amount, rest) ← wholeAndRest digits
      if amount ≤ Nat.pow 2 63 then some (-(amount : Int), rest) else none
  | '+' :: digits => do
      let (amount, rest) ← wholeAndRest digits
      if amount < Nat.pow 2 63 then some ((amount : Int), rest) else none
  | digits => do
      let (amount, rest) ← wholeAndRest digits
      if amount < Nat.pow 2 64 then some ((amount : Int), rest) else none

/-- The number at the start of a document, with what follows it. It is read as a whole number if
only characters of whole numbers come, and if that fails as one with point or exponent. -/
def numberAndRest (text : List Char) : Option (Float × List Char) :=
  let (_, digits) := Decimal.signAndRest text
  if (digits.takeWhile isRealCharacter).length > (digits.takeWhile isWholeCharacter).length then
    realAndRest text
  else
    (boundedWholeAndRest text).map (fun (amount, rest) => (floatOfInt amount, rest)) <|>
      realAndRest text

end BranchingDialogue.Ron

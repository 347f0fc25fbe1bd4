import BranchingDialogue.Flag.Condition
import BranchingDialogue.Script.FlagName
import BranchingDialogue.Script.Literal
import BranchingDialogue.Text.WordCharacter

/-! An expression joins terms with `and` or `&&`. A term asks whether a flag is set, or not set, or
compares it with a literal. Conjunctions inside quoted literals do not divide terms. -/

namespace BranchingDialogue.Script

/-! ## Terms -/

/-- The number of characters of a quoted literal after its first quote. Inside, a backslash hides
the character after it, which can be anything but a line feed. -/
def quotedTail : List Char → Option Nat
  | [] => none
  | '"' :: _ => some 1
  | ['\\'] => none
  | '\\' :: character :: rest =>
      if character = '\n' then none else (quotedTail rest).map (· + 2)
  | _ :: rest => (quotedTail rest).map (· + 1)

def quotedSize : List Char → Nat
  | '"' :: rest => (quotedTail rest).elim 0 (· + 1)
  | _ => 0

/-- The number of characters of the conjunction that a text begins with, or zero. The word `and`
has blanks on both sides, and the sign `&&` can have them. -/
def conjunctionSize (text : List Char) : Nat :=
  let before := (text.takeWhile Text.isBlank).length
  match text.drop before with
  | 'a' :: 'n' :: 'd' :: rest =>
      let after := (rest.takeWhile Text.isBlank).length
      if before = 0 || after = 0 then 0 else before + 3 + after
  | '&' :: '&' :: rest => before + 2 + (rest.takeWhile Text.isBlank).length
  | _ => 0

def extendFirst (character : Char) : List (List Char) → List (List Char)
  | [] => [[character]]
  | first :: others => (character :: first) :: others

/-- The terms of a text, of which the next `kept` characters belong to a quoted literal, or the
next `dropped` characters to a conjunction. -/
def splitTermsFrom : Nat → Nat → List Char → List (List Char)
  | _, _, [] => [[]]
  | _, dropped + 1, _ :: rest => splitTermsFrom 0 dropped rest
  | kept + 1, 0, character :: rest => extendFirst character (splitTermsFrom kept 0 rest)
  | 0, 0, character :: rest =>
      match quotedSize (character :: rest), conjunctionSize (character :: rest) with
      | kept + 1, _ => extendFirst character (splitTermsFrom kept 0 rest)
      | 0, dropped + 1 => [] :: splitTermsFrom 0 dropped rest
      | 0, 0 => extendFirst character (splitTermsFrom 0 0 rest)

def splitTerms (text : List Char) : List (List Char) :=
  splitTermsFrom 0 0 text

/-! ## Comparisons -/

/-- The signs of comparison, a longer one before its beginning. -/
def comparisonSigns : List String :=
  ["==", "!=", ">=", "<=", ">", "<"]

def comparisonWords : List String :=
  ["is", "eq", "neq", "gte", "lte", "gt", "lt"]

/-- The literal text of a comparison. It is on one line and not empty. -/
def literalText (text : List Char) : Option (List Char) :=
  let literal := Text.trimStart text
  if literal.isEmpty || literal.contains '\n' then none else some literal

def signAndLiteral (text : List Char) : Option (String × List Char) :=
  comparisonSigns.findSome? fun sign =>
    ((List.isPrefixOf? sign.toList text).bind literalText).map fun literal => (sign, literal)

/-- The word of comparison at the start of a text, with the literal text after it. The word ends
where words end. -/
def wordAndLiteral (text : List Char) : Option (String × List Char) :=
  comparisonWords.findSome? fun word =>
    match List.isPrefixOf? word.toList text with
    | none => none
    | some rest =>
        if Text.startsOutsideWord rest then
          (literalText rest).map fun literal => (word, literal)
        else
          none

/-- The parts of a comparison after its dollar sign: flag, sign or word, and literal text. The
longest name with a comparison after it is the flag. A word of comparison cannot continue the last
word of the name. -/
def splitComparison (text : List Char) : Option (List Char × String × List Char) :=
  (nameSplits text).findSome? fun (name, rest) =>
    let trimmed := Text.trimStart rest
    let apart :=
      trimmed.length < rest.length || !(name.getLast?.any Text.isWordCharacter)
    let found :=
      signAndLiteral trimmed <|> (if apart then wordAndLiteral trimmed else none)
    found.map fun (symbol, literal) => (name, symbol, literal)

def readTerm (raw : List Char) : Option Condition :=
  let term := Text.trim raw
  match List.isPrefixOf? "not ".toList term <|> List.isPrefixOf? ['!'] term with
  | some rest => (readFlag (Text.trim rest)).map .isNotSet
  | none =>
      match readFlag term with
      | some flag => some (.isSet flag)
      | none => do
          let (name, symbol, literal) ← (List.isPrefixOf? ['$'] term).bind splitComparison
          let operator ← Operator.ofSymbol? symbol
          let value ← readLiteral literal
          return .compare (String.ofList name) operator value

/-- The conditions that an expression writes. An empty expression writes none. -/
def readExpression (raw : List Char) : Option (List Condition) :=
  let text := Text.trim raw
  if text.isEmpty then some [] else (splitTerms text).mapM readTerm

/-! ## Writing -/

/-- A condition as a term. A comparison without value has no written form. -/
def writeCondition (condition : Condition) : Option (List Char) :=
  let flag := '$' :: condition.flag.toList
  match condition.operator with
  | .isSet => some flag
  | .isNotSet => some ("not ".toList ++ flag)
  | operator => do
      let value ← condition.value
      let symbol ← operator.symbol?
      return flag ++ ' ' :: symbol.toList ++ ' ' :: writeLiteral value

def writeExpression (conditions : List Condition) : List Char :=
  " and ".toList.intercalate (conditions.filterMap writeCondition)

end BranchingDialogue.Script

import BranchingDialogue.Ron.Group

/-! The values of a document, and the attributes before it that ask for extensions of the notation.
A value can be nested only so deep: one that is present lies a level deeper than the whole, and an
item of a list, a map, a tuple or a record lies two levels deeper. -/

namespace BranchingDialogue.Ron

def nestingLimit : Nat :=
  128

def constants : List (String × Ron) :=
  [("true", .bool true), ("false", .bool false), ("None", .absent),
    ("inf", .number (1.0 / 0.0)), ("-inf", .number (-1.0 / 0.0)), ("NaN", .number (0.0 / 0.0))]

def constantAndRest (text : List Char) : Option (Ron × List Char) :=
  (constants.findSome? fun (word, value) => (afterWord word text).map fun rest => (value, rest)) <|>
    (List.isPrefixOf? ['(', ')'] text).map fun rest => (.unit, rest)

def textAndRest : Reader Ron :=
  fun text => (stringAndRest text).map fun (content, rest) => (.string content, rest)

def identifierAndRest : Reader Ron :=
  fun text => (nameAndRest text).map fun (word, rest) => (.identifier word, rest)

def scalarAndRest : Reader Ron :=
  fun text =>
    textAndRest text <|>
      (characterAndRest text).map (fun (content, rest) => (.char content, rest)) <|>
      (numberAndRest text).map fun (amount, rest) => (.number amount, rest)

/-- A value, from readers for a value that is present and for an item. Without a reader for items
there is no room for lists, maps, tuples and records. -/
def valueOver (implicit : Bool) (present : Reader Ron) (item : Option (Reader Ron)) : Reader Ron :=
  fun text =>
    match afterWord "Some" text with
    | some rest =>
        (presentAndRest implicit present rest).map fun (value, rest) => (.present value, rest)
    | none =>
        match constantAndRest text with
        | some found => some found
        | none =>
            match nameAndRest text with
            | some (name, rest) => do
                match ← skipBlank rest with
                | '(' :: inside => groupAndRest (some name) (← item) inside
                | other => return (.identifier name, other)
            | none => do
                match text with
                | '(' :: inside => groupAndRest none (← item) inside
                | '[' :: inside =>
                    let (items, rest) ← itemsAndRest (← item) ']' inside
                    return (.list items, rest)
                | '\x7b' :: inside =>
                    let key ← item
                    let (entries, rest) ← itemsAndRest (pairAndRest key fun _ => key) '\x7d' inside
                    return (.map entries, rest)
                | other => scalarAndRest other

def valueAndRest (implicit : Bool) : Nat → Reader Ron
  | 0, text => valueOver implicit (fun _ => none) none text
  | 1, text => valueOver implicit (valueAndRest implicit 0) (some fun _ => none) text
  | room + 2, text =>
      valueOver implicit (valueAndRest implicit (room + 1)) (some (valueAndRest implicit room)) text

/-! ## Extensions -/

def extensionNames : List String :=
  ["unwrap_newtypes", "implicit_some", "unwrap_variant_newtypes"]

/-- What follows tokens that come one after another with blanks after each. -/
def afterTokens : List String → List Char → Option (List Char)
  | [], text => some text
  | token :: rest, text =>
      (List.isPrefixOf? token.toList text).bind fun after =>
        (skipBlank after).bind (afterTokens rest)

def extensionsAndRest : Nat → List Char → Option (List String × List Char)
  | 0, _ => none
  | fuel + 1, text => do
      let (name, afterName) ← nameAndRest text
      if !extensionNames.contains name then
        none
      let (comma, next) ← skipComma afterName
      let continued := next.head?.any isNameCharacter
      if continued && comma then
        let (others, rest) ← extensionsAndRest fuel next
        return (name :: others, rest)
      else if continued then
        none
      else
        return ([name], next)

/-- The extensions that the attributes before a document ask for, and what follows them. -/
def attributesUpTo : Nat → Reader (List String)
  | 0, _ => none
  | fuel + 1, text => do
      let start ← skipBlank text
      if start.head? = some '#' then
        let inside ← afterTokens ["#", "!", "[", "enable", "("] start
        let (names, closing) ← extensionsAndRest inside.length inside
        let after ← afterTokens [")", "]"] closing
        let (others, rest) ← attributesUpTo fuel after
        return (names ++ others, rest)
      else
        return ([], start)

/-- The value that a document holds. Its reader is told whether a value alone is present. -/
def readWith {α : Type} (value : Bool → Reader α) (document : String) : Option α := do
  let text := document.toList
  let (extensions, start) ← attributesUpTo (text.length + 1) text
  let (content, rest) ← value (extensions.contains "implicit_some") start
  let last ← skipBlank rest
  if last.isEmpty then some content else none

end BranchingDialogue.Ron

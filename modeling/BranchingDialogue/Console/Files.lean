import BranchingDialogue.Script.Reader
import BranchingDialogue.Ron.Schema
import BranchingDialogue.Text.Cut

/-! The console tools see the files below a working directory as a list of paths with contents. A
path is a sequence of names with slashes between them, and one that begins with a slash starts at
the root. The names of a path are followed one by one, and each but the last must lead to a
directory. -/

namespace BranchingDialogue.Console

/-- The files that the tools see, and directories beside those that hold files, by the names on the
way to them from the working directory. -/
structure Files where
  contents : List (List String × String)
  directories : List (List String)

inductive FileError
  | notFound
  | notDirectory
  | isDirectory
  | nameTooLong
  deriving DecidableEq

def FileError.message : FileError → String
  | .notFound => "IO error: No such file or directory (os error 2)"
  | .notDirectory => "IO error: Not a directory (os error 20)"
  | .isDirectory => "IO error: Is a directory (os error 21)"
  | .nameTooLong => "IO error: File name too long (os error 36)"

/-! ## Paths -/

def nameLimit : Nat :=
  255

def pathLimit : Nat :=
  4095

def rootName : String :=
  "/"

/-- Whether names lead to the working directory, to the root, or to a directory above. -/
def leadUp (names : List String) : Bool :=
  names = [rootName] || names.all (· = "..")

/-- The names to which one more name leads. An empty name and a single dot lead nowhere, and two dots
lead back; above the root there is only the root. -/
def walk (names : List String) (name : String) : List String :=
  if name.isEmpty || name = "." then
    names
  else if name = ".." then
    if names = [rootName] then names else if leadUp names then names ++ [name] else names.dropLast
  else
    names ++ [name]

def startNames (path : String) : List String :=
  if path.startsWith "/" then [rootName] else []

def pathNames (path : String) : List String :=
  (path.splitOn "/").foldl walk (startNames path)

/-- The part of a file name after its last dot, if something comes before that dot. -/
def extension (name : String) : Option String :=
  match name.toList.reverse.span (· ≠ '.') with
  | (ending, '.' :: _ :: _) => some (String.ofList ending.reverse)
  | _ => none

def pathExtension (path : String) : Option String :=
  (pathNames path).getLast?.bind extension

def joinPath (path name : String) : String :=
  if path.endsWith "/" then path ++ name else path ++ "/" ++ name

inductive Place
  | file (content : String)
  | directory (names : List String)
  deriving DecidableEq

namespace Files

/-- The files with the paths of a list. Of two contents for one path the last counts. -/
def ofList (files : List (String × String)) (directories : List String) : Files :=
  { contents := (files.map fun (path, content) => (pathNames path, content)).reverse
    directories := directories.map pathNames }

def content? (files : Files) (names : List String) : Option String :=
  files.contents.lookup names

def hasDirectory (files : Files) (names : List String) : Bool :=
  leadUp names || files.directories.contains names ||
    files.contents.any fun (path, _) => names.isPrefixOf path && names.length < path.length

def step (files : Files) : Place → String → Except FileError Place
  | .file _, _ => .error .notDirectory
  | .directory names, name =>
      let next := walk names name
      if name.utf8ByteSize > nameLimit then
        .error .nameTooLong
      else if files.hasDirectory next then
        .ok (.directory next)
      else
        match files.content? next with
        | some content => .ok (.file content)
        | none => .error .notFound

def locate (files : Files) (path : String) : Except FileError Place :=
  if path.isEmpty then
    .error .notFound
  else if path.utf8ByteSize > pathLimit then
    .error .nameTooLong
  else
    (path.splitOn "/").foldlM files.step (.directory (startNames path))

def read (files : Files) (path : String) : Except FileError String := do
  match ← files.locate path with
  | .file content => return content
  | .directory _ => throw .isDirectory

/-- Whether a sequence of names comes before another one, or is equal to it. -/
def comesBefore : List String → List String → Bool
  | [], _ => true
  | _ :: _, [] => false
  | left :: lefts, right :: rights =>
      left < right || (left = right && comesBefore lefts rights)

def isDirectory (files : Files) (path : String) : Bool :=
  match files.locate path with
  | .ok (.directory _) => true
  | _ => false

/-- The scripts below a directory with a path and some names, in the order of their names: the
files whose names end in `.yarn` or `.txt`. -/
def scriptsBelow (files : Files) (directory : String) (names : List String) : List String :=
  let below := files.contents.filterMap fun (path, _) =>
    if names.isPrefixOf path && names.length < path.length then
      some (path.drop names.length)
    else
      none
  let isScript := fun (path : List String) =>
    match path.getLast?.bind extension with
    | some "yarn" | some "txt" => files.isDirectory (path.dropLast.foldl joinPath directory)
    | _ => false
  ((below.eraseDups.filter isScript).mergeSort comesBefore).map fun path =>
    path.foldl joinPath directory

end Files

/-! ## Schemas and scripts -/

inductive SchemaFileError
  | file (error : FileError)
  | malformedJson
  | malformedRon
  | invalid (error : SchemaError)
  deriving DecidableEq

def SchemaFileError.message : SchemaFileError → String
  | .file error => error.message
  | .malformedJson => "JSON error: malformed document"
  | .malformedRon => "RON deserialization error: malformed document"
  | .invalid error => error.message

def SchemaFileError.ofText (malformed : SchemaFileError) : SchemaTextError → SchemaFileError
  | .malformed => malformed
  | .invalid error => .invalid error

/-- The schema of a file, which is written in JSON if its name says so, and otherwise in RON. -/
def loadSchema (files : Files) (path : String) : Except SchemaFileError FlagSchema := do
  let text ← (files.read path).mapError .file
  if pathExtension path = some "json" then
    (FlagSchema.ofJson text).mapError (.ofText .malformedJson)
  else
    (FlagSchema.ofRon text).mapError (.ofText .malformedRon)

inductive ScriptFileError
  | file (error : FileError)
  | script (error : Script.ScriptError)
  deriving DecidableEq

def ScriptFileError.message : ScriptFileError → String
  | .file error => error.message
  | .script error => error.message

def loadScript (files : Files) (mode : Script.Mode) (path : String) :
    Except ScriptFileError DialogueTree := do
  let text ← (files.read path).mapError .file
  (Script.read mode text.toList).mapError .script

/-! ## Results -/

/-- What a tool leaves behind: its exit code and the lines that it prints. -/
structure Outcome where
  code : Nat := 0
  output : String := ""
  errors : String := ""
  deriving DecidableEq

def linesText (lines : List String) : String :=
  String.join (lines.map fun line => line ++ "\n")

def failure (printed : List String) (message : String) : Outcome :=
  { code := 1, output := linesText printed, errors := linesText [message] }

end BranchingDialogue.Console

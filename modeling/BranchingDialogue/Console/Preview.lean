import BranchingDialogue.Console.Files
import BranchingDialogue.Json.Dialogue
import BranchingDialogue.Play.Session

/-! The preview plays a script in the terminal. It shows the current node and a prompt, reads a
line, does what the line asks for and starts again. -/

namespace BranchingDialogue.Console.Preview

def usage : String :=
  "Usage: preview <file.yarn> [--schema <file.ron|file.json>] [--start <node>] [--json]"

structure Options where
  schema : Option String := none
  start : Option String := none
  json : Bool := false
  deriving DecidableEq

def readOptions (options : Options) : List String → Except String Options
  | [] => .ok options
  | "--schema" :: path :: rest => readOptions { options with schema := some path } rest
  | "--start" :: node :: rest => readOptions { options with start := some node } rest
  | "--json" :: rest => readOptions { options with json := true } rest
  | other :: _ => .error other

/-! ## What is shown -/

def visitLines (visit : Visit) : List String :=
  let spoken := (Text.lines visit.content.toList).map fun line =>
    match visit.speaker with
    | none | some "" => String.ofList line
    | some name => name ++ ": " ++ String.ofList line
  let choices := visit.choices.mapIdx fun index choice =>
    let number := index + 1
    let text := choice.text
    s!"  {number}. {text}"
  let empty :=
    if visit.isDecision && visit.choices.isEmpty then ["  (no choices available)"] else []
  spoken ++ choices ++ empty

def stateLines (session : Session) : List String :=
  let values := session.store.values.entries.map fun (id, value) =>
    let shown := value.display
    s!"  ${id} = {shown}"
  values ++ session.store.memory.names.map fun id => s!"  ${id} (memory)"

def helpLines : List String :=
  ["  <enter>   continue",
    "  <n>       pick choice n",
    "  state     show flag values",
    "  restart   start over",
    "  quit      exit"]

/-! ## Commands -/

inductive Command
  | quit
  | help
  | state
  | restart
  | next
  | choose (number : Nat)
  | unknown (text : String)
  deriving DecidableEq

/-- The number that a text writes with an optional plus, if it has room in 64 bits. -/
def readChoiceNumber (text : List Char) : Option Nat :=
  let digits := (List.isPrefixOf? ['+'] text).getD text
  let number := Decimal.wholeNumber digits
  if !digits.isEmpty && digits.all Char.isDigit && number < Nat.pow 2 64 then some number else none

/-- The command of a line. An empty line goes on, except at a decision. -/
def readCommand (isDecision : Bool) (line : List Char) : Command :=
  let word := Text.trim line
  let text := String.ofList word
  if text = "quit" || text = "exit" || text = "q" then
    .quit
  else if text = "help" then
    .help
  else if text = "state" then
    .state
  else if text = "restart" then
    .restart
  else if text.isEmpty && !isDecision then
    .next
  else
    match readChoiceNumber word with
    | some (number + 1) => .choose (number + 1)
    | _ => .unknown text

/-! ## Playing -/

/-- A session, and how many of its warnings have been shown. -/
structure Player where
  session : Session
  shown : Nat := 0

/-- What is printed before a line is read, and the visit and the player after it. A finished session
has no visit. -/
def showNode (player : Player) : String × Option (Visit × Player) :=
  match player.session.look with
  | (none, session) => (linesText (["", "[end of dialogue]"] ++ stateLines session), none)
  | (some visit, session) =>
      let fresh := (session.warnings.drop player.shown).map fun warning =>
        "  ! " ++ warning.message
      (linesText (visitLines visit ++ fresh) ++ "> ",
        some (visit, ⟨session, session.warnings.length⟩))

def afterMove (player : Player) (moved : Except PlayError (Option Visit) × Session) :
    String × Option Player :=
  match moved with
  | (.ok _, session) => ("", some { player with session })
  | (.error error, session) => (linesText ["  " ++ error.message], some { player with session })

/-- What is printed for a line, and the player after it. There is none when the line ends the
preview. -/
def answer (visit : Visit) (player : Player) (line : List Char) : String × Option Player :=
  match readCommand visit.isDecision line with
  | .quit => ("", none)
  | .help => (linesText helpLines, some player)
  | .state => (linesText (stateLines player.session), some player)
  | .restart => ("", some ⟨player.session.restart, 0⟩)
  | .next => afterMove player player.session.advance
  | .choose number => afterMove player (player.session.choose (number - 1))
  | .unknown text => (linesText ["  Unknown command: " ++ text], some player)

def playLines (player : Player) : List (List Char) → String
  | [] => (showNode player).1
  | line :: rest =>
      match showNode player with
      | (shown, none) => shown
      | (shown, some (visit, looked)) =>
          match answer visit looked line with
          | (printed, none) => shown ++ printed
          | (printed, some next) => shown ++ printed ++ playLines next rest

/-! ## The command line -/

/-- How a preview begins: it stops at once, or it prints something and plays. -/
inductive Opening
  | stop (outcome : Outcome)
  | play (printed : String) (player : Player)

/-- The session for a tree under the options. The schema is loaded only for a tree with nodes. -/
def buildSession (files : Files) (options : Options) (tree : DialogueTree) :
    Except String Session := do
  let schema ←
    match options.schema with
    | none => pure FlagSchema.empty
    | some path =>
        if tree.isEmpty then
          pure FlagSchema.empty
        else
          (loadSchema files path).mapError fun error => "schema error: " ++ error.message
  (Session.build tree schema .empty options.start).mapError PlayError.message

def openTree (files : Files) (options : Options) (tree : DialogueTree) : Opening :=
  let title := tree.title
  let size := tree.nodes.size
  let loaded := s!"Loaded '{title}' ({size} nodes)"
  if options.json then
    .stop { output := linesText [tree.toText] }
  else
    match buildSession files options tree with
    | .error message => .stop (failure [loaded] ("ERROR: " ++ message))
    | .ok session =>
        .play (linesText [loaded, "Type 'help' for commands.", ""]) { session }

def begin (files : Files) : List String → Opening
  | [] | "--help" :: _ | "-h" :: _ => .stop { output := linesText [usage] }
  | script :: arguments =>
      match readOptions {} arguments with
      | .error argument =>
          .stop (failure [usage] s!"Unknown argument: {argument}")
      | .ok options =>
          match loadScript files .lenient script with
          | .error error =>
              .stop (failure [] ("ERROR: Failed to load script: " ++ error.message))
          | .ok tree => openTree files options tree

def run (files : Files) (arguments : List String) (input : String) : Outcome :=
  match begin files arguments with
  | .stop outcome => outcome
  | .play printed player =>
      { output := printed ++ playLines player (Text.lines input.toList) }

end BranchingDialogue.Console.Preview

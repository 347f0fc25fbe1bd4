import BranchingDialogue.Console.LintReport
import BranchingDialogue.Console.Preview

/-! The first argument names the tool, and the others are its arguments. The files that the
arguments name are read before the tool starts. -/

namespace BranchingDialogue.Console

/-- The beginnings of a path that end with one of its names. -/
def pathStarts (path : String) : List String :=
  let names := path.splitOn "/"
  names.mapIdx fun index _ => "/".intercalate (names.take (index + 1))

def isDirectoryAt (path : String) : IO Bool := do
  ((← IO.currentDir) / path).isDir

def fileAt (path : String) : IO (Option (String × String)) := do
  let place := (← IO.currentDir) / path
  if (← place.pathExists) && !(← isDirectoryAt path) then
    return some (path, ← IO.FS.readFile place)
  else
    return none

def filesBelow (directory : String) : IO (List (String × String)) := do
  let place := (← IO.currentDir) / directory
  let found ← place.walkDir
  let start := place.toString.length
  found.toList.filterMapM fun file => do
    if ← file.isDir then
      return none
    else
      let content ← IO.FS.readFile file
      return some (joinPath directory (file.toString.drop start).toString, content)

/-- The files that some arguments name, the directories on the way to them and the files below a
directory that is named. -/
def filesOfAll (arguments : List String) : IO Files := do
  let starts := arguments.flatMap pathStarts
  let directories ← starts.filterM isDirectoryAt
  let files ← starts.filterMapM fileAt
  let targets ← arguments.filterM isDirectoryAt
  let below ← targets.mapM filesBelow
  return .ofList (files ++ below.flatten) directories

def finish (outcome : Outcome) : IO UInt32 := do
  IO.print outcome.output
  IO.eprint outcome.errors
  return outcome.code.toUInt32

partial def playInteractively (player : Preview.Player) : IO Unit := do
  let (shown, looked) := Preview.showNode player
  IO.print shown
  (← IO.getStdout).flush
  match looked with
  | none => return
  | some (visit, current) =>
      let line ← (← IO.getStdin).getLine
      if line.isEmpty then
        return
      let (printed, next) := Preview.answer visit current line.toList
      IO.print printed
      match next with
      | none => return
      | some player => playInteractively player

end BranchingDialogue.Console

open BranchingDialogue.Console in
def main : List String → IO UInt32
  | "script_linter" :: arguments => do
      finish (LintReport.run (← filesOfAll arguments) arguments)
  | "preview" :: arguments => do
      match Preview.begin (← filesOfAll arguments) arguments with
      | .stop outcome => finish outcome
      | .play printed player =>
          IO.print printed
          playInteractively player
          return 0
  | _ => do
      IO.print (linesText [LintReport.usage, Preview.usage])
      return 0

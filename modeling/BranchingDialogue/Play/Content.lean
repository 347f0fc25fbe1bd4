import BranchingDialogue.Flag.Raise
import BranchingDialogue.Script.Command
import BranchingDialogue.Text.Lines

/-! Content is played line by line. The set commands of a line are carried out from left to right,
and what is left of the line is shown with single spaces between its words. -/

namespace BranchingDialogue

open Script

namespace Store

/-- The store after a command gives a flag a value, with a warning when the value is not of the
declared type. A dialogue flag is remembered or forgotten too. -/
def assign (store : Store) (schema : FlagSchema) (flag : String) (value : Value) :
    Store × List FlagWarning :=
  match schema.get? flag with
  | none => (store.set flag value, [])
  | some definition =>
      if definition.isTransient then
        let marked := if value.isTruthy then store.remember flag else store.forget flag
        (marked.set flag value, [])
      else
        match definition.valueType with
        | none => (store.set flag value, [])
        | some valueType =>
            if valueType.admits value then
              (store.set flag value, [])
            else
              match valueType.convert value with
              | some converted =>
                  (store.set flag converted, [.typeCoerced flag value converted])
              | none => (store.set flag (.bool true), [.commandFallback flag value])

/-- The store after a command. A command without right-hand side does nothing. -/
def runCommand (store : Store) (schema : FlagSchema) (raw : RawCommand) :
    Store × List FlagWarning :=
  match raw.read with
  | none => (store, [])
  | some command => store.assign schema command.flag (command.expression.resolve store)

def runCommands (store : Store) (schema : FlagSchema) :
    List RawCommand → Store × List FlagWarning
  | [] => (store, [])
  | command :: rest =>
      let (next, warnings) := store.runCommand schema command
      let (last, others) := next.runCommands schema rest
      (last, warnings ++ others)

end Store

/-- What a line shows. A line without commands is shown as it is, and one with nothing but commands
is not shown. -/
def shownLine (line : List Char) : Option (List Char) :=
  if (commands line).isEmpty then
    some line
  else
    let shown := Text.singleSpaced (withoutCommands line)
    if shown.isEmpty then none else some shown

def shownContent (content : String) : String :=
  String.ofList (Text.joinLines ((Text.lines content.toList).filterMap shownLine))

def contentCommands (content : String) : List RawCommand :=
  (Text.lines content.toList).flatMap commands

def Store.play (store : Store) (schema : FlagSchema) (content : String) :
    Store × List FlagWarning :=
  store.runCommands schema (contentCommands content)

end BranchingDialogue

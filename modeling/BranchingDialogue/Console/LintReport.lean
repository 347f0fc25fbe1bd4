import BranchingDialogue.Console.Files
import BranchingDialogue.Graph.Lint

/-! The linter checks one script, or all scripts in a directory, and prints a report. -/

namespace BranchingDialogue.Console.LintReport

def usage : String :=
  "Usage: script_linter <file.yarn|dir> [--schema <file.ron|file.json>] [--strict]"

structure Options where
  schema : Option String := none
  mode : Script.Mode := .lenient
  deriving DecidableEq

def readOptions (options : Options) : List String → Except String Options
  | [] => .ok options
  | "--schema" :: path :: rest => readOptions { options with schema := some path } rest
  | "--strict" :: rest => readOptions { options with mode := .strict } rest
  | other :: _ => .error other

structure Entry where
  lines : List String
  errors : Nat
  warnings : Nat

def issueLine (issue : Issue) : String :=
  let kind := if issue.isError then "ERROR" else "WARNING"
  let found := issue.message
  s!"  {kind}: {found}"

def entry (files : Files) (options : Options) (schema : FlagSchema) (path : String) : Entry :=
  match loadScript files options.mode path with
  | .error error =>
      let found := error.message
      ⟨[s!"ERROR: {path}: {found}"], 1, 0⟩
  | .ok tree =>
      let issues := tree.lint schema
      let size := tree.nodes.size
      ⟨s!"{path} ({size} nodes)" :: issues.map issueLine, issues.countP Issue.isError,
        issues.countP fun issue => !issue.isError⟩

def report (printed : List String) (entries : List Entry) : Outcome :=
  let errors := entries.foldl (fun total entry => total + entry.errors) 0
  let warnings := entries.foldl (fun total entry => total + entry.warnings) 0
  let count := entries.length
  let passed := if errors = 0 && warnings = 0 then ["", "All checks passed!"] else []
  { code := if errors > 0 then 1 else 0
    output := linesText <|
      printed ++ ["", "=== Script Lint Report ===", ""] ++ entries.flatMap Entry.lines ++ passed ++
        ["", s!"Summary: {count} scripts, {errors} errors, {warnings} warnings"] }

def targetScripts (files : Files) (target : String) : Option (List String) :=
  match files.locate target with
  | .ok (.file _) => some [target]
  | .ok (.directory names) => some (files.scriptsBelow target names)
  | .error _ => none

def check (files : Files) (options : Options) (schema : FlagSchema) (printed : List String)
    (target : String) : Outcome :=
  match targetScripts files target with
  | none => failure printed s!"ERROR: Path '{target}' does not exist"
  | some scripts => report printed (scripts.map (entry files options schema))

def run (files : Files) : List String → Outcome
  | [] | "--help" :: _ | "-h" :: _ => { output := linesText [usage] }
  | target :: arguments =>
      match readOptions {} arguments with
      | .error argument => failure [] s!"Unknown argument: {argument}"
      | .ok options =>
          match options.schema.map (loadSchema files) with
          | none => check files options .empty [] target
          | some (.error error) =>
              let found := error.message
              failure [] s!"ERROR: Failed to load schema: {found}"
          | some (.ok schema) =>
              let size := schema.size
              check files options schema [s!"Loaded {size} flag definitions"] target

end BranchingDialogue.Console.LintReport

import StLint.Analysis.Engine
import StLint.CommandLine.Command
import StLint.CommandLine.FileTree
import StLint.Graph.Json
import StLint.Json.Printer
import StLint.Log.Json
import StLint.Pou.Json
import StLint.Report.Basic
import StLint.Report.Json
import StLint.Settings.Yaml
import StLint.Suggestion.Json

/-!
# Running a command

A command is a function of its arguments and of what its paths lead to. It **writes nothing when it
fails**: a file that cannot be read or is refused ends it.

* `Command.output?` — what a command writes.
* `run` — the same from arguments, with the exit code.
-/

namespace StLint.CommandLine

/-- What paths lead to. -/
abbrev Files := String → Option FileTree

/-- The text of a file. -/
def Files.text? (files : Files) (path : String) : Option String :=
  match files path with
  | some (.file text) => text
  | _ => none

/-- The sources that paths stand for, with their labels, if all of them can be read. -/
def Files.sources? (files : Files) (paths : List String) : Option (List (String × List Char)) := do
  let trees ← paths.mapM fun p => (files p).map fun t => (p, t)
  (trees.flatMap fun (p, t) => t.sources p).mapM fun (label, text) =>
    text.map fun s => (label, s.toList)

/-- The units of the sources that paths stand for; a source without units is passed over. -/
def Files.units? (files : Files) (paths : List String) : Option (List Pou) :=
  (files.sources? paths).map fun sources =>
    (Pou.parseBatch sources).flatMap fun
      | .ok units => units
      | .error _ => []

/-- An optional file, read. -/
def Files.read? (files : Files) (path : Option String) (read : String → Option α) :
    Option (Option α) :=
  match path with
  | none => some none
  | some p => ((files.text? p).bind read).map some

/-- A value on lines of its own. -/
def page (v : Json) : String := v.pretty ++ "\n"

namespace Command

/-- The units of one file. -/
def parseOutput? (files : Files) (path : String) : Option String := do
  let text ← files.text? path
  match Pou.parseFile (FileTree.label path) text.toList with
  | .ok units => some (page (.ofList Pou.toJson units))
  | .error _ => none

/-- The settings that a text spells. -/
def settings? (text : String) : Option Settings :=
  match SettingsFormat.yaml.load text with
  | .ok s => some s
  | .error _ => none

/-- The report that options ask for. -/
def report? (files : Files) (o : AnalyzeOptions) : Option Report := do
  let settings := (← files.read? o.config settings?).getD .default
  let log ← files.read? o.logs RuntimeLog.ofText?
  let units ← files.units? o.paths
  return (Engine.of settings).analyze units log (.of o.severities o.types o.suggestions)
    (.ofSettings settings.suggestions none)

/-- What a command writes. -/
def output? (files : Files) : Command → Option String
  | parse file => parseOutput? files file
  | analyze o =>
    (report? files o).map fun r => match o.format with
      | .json => page r.toJson
      | .text => r.text
  | graph paths granularity =>
    (files.units? paths).map fun units => page (DependencyGraph.build units granularity).toJson

end Command

/-- What a run ends with. -/
structure Outcome where
  exit : Nat
  stdout : String
  deriving DecidableEq, Repr

/-- Runs a command: exit code 1 when it fails, and 2 when its usage is not kept. -/
def run (args : List String) (files : Files) : Outcome :=
  match Command.ofArguments args with
  | .error (.usage, _) => ⟨2, ""⟩
  | .error (.help, topic) => ⟨0, help topic⟩
  | .ok c =>
    match c.output? files with
    | some s => ⟨0, s⟩
    | none => ⟨1, ""⟩

end StLint.CommandLine

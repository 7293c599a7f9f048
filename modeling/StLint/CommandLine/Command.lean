import StLint.CommandLine.Argument
import StLint.Graph.Build
import StLint.Issue.Basic
import StLint.Text.Basic

/-!
# Commands

* `parse FILE` — the units of one file.
* `analyze PATHS` — the report on files and directories.
* `graph PATHS` — their dependency graph.
-/

namespace StLint.CommandLine

/-- How a report is written. -/
inductive Format where
  | json
  | text
  deriving DecidableEq, Repr

/-- What is analysed and how. -/
structure AnalyzeOptions where
  paths : List String
  /-- A settings file. -/
  config : Option String
  /-- A log file. -/
  logs : Option String
  severities : List Severity
  types : List IssueType
  suggestions : Bool
  format : Format
  deriving Repr

/-- What the command line asks for. -/
inductive Command where
  | parse (file : String)
  | analyze (options : AnalyzeOptions)
  | graph (paths : List String) (granularity : Granularity)
  deriving Repr

namespace Command

/-! ## Reading -/

/-- A format by its word. -/
def format? (s : String) : Option Format := [("json", Format.json), ("text", .text)].lookup s

/-- What the nodes of a graph stand for, by its word. -/
def granularity? (s : String) : Option Granularity :=
  [("unit", Granularity.unit), ("file", .file)].lookup s

/-- The values that commas separate. -/
def listed? (read : String → Option α) (s : String) : Option (List α) :=
  (Text.splitOn ',' s.toList).mapM fun part => read (String.ofList part)

/-- An option for a path, which is not empty. -/
def pathOption (long : String) (short : Char) : OptionSpec :=
  ⟨long, some short, true, false, fun s => !s.isEmpty⟩

/-- An option for values that commas separate. -/
def listOption (long : String) (read : String → Option α) : OptionSpec :=
  ⟨long, none, true, true, fun s => (listed? read s).isSome⟩

/-- An option for one of several words. -/
def choiceOption (long : String) (short : Char) (read : String → Option α) : OptionSpec :=
  ⟨long, some short, true, false, fun s => (read s).isSome⟩

/-- One file. -/
def parseSpec : ArgumentSpec := ⟨[], some 1⟩

/-- Paths, and the options of `analyze`. -/
def analyzeSpec : ArgumentSpec :=
  ⟨[pathOption "config" 'c', pathOption "logs" 'l', listOption "severity" Severity.ofWord?,
    listOption "types" IssueType.ofWord?, ⟨"suggestions", none, false, false, fun _ => true⟩,
    choiceOption "format" 'f' format?], none⟩

/-- Paths and a granularity. -/
def graphSpec : ArgumentSpec := ⟨[choiceOption "granularity" 'g' granularity?], none⟩

/-- The usage is kept. -/
def orUsage : Option α → Except Stop α
  | some a => .ok a
  | none => .error .usage

/-- One path or more. -/
def paths? (is : List Item) : Option (List String) :=
  match is.filterMap Item.positional? with
  | [] => none
  | ps => some ps

/-- The value of an option, if it is given. -/
def value? (name : String) (is : List Item) : Option String := is.findSome? (Item.value? name)

/-- All values of an option. -/
def values (name : String) (read : String → Option α) (is : List Item) : List α :=
  (is.filterMap (Item.value? name)).flatMap fun s => (listed? read s).getD []

/-- The file of `parse`. -/
def parseOf? (is : List Item) : Option Command := (is.findSome? Item.positional?).map .parse

/-- The list, or all values where it is empty. -/
def orAll (all given : List α) : List α := if given.isEmpty then all else given

/-- The paths and options of `analyze`. Where no severity or no type is given, all are meant. -/
def analyzeOf? (is : List Item) : Option Command :=
  (paths? is).map fun paths => .analyze {
    paths
    config := value? "config" is
    logs := value? "logs" is
    severities := orAll Severity.all (values "severity" Severity.ofWord? is)
    types := orAll IssueType.all (values "types" IssueType.ofWord? is)
    suggestions := (value? "suggestions" is).isSome
    format := ((value? "format" is).bind format?).getD .json }

/-- The paths and the granularity of `graph`. -/
def graphOf? (is : List Item) : Option Command :=
  (paths? is).map fun paths =>
    .graph paths (((value? "granularity" is).bind granularity?).getD .unit)

/-- What may follow the name of a command, and the command of the items that do. -/
def named? (name : String) : Option (ArgumentSpec × (List Item → Option Command)) :=
  [("parse", parseSpec, parseOf?), ("analyze", analyzeSpec, analyzeOf?),
    ("graph", graphSpec, graphOf?)].lookup name

/-- The command that arguments ask for; a request for help comes with the name of the command that
    it is about. -/
def ofArguments : List String → Except (Stop × Option String) Command
  | [] => .error (.usage, none)
  | name :: args =>
    match named? name with
    | some (spec, read) =>
      match (items spec args).bind fun is => orUsage (read is) with
      | .ok c => .ok c
      | .error e => .error (e, some name)
    | none =>
      if name = "-h" || name = "--help" then .error (.help, none)
      else if name = "help" then
        match args with
        | [] => .error (.help, none)
        | [topic] =>
          if (named? topic).isSome || topic = "help" then .error (.help, some topic)
          else .error (.usage, none)
        | _ => .error (.usage, none)
      else .error (.usage, none)

/-! ## Files -/

/-- The paths of sources. -/
def sourcePaths : Command → List String
  | parse file => [file]
  | analyze o => o.paths
  | graph paths _ => paths

/-- All paths that a command reads. -/
def paths (c : Command) : List String :=
  c.sourcePaths ++ match c with
    | analyze o => o.config.toList ++ o.logs.toList
    | _ => []

end Command

/-! ## Help texts -/

/-- The help about the program. -/
def generalHelp : String :=
  "Structured Text parser, dependency graph and static analysis\n\n" ++
  "Usage: plc-analyze <COMMAND>\n\n" ++
  "Commands:\n" ++
  "  parse    Parse one file and print its units as JSON\n" ++
  "  analyze  Analyze files and directories\n" ++
  "  graph    Print the dependency graph as JSON\n" ++
  "  help     Print this message or the help of the given subcommand(s)\n\n" ++
  "Options:\n" ++
  "  -h, --help  Print help\n"

/-- The help about `parse`. -/
def parseHelp : String :=
  "Parse one file and print its units as JSON\n\n" ++
  "Usage: plc-analyze parse <FILE>\n\n" ++
  "Arguments:\n" ++
  "  <FILE>  Source file\n\n" ++
  "Options:\n" ++
  "  -h, --help  Print help\n"

/-- The help about `analyze`. -/
def analyzeHelp : String :=
  "Analyze files and directories\n\n" ++
  "Usage: plc-analyze analyze [OPTIONS] <PATHS>...\n\n" ++
  "Arguments:\n" ++
  "  <PATHS>...  Files or directories (searched recursively)\n\n" ++
  "Options:\n" ++
  "  -c, --config <CONFIG>      YAML analyzer config\n" ++
  "  -l, --logs <LOGS>          Runtime logs as JSON\n" ++
  "      --severity <SEVERITY>  Severities to report (default: all)\n" ++
  "      --types <TYPES>        Issue types to report (default: all)\n" ++
  "      --suggestions          Include improvement suggestions\n" ++
  "  -f, --format <FORMAT>      [default: json] [possible values: json, text]\n" ++
  "  -h, --help                 Print help\n"

/-- The help about `graph`. -/
def graphHelp : String :=
  "Print the dependency graph as JSON\n\n" ++
  "Usage: plc-analyze graph [OPTIONS] <PATHS>...\n\n" ++
  "Arguments:\n" ++
  "  <PATHS>...  \n\n" ++
  "Options:\n" ++
  "  -g, --granularity <GRANULARITY>  [default: unit] [possible values: unit, file]\n" ++
  "  -h, --help                       Print help\n"

/-- The help about `help`. -/
def helpHelp : String :=
  "Print this message or the help of the given subcommand(s)\n\n" ++
  "Usage: plc-analyze help [COMMAND]...\n\n" ++
  "Arguments:\n" ++
  "  [COMMAND]...  Print help for the subcommand(s)\n"

/-- The help about a command, or about the program. -/
def help (topic : Option String) : String :=
  match topic with
  | some "parse" => parseHelp
  | some "analyze" => analyzeHelp
  | some "graph" => graphHelp
  | some "help" => helpHelp
  | _ => generalHelp

end StLint.CommandLine

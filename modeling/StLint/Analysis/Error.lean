import StLint.Pou.Parse
import StLint.Settings.Validation

/-!
# Failures of an analysis

A failure names the stage at which something went wrong and, where it is known, the unit and line.
-/

namespace StLint

/-- The stage at which an analysis fails. -/
inductive Stage where
  | parse
  | analysis
  | suggestion
  | config
  | io
  | internal
  deriving DecidableEq, Repr

namespace Stage

/-- All stages. -/
def all : List Stage := [.parse, .analysis, .suggestion, .config, .io, .internal]

/-- The word for a stage. -/
def word : Stage → String
  | parse => "parse"
  | analysis => "analysis"
  | suggestion => "suggestion"
  | config => "config"
  | io => "io"
  | internal => "internal"

end Stage

/-- A failure. -/
structure Failure where
  stage : Stage
  message : String
  unit : Option String
  line : Option Nat
  deriving DecidableEq, Repr

namespace Failure

/-- A failure at a stage, with nothing known about where. -/
def of (stage : Stage) (message : String) : Failure := ⟨stage, message, none, none⟩

/-- A source without units, as a failure. -/
def ofParseError (e : ParseError) : Failure := of .parse e.message

/-- Refused settings, as a failure. -/
def ofSettingsError (e : SettingsError) : Failure := of .config e.message

/-- The text of a failure. A line is given only with its unit. -/
def text (f : Failure) : String :=
  "[" ++ f.stage.word ++ "] " ++ f.message ++
    match f.unit with
    | none => ""
    | some u => " in " ++ u ++ (f.line.map fun n => ":" ++ toString n).getD ""

end Failure

end StLint

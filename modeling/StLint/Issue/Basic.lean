import StLint.Digest.Sha256
import StLint.Text.Basic

/-!
# Issues

An issue is one finding about some units. Its **identity** is its type, units, line, title and
description; its id is a digest of these, so the same finding has the same id in every run.
-/

namespace StLint

open Text

/-- How grave an issue is. -/
inductive Severity where
  | critical
  | error
  | warning
  | info
  deriving DecidableEq, Repr, Inhabited

namespace Severity

/-- All severities, gravest first. -/
def all : List Severity := [.critical, .error, .warning, .info]

/-- The word for a severity. -/
def word : Severity → String
  | critical => "critical"
  | error => "error"
  | warning => "warning"
  | info => "info"

/-- The name of a severity in data. -/
def name : Severity → String
  | critical => "Critical"
  | error => "Error"
  | warning => "Warning"
  | info => "Info"

/-- The weight of a severity in the ranking. -/
def score : Severity → Float
  | critical => 4.0
  | error => 3.0
  | warning => 2.0
  | info => 1.0

/-- The severity that a word stands for, in any case. -/
def ofWord? (s : String) : Option Severity :=
  all.find? fun k => k.word.toList == lower s.toList

/-- The message about a word that stands for no severity. -/
def unknownMessage (s : String) : String :=
  "Unknown severity '" ++ s ++ "'. Valid: critical, error, warning, info"

end Severity

/-- What an issue is about. -/
inductive IssueType where
  | syntaxError
  | runtimeError
  | logicError
  | performanceIssue
  | styleViolation
  | safetyConcern
  | potentialImprovement
  | circularDependency
  | unusedVariable
  deriving DecidableEq, Repr, Inhabited

namespace IssueType

/-- All types. -/
def all : List IssueType :=
  [.syntaxError, .runtimeError, .logicError, .performanceIssue, .styleViolation, .safetyConcern,
    .potentialImprovement, .circularDependency, .unusedVariable]

/-- The word for a type. -/
def word : IssueType → String
  | syntaxError => "syntax_error"
  | runtimeError => "runtime_error"
  | logicError => "logic_error"
  | performanceIssue => "performance_issue"
  | styleViolation => "style_violation"
  | safetyConcern => "safety_concern"
  | potentialImprovement => "potential_improvement"
  | circularDependency => "circular_dependency"
  | unusedVariable => "unused_variable"

/-- The name of a type in data. -/
def name : IssueType → String
  | syntaxError => "SyntaxError"
  | runtimeError => "RuntimeError"
  | logicError => "LogicError"
  | performanceIssue => "PerformanceIssue"
  | styleViolation => "StyleViolation"
  | safetyConcern => "SafetyConcern"
  | potentialImprovement => "PotentialImprovement"
  | circularDependency => "CircularDependency"
  | unusedVariable => "UnusedVariable"

/-- A type that counts against the safety score. -/
def isSafety : IssueType → Bool
  | safetyConcern | runtimeError => true
  | _ => false

/-- A type that counts against the maintainability score. -/
def isMaintainability : IssueType → Bool
  | styleViolation | unusedVariable | circularDependency => true
  | _ => false

/-- The type that a word stands for, in any case and with hyphens for underscores. -/
def ofWord? (s : String) : Option IssueType :=
  let t := (lower s.toList).map fun c => if c = '-' then '_' else c
  all.find? fun k => k.word.toList == t

/-- The message about a word that stands for no type. -/
def unknownMessage (s : String) : String := "Unknown issue type '" ++ s ++ "'"

end IssueType

/-- One finding. -/
structure Issue where
  id : String
  type : IssueType
  severity : Severity
  title : String
  description : String
  unitNames : List String
  line : Option Nat
  suggestion : String
  /-- How likely the finding is to be right, from 0 to 1. -/
  confidence : Float
  /-- What reported the finding. -/
  source : String
  deriving Repr, Inhabited

/-- What makes two issues the same finding. -/
structure IssueKey where
  type : IssueType
  title : String
  description : String
  unitNames : List String
  line : Option Nat
  deriving DecidableEq, Repr

namespace Issue

/-- The identity of an issue. -/
def key (i : Issue) : IssueKey := ⟨i.type, i.title, i.description, i.unitNames, i.line⟩

/-- A number as a confidence: not a number is 0, and what is outside is moved to the nearest end. -/
def clampConfidence (x : Float) : Float :=
  if x.isNaN then 0.0 else if x < 0.0 then 0.0 else if x > 1.0 then 1.0 else x

/-- A finding without id and source. -/
def found (type : IssueType) (severity : Severity) (title description : String)
    (unitNames : List String) (line : Option Nat) (suggestion : String) (confidence : Float) :
    Issue :=
  { id := "", type, severity, title, description, unitNames, line, suggestion
    confidence := clampConfidence confidence, source := "" }

/-- The place of an issue in the ranking: its severity, then its confidence. -/
def rank (i : Issue) : Float := i.severity.score + i.confidence

end Issue

namespace IssueKey

/-- The text that an id is a digest of. -/
def text (k : IssueKey) : String :=
  "|".intercalate [k.type.word, ",".intercalate k.unitNames,
    (k.line.map toString).getD "", k.title, k.description]

/-- The number of digits of a digest that an id keeps. -/
def idDigits : Nat := 16

/-- The id of a finding, given a digest of texts. -/
def idWith (digest : String → String) (k : IssueKey) : String :=
  "ISS-" ++ String.ofList ((digest k.text).toList.take idDigits)

/-- The id of a finding. -/
def id (k : IssueKey) : String := k.idWith Sha256.hex

end IssueKey

end StLint

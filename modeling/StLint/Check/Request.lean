import StLint.Issue.Json
import StLint.Collection.Basic

/-!
# What is asked of an analysis

A request names the severities and the types of the issues that it wants; **everything else is found
as well and then left out**.
-/

namespace StLint

/-- The issues that are wanted. -/
structure AnalysisRequest where
  severities : List Severity
  types : List IssueType
  includeSuggestions : Bool
  deriving DecidableEq, Repr, Inhabited

namespace AnalysisRequest

/-- The severities of a list, gravest first and each once. -/
def severitySet (ss : List Severity) : List Severity := Severity.all.filter ss.contains

/-- A request for some severities and types. -/
def of (severities : List Severity) (types : List IssueType) (includeSuggestions : Bool) :
    AnalysisRequest :=
  ⟨severitySet severities, firstBy id types, includeSuggestions⟩

/-- A request for everything. -/
def everything : AnalysisRequest := of Severity.all IssueType.all true

/-- Both the severity and the type of an issue are wanted. -/
def accepts (r : AnalysisRequest) (i : Issue) : Bool :=
  r.severities.contains i.severity && r.types.contains i.type

/-- Writes a request. -/
def toJson (r : AnalysisRequest) : Json :=
  .obj [("severityLevels", .ofList (fun s => .str s.name) r.severities),
    ("issueTypes", .ofList (fun t => .str t.name) r.types),
    ("includeSuggestions", .bool r.includeSuggestions)]

/-- Reads a request. The types are kept as they are given. -/
def ofJson? (v : Json) : Option AnalysisRequest := do
  let r ← Json.record? ["severityLevels", "issueTypes", "includeSuggestions"] v
  return {
    severities := severitySet (← (r "severityLevels").required (Json.list? Severity.ofJson?))
    types := ← (r "issueTypes").required (Json.list? IssueType.ofJson?)
    includeSuggestions := ← (r "includeSuggestions").orDefault false Json.bool? }

end AnalysisRequest

end StLint

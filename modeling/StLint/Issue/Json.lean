import StLint.Issue.Basic
import StLint.Json.Decode

/-!
# Issues as data
-/

namespace StLint

open Json

namespace Severity

/-- Names in data. -/
def names : List (String × Severity) := all.map fun s => (s.name, s)

/-- Reads a severity. -/
def ofJson? (v : Json) : Option Severity := variant? names v

end Severity

namespace IssueType

/-- Names in data. -/
def names : List (String × IssueType) := all.map fun t => (t.name, t)

/-- Reads a type. -/
def ofJson? (v : Json) : Option IssueType := variant? names v

end IssueType

namespace Issue

/-- Keys in order. -/
def keys : List String :=
  ["id", "type", "severity", "title", "description", "unitNames", "lineNumber", "suggestion",
    "confidence", "source"]

/-- Writes an issue. -/
def toJson (i : Issue) : Json :=
  .ofMembers [
    field "id" (.str i.id),
    field "type" (.str i.type.name),
    field "severity" (.str i.severity.name),
    field "title" (.str i.title),
    field "description" (.str i.description),
    field "unitNames" (.ofList .str i.unitNames),
    field? "lineNumber" .ofNat i.line,
    field "suggestion" (.str i.suggestion),
    field "confidence" (.ofFloat i.confidence),
    field "source" (.str i.source)]

/-- Reads an issue. -/
def ofJson? (v : Json) : Option Issue := do
  let r ← record? keys v
  return {
    id := ← (r "id").orDefault "" string?
    type := ← (r "type").required IssueType.ofJson?
    severity := ← (r "severity").required Severity.ofJson?
    title := ← (r "title").required string?
    description := ← (r "description").required string?
    unitNames := ← (r "unitNames").required (list? string?)
    line := ← (r "lineNumber").optional nat?
    suggestion := ← (r "suggestion").required string?
    confidence := ← (r "confidence").required float?
    source := ← (r "source").orDefault "" string? }

end Issue

end StLint

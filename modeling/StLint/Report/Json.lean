import StLint.Report.Basic

/-!
# Reports as data
-/

namespace StLint

open Json

namespace Summary

/-- Writes the scores. -/
def toJson (s : Summary) : Json :=
  .obj [("complexityScore", .ofNat s.complexity), ("safetyScore", .ofNat s.safety),
    ("maintainabilityScore", .ofNat s.maintainability)]

/-- Reads the scores. -/
def ofJson? (v : Json) : Option Summary := do
  let r ← record? ["complexityScore", "safetyScore", "maintainabilityScore"] v
  return {
    complexity := ← (r "complexityScore").required nat?
    safety := ← (r "safetyScore").required nat?
    maintainability := ← (r "maintainabilityScore").required nat? }

end Summary

namespace Report

/-- Keys in order. -/
def keys : List String :=
  ["totalIssues", "criticalIssues", "warnings", "issues", "summary", "recommendations",
    "failedPasses"]

/-- The members of a report. -/
def members (r : Report) : List (String × Json) :=
  [("totalIssues", .ofNat r.totalIssues), ("criticalIssues", .ofNat r.criticalIssues),
    ("warnings", .ofNat r.warnings), ("issues", .ofList Issue.toJson r.issues),
    ("summary", r.summary.toJson), ("recommendations", .ofList .str r.recommendations),
    ("failedPasses", .ofList .str r.failedChecks)]

/-- Writes a report. -/
def toJson (r : Report) : Json := .obj r.members

/-- Reads a report. -/
def ofJson? (v : Json) : Option Report := do
  let r ← record? keys v
  return {
    totalIssues := ← (r "totalIssues").required nat?
    criticalIssues := ← (r "criticalIssues").required nat?
    warnings := ← (r "warnings").required nat?
    issues := ← (r "issues").required (list? Issue.ofJson?)
    summary := ← (r "summary").required Summary.ofJson?
    recommendations := ← (r "recommendations").required (list? string?)
    failedChecks := ← (r "failedPasses").orDefault [] (list? string?) }

end Report

end StLint

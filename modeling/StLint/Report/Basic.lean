import StLint.Collection.Basic
import StLint.Decimal.Spelling
import StLint.Issue.Json
import StLint.Pou.Basic

/-!
# Reports

What an analysis returns: the issues, three scores from 0 to 100, and a recommendation for each
group of issue types that occurs.
-/

namespace StLint

/-! ## Scores -/

/-- The highest score. -/
def maxScore : Nat := 100

/-- How large the units are: two for each unit, one for each variable and three for each
    dependency, at most the highest score. -/
def complexityScore (units : List Pou) : Nat :=
  min maxScore (2 * units.length + totalBy (fun u => u.vars.length) units +
    3 * totalBy (fun u => u.dependencies.length) units)

/-- Ten less for each issue of safety. -/
def safetyScore (issues : List Issue) : Nat :=
  maxScore - 10 * issues.countP fun i => i.type.isSafety

/-- Five less for each issue of upkeep. -/
def maintainabilityScore (issues : List Issue) : Nat :=
  maxScore - 5 * issues.countP fun i => i.type.isMaintainability

/-- The scores of a report. -/
structure Summary where
  complexity : Nat
  safety : Nat
  maintainability : Nat
  deriving DecidableEq, Repr, Inhabited

/-- The scores of some units with what was found. -/
def Summary.of (units : List Pou) (issues : List Issue) : Summary :=
  ⟨complexityScore units, safetyScore issues, maintainabilityScore issues⟩

/-! ## Recommendations -/

/-- Types of issues that one recommendation covers, with its text around their number. -/
structure Bucket where
  types : List IssueType
  before : String
  after : String
  deriving DecidableEq, Repr

namespace Bucket

/-- All groups, in the order of their recommendations. -/
def all : List Bucket :=
  [⟨[.safetyConcern, .runtimeError], "Address ",
      " safety-related issue(s) first: guard divisions, array accesses and loop exits."⟩,
    ⟨[.circularDependency], "Break ",
      " circular dependency cycle(s) by extracting shared logic into a separate unit."⟩,
    ⟨[.logicError, .syntaxError], "Review ",
      " logic issue(s): loop bounds and references to units outside the project."⟩,
    ⟨[.performanceIssue], "Investigate ", " performance issue(s) affecting scan-cycle time."⟩,
    ⟨[.styleViolation, .unusedVariable], "Clean up ",
      " style issue(s): naming, descriptions and unused variables."⟩,
    ⟨[.potentialImprovement], "Consider ",
      " improvement(s) such as named constants and smaller units."⟩]

/-- The number of issues of the group. -/
def count (b : Bucket) (issues : List Issue) : Nat := issues.countP fun i => b.types.contains i.type

/-- The recommendation of a group that occurs. -/
def recommendation? (b : Bucket) (issues : List Issue) : Option String :=
  if 0 < b.count issues then some (b.before ++ toString (b.count issues) ++ b.after) else none

end Bucket

/-- What is said when nothing was found. -/
def nothingFound : String :=
  "No significant issues found. Keep the current structure and review again after changes."

/-- The recommendations about some issues. -/
def recommendations (issues : List Issue) : List String :=
  if issues.isEmpty then [nothingFound] else Bucket.all.filterMap fun b => b.recommendation? issues

/-! ## Reports -/

/-- The outcome of an analysis. -/
structure Report where
  totalIssues : Nat
  criticalIssues : Nat
  warnings : Nat
  issues : List Issue
  summary : Summary
  recommendations : List String
  /-- The checks that failed. -/
  failedChecks : List String
  deriving Repr, Inhabited

namespace Report

/-- A report with its counts. -/
def of (issues : List Issue) (summary : Summary) (recommendations failedChecks : List String) :
    Report where
  totalIssues := issues.length
  criticalIssues := issues.countP fun i => i.severity = .critical
  warnings := issues.countP fun i => i.severity = .warning
  issues
  summary
  recommendations
  failedChecks

/-- Nothing was found. -/
def isClean (r : Report) : Bool := r.issues.isEmpty

end Report

/-! ## Reports as text

The counts and scores, a line for each issue with its suggestion below it, and the recommendations. -/

namespace Report

/-- A text followed by spaces up to a width. -/
def padded (width : Nat) (s : String) : String :=
  s ++ String.ofList (List.replicate (width - s.length) ' ')

/-- Where an issue is: its units, and its line if it has one. -/
def location (i : Issue) : String :=
  ",".intercalate i.unitNames ++ (i.line.map fun n => ":" ++ toString n).getD ""

/-- The lines about an issue. -/
def issueLines (i : Issue) : List String :=
  ("[" ++ padded 8 i.severity.word ++ "] " ++ padded 21 i.type.word ++ " " ++ location i ++ " - " ++
    i.title ++ " (" ++ String.ofList (Decimal.fixed 2 i.confidence) ++ ")") ::
  (if i.suggestion.isEmpty then [] else ["           -> " ++ i.suggestion])

/-- The lines of a report. -/
def textLines (r : Report) : List String :=
  [toString r.totalIssues ++ " issues (" ++ toString r.criticalIssues ++ " critical, " ++
      toString r.warnings ++ " warnings)",
    "complexity " ++ toString r.summary.complexity ++ " | safety " ++ toString r.summary.safety ++
      " | maintainability " ++ toString r.summary.maintainability, ""] ++
  r.issues.flatMap issueLines ++ [""] ++ r.recommendations.map ("* " ++ ·) ++
  (if r.failedChecks.isEmpty then [] else ["failed passes: " ++ ", ".intercalate r.failedChecks])

/-- A report as text. -/
def text (r : Report) : String := String.join (r.textLines.map (· ++ "\n"))

end Report

end StLint

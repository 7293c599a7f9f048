import StLint.Check.All
import StLint.Check.Request
import StLint.Number.Machine
import StLint.Report.Basic
import StLint.Suggestion.Model

/-!
# Analysis of a project

The checks of units run first, unit by unit, then the checks of the project, then the suggestions.
What they find is put together in this order; **of several findings with one identity the first is
kept**, and what is left is filtered, given its id and sorted by rank.

* `Outcome` — what some checks found, and which of them failed. A failed check finds nothing and
  changes nothing else.
* `Engine.select` — from findings to the issues of a report.
* `Engine.analyze` — the report.
-/

namespace StLint

/-- What some checks found, and the names of those that failed. -/
structure Outcome where
  issues : List Issue
  failed : List String
  deriving Repr, Inhabited

namespace Outcome

/-- The outcome of a check with a name. -/
def of (name : String) : Except Failure (List Issue) → Outcome
  | .ok issues => ⟨issues.map fun i => { i with source := name }, []⟩
  | .error _ => ⟨[], [name]⟩

/-- Several outcomes, one after the other. -/
def join (outcomes : List Outcome) : Outcome :=
  ⟨outcomes.flatMap Outcome.issues, outcomes.flatMap Outcome.failed⟩

end Outcome

namespace Issue

/-- An issue stands before another one, or may stand on either side of it. -/
def ranksBefore (a b : Issue) : Bool := Decimal.totalKey b.rank ≤ Decimal.totalKey a.rank

/-- An issue with its id. -/
def withId (i : Issue) : Issue := { i with id := i.key.id }

end Issue

/-- The settings of an analysis with the checks that it runs. -/
structure Engine where
  settings : Settings
  unitChecks : List UnitCheck
  projectChecks : List ProjectCheck

namespace Engine

/-- The checks of the library that the settings switch on. -/
def of (s : Settings) : Engine :=
  ⟨s, Check.enabledUnitChecks s.passes, Check.enabledProjectChecks s.passes⟩

/-- One more check of units, after the others. -/
def addUnitCheck (e : Engine) (c : UnitCheck) : Engine :=
  { e with unitChecks := e.unitChecks ++ [c] }

/-- One more check of projects, after the others. -/
def addProjectCheck (e : Engine) (c : ProjectCheck) : Engine :=
  { e with projectChecks := e.projectChecks ++ [c] }

/-- The names of the checks in the order in which they run. -/
def checkNames (e : Engine) : List String :=
  e.unitChecks.map UnitCheck.name ++ e.projectChecks.map ProjectCheck.name

/-- All checks of one unit. -/
def checkUnit (e : Engine) (u : Pou) : Outcome :=
  .join (e.unitChecks.map fun c => .of c.name (c.run u))

/-- All checks of the units of a project. -/
def checkUnits (e : Engine) (units : List Pou) : Outcome := .join (units.map e.checkUnit)

/-- All checks of a project as a whole. -/
def checkProject (e : Engine) (p : Project) : Outcome :=
  .join (e.projectChecks.map fun c => .of c.name (c.run p))

/-- The source of the suggestions of a provider. -/
def suggestionSource (provider : SuggestionProvider) : String := "suggestions:" ++ provider.name

/-- The suggestions that are kept. Where the provider fails the rules answer. -/
def suggestions (e : Engine) (provider : SuggestionProvider) (p : Project) : List Issue :=
  let found := match provider.suggest p with
    | .ok issues => issues
    | .error _ => Rules.suggestions p
  (found.take e.settings.suggestions.maxSuggestions).map fun i =>
    { i with source := suggestionSource provider }

/-- An issue is wanted and likely enough. -/
def keeps (e : Engine) (request : AnalysisRequest) (i : Issue) : Bool :=
  request.accepts i && i.confidence ≥ e.settings.thresholds.minConfidence

/-- The issues of a report, from everything that was found. -/
def select (e : Engine) (request : AnalysisRequest) (found : List Issue) : List Issue :=
  let kept := (firstBy Issue.key found).filter (e.keeps request)
  (kept.map Issue.withId).mergeSort Issue.ranksBefore

/-- What the checks and the provider find, before anything is left out. -/
def find (e : Engine) (provider : SuggestionProvider) (includeSuggestions : Bool) (p : Project) :
    Outcome :=
  let found := Outcome.join [e.checkUnits p.units, e.checkProject p]
  if includeSuggestions then
    { found with issues := found.issues ++ e.suggestions provider p }
  else found

/-- The report on a project. -/
def analyze (e : Engine) (units : List Pou) (log : Option RuntimeLog) (request : AnalysisRequest)
    (provider : SuggestionProvider) : Report :=
  let found := e.find provider request.includeSuggestions (.of units log e.settings.thresholds)
  let issues := e.select request found.issues
  .of issues (.of units issues) (recommendations issues) (firstBy id found.failed)

end Engine

/-- The report on a project with the settings where nothing is chosen and suggestions by rule. -/
def analyze (units : List Pou) (log : Option RuntimeLog) (request : AnalysisRequest) : Report :=
  (Engine.of .default).analyze units log request .rules

end StLint

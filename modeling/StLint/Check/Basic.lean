import StLint.Analysis.Error
import StLint.Graph.Build
import StLint.Issue.Basic
import StLint.Log.Basic
import StLint.Settings.Basic

/-!
# Checks

A check has a name and looks at one unit, or at a whole project. What it finds has neither id nor
source yet; a check may also **fail**, and then it finds nothing.
-/

namespace StLint

/-- A check of single units. -/
structure UnitCheck where
  name : String
  run : Pou → Except Failure (List Issue)

/-- What a check of a project looks at. -/
structure Project where
  units : List Pou
  log : Option RuntimeLog
  /-- The graph of the units. -/
  graph : DependencyGraph
  thresholds : Thresholds

namespace Project

/-- A project with its graph. -/
def of (units : List Pou) (log : Option RuntimeLog) (thresholds : Thresholds) : Project :=
  ⟨units, log, .build units .unit, thresholds⟩

/-- The unit with a name, in any case; the first of several. -/
def unit? (p : Project) (name : String) : Option Pou := unitNamed? p.units name

end Project

/-- A check of whole projects. -/
structure ProjectCheck where
  name : String
  run : Project → Except Failure (List Issue)

namespace Issue

/-- A finding about one unit. -/
def inUnit (u : Pou) (line : Option Nat) (type : IssueType) (severity : Severity)
    (title description suggestion : String) (confidence : Float) : Issue :=
  found type severity title description [u.name] line suggestion confidence

end Issue

/-- The lines of a unit's source, at line feeds. -/
def Pou.sourceLines (u : Pou) : List (List Char) := Text.lines u.source.toList

end StLint

import StLint.Check.Division
import StLint.Check.Indexing
import StLint.Check.Loops
import StLint.Check.Names
import StLint.Check.Runtime

/-!
# The checks of the library

In the order in which they run. None of them fails.
-/

namespace StLint

/-- A check of units that cannot fail. -/
def UnitCheck.total (name : String) (run : Pou → List Issue) : UnitCheck :=
  ⟨name, fun u => .ok (run u)⟩

/-- A check of projects that cannot fail. -/
def ProjectCheck.total (name : String) (run : Project → List Issue) : ProjectCheck :=
  ⟨name, fun p => .ok (run p)⟩

namespace Check

/-- All checks of units. -/
def unitChecks : List UnitCheck :=
  [.total "loop_safety" loops, .total "division_safety" divisions, .total "array_bounds" indexing,
    .total "naming" naming]

/-- All checks of projects. -/
def projectChecks : List ProjectCheck :=
  [.total "dependency_check" coupling, .total "runtime_correlation" runtime]

/-- The checks of units that are switched on. -/
def enabledUnitChecks (s : PassSwitches) : List UnitCheck :=
  unitChecks.filter fun c => s.isEnabled c.name

/-- The checks of projects that are switched on. -/
def enabledProjectChecks (s : PassSwitches) : List ProjectCheck :=
  projectChecks.filter fun c => s.isEnabled c.name

end Check

end StLint

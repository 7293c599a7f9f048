import StLint.Text.Basic

/-!
# Settings of an analysis

Settings come as a **preset** with four sections, each of which may be replaced as a whole: which
passes run, the thresholds of reporting, how units are shared among workers, and where suggestions
come from.
-/

namespace StLint

open Text

/-- A complete choice of settings under one name. -/
inductive Preset where
  /-- Only what concerns structure, reported when likely. -/
  | fast
  | balanced
  /-- Also what is unlikely. -/
  | thorough
  /-- As balanced, to be overridden. -/
  | custom
  deriving DecidableEq, Repr, Inhabited

namespace Preset

/-- All presets. -/
def all : List Preset := [.fast, .balanced, .thorough, .custom]

/-- The word for a preset. -/
def word : Preset → String
  | fast => "fast"
  | balanced => "balanced"
  | thorough => "thorough"
  | custom => "custom"

/-- The name of a preset in lists of variants. -/
def name : Preset → String
  | fast => "Fast"
  | balanced => "Balanced"
  | thorough => "Thorough"
  | custom => "Custom"

/-- The preset that a word stands for, in any case. No letter outside ASCII has one of the letters
    of these words as its lower case. -/
def ofWord? (s : String) : Option Preset := all.find? fun p => p.word.toList == lower s.toList

end Preset

/-- Where suggestions come from. -/
inductive ProviderKind where
  /-- A fixed set of rules. -/
  | heuristic
  /-- A language model, with the rules as a fallback. -/
  | model
  deriving DecidableEq, Repr, Inhabited

namespace ProviderKind

/-- All kinds. -/
def all : List ProviderKind := [.heuristic, .model]

/-- The word for a kind. -/
def word : ProviderKind → String
  | heuristic => "heuristic"
  | model => "model"

/-- The kind that a word stands for, in any case. -/
def ofWord? (s : String) : Option ProviderKind := all.find? fun p => p.word.toList == lower s.toList

end ProviderKind

/-- The passes that run. -/
structure PassSwitches where
  loopSafety : Bool
  divisionSafety : Bool
  arrayBounds : Bool
  naming : Bool
  dependencyCheck : Bool
  runtimeCorrelation : Bool
  deriving DecidableEq, Repr, Inhabited

namespace PassSwitches

/-- Every pass runs. -/
def everything : PassSwitches := ⟨true, true, true, true, true, true⟩

/-- The passes of a preset. -/
def ofPreset : Preset → PassSwitches
  | .fast => { everything with arrayBounds := false, naming := false }
  | _ => everything

/-- The switches with the names of their passes. -/
def named (s : PassSwitches) : List (String × Bool) :=
  [("loop_safety", s.loopSafety), ("division_safety", s.divisionSafety),
    ("array_bounds", s.arrayBounds), ("naming", s.naming),
    ("dependency_check", s.dependencyCheck), ("runtime_correlation", s.runtimeCorrelation)]

/-- The pass with a name runs. A pass without a switch always does. -/
def isEnabled (s : PassSwitches) (pass : String) : Bool := (s.named.lookup pass).getD true

/-- No pass runs. -/
def isEmpty (s : PassSwitches) : Bool := s.named.all fun p => !p.2

end PassSwitches

/-- The limits of reporting. -/
structure Thresholds where
  /-- Less likely issues are dropped. -/
  minConfidence : Float
  /-- The number of logged errors of a unit that is tolerated. -/
  runtimeErrors : Nat
  /-- The mean scan time, in milliseconds, above which a unit is slow. -/
  cycleTimeMs : Float
  /-- The number of statements above which a unit is large. -/
  largeUnit : Nat
  deriving BEq, Repr, Inhabited

namespace Thresholds

/-- The thresholds of a preset. -/
def ofPreset : Preset → Thresholds
  | .fast => ⟨0.7, 5, 100.0, 50⟩
  | .balanced | .custom => ⟨0.5, 5, 100.0, 50⟩
  | .thorough => ⟨0.3, 1, 50.0, 30⟩

end Thresholds

/-- How units are shared among workers. The answers of an analysis do not depend on it. -/
structure Parallelism where
  enabled : Bool
  /-- The number of workers; 0 leaves it to the machine. -/
  workers : Nat
  /-- Fewer units than this are analysed one after the other. -/
  minUnits : Nat
  deriving DecidableEq, Repr, Inhabited

namespace Parallelism

/-- The sharing of a preset. -/
def ofPreset : Preset → Parallelism
  | .fast => ⟨true, 0, 4⟩
  | .balanced | .custom => ⟨true, 0, 8⟩
  | .thorough => ⟨true, 0, 16⟩

/-- The number of workers, unless it is left to the machine. -/
def chosenWorkers? (p : Parallelism) : Option Nat := if 0 < p.workers then some p.workers else none

end Parallelism

/-- Where suggestions come from and how many are kept. -/
structure SuggestionSettings where
  provider : ProviderKind
  maxSuggestions : Nat
  deriving DecidableEq, Repr, Inhabited

namespace SuggestionSettings

/-- The suggestions of a preset. -/
def ofPreset : Preset → SuggestionSettings
  | .fast => ⟨.heuristic, 20⟩
  | .balanced | .custom => ⟨.heuristic, 100⟩
  | .thorough => ⟨.heuristic, 1000⟩

end SuggestionSettings

/-- The settings of an analysis. -/
structure Settings where
  preset : Preset
  passes : PassSwitches
  thresholds : Thresholds
  parallelism : Parallelism
  suggestions : SuggestionSettings
  deriving BEq, Repr, Inhabited

namespace Settings

/-- The settings of a preset. -/
def ofPreset (p : Preset) : Settings where
  preset := p
  passes := .ofPreset p
  thresholds := .ofPreset p
  parallelism := .ofPreset p
  suggestions := .ofPreset p

/-- The settings where nothing is chosen. -/
def default : Settings := ofPreset .balanced

end Settings

end StLint

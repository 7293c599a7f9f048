import StLint.Json.Decode
import StLint.Number.Machine
import StLint.Settings.File

/-!
# Settings as data

A section is complete, except that a switch that is left out is on. Unknown keys are refused in
every section.
-/

namespace StLint

open Json

namespace Preset

/-- Names in data. -/
def names : List (String × Preset) := all.map fun p => (p.word, p)

end Preset

namespace ProviderKind

/-- Names in data. -/
def names : List (String × ProviderKind) := all.map fun p => (p.word, p)

end ProviderKind

namespace PassSwitches

/-- Keys in order. -/
def keys : List String := (everything.named).map Prod.fst

/-- Writes the switches. -/
def toJson (s : PassSwitches) : Json := .obj (s.named.map fun (k, b) => (k, .bool b))

/-- Reads the switches. -/
def ofJson? (v : Json) : Option PassSwitches := do
  let r ← strictRecord? keys v
  return {
    loopSafety := ← (r "loop_safety").orDefault true bool?
    divisionSafety := ← (r "division_safety").orDefault true bool?
    arrayBounds := ← (r "array_bounds").orDefault true bool?
    naming := ← (r "naming").orDefault true bool?
    dependencyCheck := ← (r "dependency_check").orDefault true bool?
    runtimeCorrelation := ← (r "runtime_correlation").orDefault true bool? }

end PassSwitches

namespace Thresholds

/-- Keys in order. -/
def keys : List String :=
  ["min_confidence", "runtime_error_threshold", "cycle_time_warning_ms", "large_unit_statements"]

/-- Writes the thresholds. -/
def toJson (t : Thresholds) : Json :=
  .obj [("min_confidence", .ofFloat t.minConfidence),
    ("runtime_error_threshold", .ofNat t.runtimeErrors),
    ("cycle_time_warning_ms", .ofFloat t.cycleTimeMs),
    ("large_unit_statements", .ofNat t.largeUnit)]

/-- Reads the thresholds. -/
def ofJson? (v : Json) : Option Thresholds := do
  let r ← strictRecord? keys v
  return {
    minConfidence := ← (r "min_confidence").required float?
    runtimeErrors := ← (r "runtime_error_threshold").required nat?
    cycleTimeMs := ← (r "cycle_time_warning_ms").required float?
    largeUnit := ← (r "large_unit_statements").required nat? }

end Thresholds

namespace Parallelism

/-- Keys in order. -/
def keys : List String := ["enabled", "num_workers", "min_units"]

/-- Writes the sharing among workers. -/
def toJson (p : Parallelism) : Json :=
  .obj [("enabled", .bool p.enabled), ("num_workers", .ofNat p.workers),
    ("min_units", .ofNat p.minUnits)]

/-- Reads the sharing among workers. -/
def ofJson? (v : Json) : Option Parallelism := do
  let r ← strictRecord? keys v
  return {
    enabled := ← (r "enabled").required bool?
    workers := ← (r "num_workers").required nat?
    minUnits := ← (r "min_units").required nat? }

end Parallelism

namespace SuggestionSettings

/-- Keys in order. -/
def keys : List String := ["provider", "max_suggestions"]

/-- Writes where suggestions come from. -/
def toJson (s : SuggestionSettings) : Json :=
  .obj [("provider", .str s.provider.word), ("max_suggestions", .ofNat s.maxSuggestions)]

/-- Reads where suggestions come from. -/
def ofJson? (v : Json) : Option SuggestionSettings := do
  let r ← strictRecord? keys v
  return {
    provider := ← (r "provider").required (variant? ProviderKind.names)
    maxSuggestions := ← (r "max_suggestions").required nat? }

end SuggestionSettings

namespace Settings

/-- Writes settings. -/
def toJson (s : Settings) : Json :=
  .obj [("preset", .str s.preset.word), ("passes", s.passes.toJson),
    ("thresholds", s.thresholds.toJson), ("parallel", s.parallelism.toJson),
    ("suggestions", s.suggestions.toJson)]

/-- Reads settings; unknown keys are passed over. -/
def ofJson? (v : Json) : Option Settings := do
  let r ← record? ["preset", "passes", "thresholds", "parallel", "suggestions"] v
  return {
    preset := ← (r "preset").required (variant? Preset.names)
    passes := ← (r "passes").required PassSwitches.ofJson?
    thresholds := ← (r "thresholds").required Thresholds.ofJson?
    parallelism := ← (r "parallel").required Parallelism.ofJson?
    suggestions := ← (r "suggestions").required SuggestionSettings.ofJson? }

end Settings

namespace SettingsOverrides

/-- Keys in order. -/
def keys : List String := ["thresholds", "parallel", "suggestions"]

/-- Writes the sections that are replaced. -/
def toJson (o : SettingsOverrides) : Json :=
  .ofMembers [field? "thresholds" Thresholds.toJson o.thresholds,
    field? "parallel" Parallelism.toJson o.parallelism,
    field? "suggestions" SuggestionSettings.toJson o.suggestions]

/-- Reads the sections that are replaced. -/
def ofJson? (v : Json) : Option SettingsOverrides := do
  let r ← strictRecord? keys v
  return {
    thresholds := ← (r "thresholds").orDefault none (nullable? Thresholds.ofJson?)
    parallelism := ← (r "parallel").orDefault none (nullable? Parallelism.ofJson?)
    suggestions := ← (r "suggestions").orDefault none (nullable? SuggestionSettings.ofJson?) }

end SettingsOverrides

namespace SettingsFile

/-- Keys in order. -/
def keys : List String := ["version", "preset", "passes", "overrides"]

/-- An unsigned integer of 32 bits. -/
def isVersion (n : Nat) : Bool := n < limit32

/-- Writes the contents of a file. -/
def toJson (f : SettingsFile) : Json :=
  .ofMembers [field? "version" .ofNat f.version, field "preset" (.str f.preset),
    field? "passes" PassSwitches.toJson f.passes,
    field? "overrides" SettingsOverrides.toJson f.overrides]

/-- Reads the contents of a file. -/
def ofJson? (v : Json) : Option SettingsFile := do
  let r ← strictRecord? keys v
  return {
    version := ← (r "version").orDefault none (nullable? fun v => (nat? v).filter isVersion)
    preset := ← (r "preset").required string?
    passes := ← (r "passes").orDefault none (nullable? PassSwitches.ofJson?)
    overrides := ← (r "overrides").orDefault none (nullable? SettingsOverrides.ofJson?) }

end SettingsFile

end StLint

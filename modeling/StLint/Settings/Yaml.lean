import StLint.Settings.Json
import StLint.Yaml.Basic
import StLint.Yaml.Reader

/-!
# Settings as YAML

The format that is used outside proofs. Its reader knows the **part of YAML** that it writes and
mappings in braces; a text with other means of YAML, such as anchors or tags, is refused.

* `SettingsFormat.yaml` — the format.
* `Settings.ofText`, `Settings.text` — import and export through it.
-/

namespace StLint

open Yaml

namespace PassSwitches

/-- Writes the switches. -/
def toYaml (s : PassSwitches) : Yaml := .mapping (s.named.map fun (k, b) => (k, .ofBool b))

/-- Reads the switches; one that is left out is on. -/
def ofYaml? (v : Yaml) : Option PassSwitches := do
  let r ← record? keys v
  return {
    loopSafety := ← orDefault true bool? (r "loop_safety")
    divisionSafety := ← orDefault true bool? (r "division_safety")
    arrayBounds := ← orDefault true bool? (r "array_bounds")
    naming := ← orDefault true bool? (r "naming")
    dependencyCheck := ← orDefault true bool? (r "dependency_check")
    runtimeCorrelation := ← orDefault true bool? (r "runtime_correlation") }

end PassSwitches

namespace Thresholds

/-- Writes the thresholds. -/
def toYaml (t : Thresholds) : Yaml :=
  .mapping [("min_confidence", .ofFloat t.minConfidence),
    ("runtime_error_threshold", .ofNat t.runtimeErrors),
    ("cycle_time_warning_ms", .ofFloat t.cycleTimeMs),
    ("large_unit_statements", .ofNat t.largeUnit)]

/-- Reads the thresholds. -/
def ofYaml? (v : Yaml) : Option Thresholds := do
  let r ← record? keys v
  return {
    minConfidence := ← required float? (r "min_confidence")
    runtimeErrors := ← required nat? (r "runtime_error_threshold")
    cycleTimeMs := ← required float? (r "cycle_time_warning_ms")
    largeUnit := ← required nat? (r "large_unit_statements") }

end Thresholds

namespace Parallelism

/-- Writes the sharing among workers. -/
def toYaml (p : Parallelism) : Yaml :=
  .mapping [("enabled", .ofBool p.enabled), ("num_workers", .ofNat p.workers),
    ("min_units", .ofNat p.minUnits)]

/-- Reads the sharing among workers. -/
def ofYaml? (v : Yaml) : Option Parallelism := do
  let r ← record? keys v
  return {
    enabled := ← required bool? (r "enabled")
    workers := ← required nat? (r "num_workers")
    minUnits := ← required nat? (r "min_units") }

end Parallelism

namespace SuggestionSettings

/-- Writes where suggestions come from. -/
def toYaml (s : SuggestionSettings) : Yaml :=
  .mapping [("provider", .scalar s.provider.word true),
    ("max_suggestions", .ofNat s.maxSuggestions)]

/-- Reads where suggestions come from. -/
def ofYaml? (v : Yaml) : Option SuggestionSettings := do
  let r ← record? keys v
  return {
    provider :=
      ← required (fun v => (string? v).bind fun s => ProviderKind.names.lookup s) (r "provider")
    maxSuggestions := ← required nat? (r "max_suggestions") }

end SuggestionSettings

namespace SettingsOverrides

/-- Writes the sections that are replaced. -/
def toYaml (o : SettingsOverrides) : Yaml :=
  .mapping ([o.thresholds.map fun t => ("thresholds", t.toYaml),
    o.parallelism.map fun p => ("parallel", p.toYaml),
    o.suggestions.map fun s => ("suggestions", s.toYaml)].filterMap id)

/-- Reads the sections that are replaced. -/
def ofYaml? (v : Yaml) : Option SettingsOverrides := do
  let r ← record? keys v
  return {
    thresholds := ← Yaml.optional Thresholds.ofYaml? (r "thresholds")
    parallelism := ← Yaml.optional Parallelism.ofYaml? (r "parallel")
    suggestions := ← Yaml.optional SuggestionSettings.ofYaml? (r "suggestions") }

end SettingsOverrides

namespace SettingsFile

/-- Writes the contents of a file. -/
def toYaml (f : SettingsFile) : Yaml :=
  .mapping ([f.version.map fun v => ("version", Yaml.ofNat v),
    some ("preset", .scalar f.preset true),
    f.passes.map fun p => ("passes", p.toYaml),
    f.overrides.map fun o => ("overrides", o.toYaml)].filterMap id)

/-- Reads the contents of a file. -/
def ofYaml? (v : Yaml) : Option SettingsFile := do
  let r ← record? keys v
  return {
    version := ← Yaml.optional (fun v => (nat? v).filter isVersion) (r "version")
    preset := ← required string? (r "preset")
    passes := ← Yaml.optional PassSwitches.ofYaml? (r "passes")
    overrides := ← Yaml.optional SettingsOverrides.ofYaml? (r "overrides") }

end SettingsFile

/-- The contents of files in YAML. Nothing keeps them from being written. -/
def SettingsFormat.yaml : SettingsFormat where
  write f := some f.toYaml.text
  read text := (Yaml.parse? text).bind SettingsFile.ofYaml?

namespace Settings

/-- The settings of a file in YAML, or why it is refused. -/
def ofText (s : String) : Except SettingsError Settings := SettingsFormat.yaml.load s

/-- The text of the file for some settings. -/
def text (s : Settings) : String := (SettingsFile.ofSettings s).toYaml.text

end Settings

end StLint

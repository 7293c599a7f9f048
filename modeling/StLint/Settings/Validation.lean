import StLint.Decimal.Spelling
import StLint.Settings.Basic

/-!
# Ranges of settings

Every number of the settings has a range; the first one outside its range is reported. Settings may
also be valid and still useless, which is only a warning.

* `SettingsError` — why settings are refused, with the message.
* `Settings.validate` — the first number outside its range.
-/

/-! ## Faults -/

namespace StLint

/-- Why settings are refused. -/
inductive SettingsError where
  /-- A value lies outside its range. The numbers are given as they are written in the message. -/
  | range (field value min max hint : String)
  | missingVersion
  | unsupportedVersion (found : Nat)
  | unknownPreset (name : String)
  | unknownProvider (name : String)
  /-- The text is not well formed or does not have the shape of settings. -/
  | yaml
  deriving DecidableEq, Repr

namespace SettingsError

/-- The versions of the file format that are read. -/
def supportedVersions : List Nat := [1]

/-- The text of an error; a malformed text has none of its own. -/
def message : SettingsError → String
  | range field value min max hint =>
    "Invalid range for field '" ++ field ++ "': " ++ value ++ " not in " ++ min ++ "..=" ++ max ++
      ". " ++ hint
  | missingVersion =>
    "Missing 'version' field in configuration file. Add 'version: 1' to the top of your YAML file."
  | unsupportedVersion found =>
    "Unsupported configuration version " ++ toString found ++ ". Supported versions: " ++
      ", ".intercalate (supportedVersions.map toString)
  | unknownPreset name =>
    "Unknown preset '" ++ name ++ "'. Valid presets: fast, balanced, thorough, custom"
  | unknownProvider name =>
    "Unknown suggestion provider '" ++ name ++ "'. Valid providers: heuristic, model"
  | yaml => ""

end SettingsError

/-! ## Ranges -/

open SettingsError Decimal

/-- A double within a range; not a number is in none. -/
def floatWithin (low high x : Float) : Bool := low ≤ x && x ≤ high

namespace Thresholds

/-- The ranges of the thresholds. -/
def validate (t : Thresholds) : Except SettingsError Unit := do
  unless floatWithin 0.0 1.0 t.minConfidence do
    throw (.range "min_confidence" (String.ofList (plain t.minConfidence)) "0" "1"
      "Confidence is a probability")
  unless t.runtimeErrors ≤ 100000 do
    throw (.range "runtime_error_threshold" (toString t.runtimeErrors) "0" "100000"
      "Threshold must be reasonable")
  unless floatWithin 1.0 60000.0 t.cycleTimeMs do
    throw (.range "cycle_time_warning_ms" (String.ofList (plain t.cycleTimeMs)) "1" "60000"
      "Scan cycles are measured in milliseconds")
  unless 1 ≤ t.largeUnit ∧ t.largeUnit ≤ 100000 do
    throw (.range "large_unit_statements" (toString t.largeUnit) "1" "100000"
      "Statement limit must be positive")

end Thresholds

namespace Parallelism

/-- The ranges of the sharing among workers. -/
def validate (p : Parallelism) : Except SettingsError Unit := do
  unless p.workers ≤ 256 do
    throw (.range "num_workers" (toString p.workers) "0" "256"
      "Number of workers must be reasonable (0=auto)")
  unless 1 ≤ p.minUnits ∧ p.minUnits ≤ 10000 do
    throw (.range "min_units" (toString p.minUnits) "1" "10000"
      "Parallel cut-over must be reasonable")

end Parallelism

namespace SuggestionSettings

/-- The range of the number of suggestions. -/
def validate (s : SuggestionSettings) : Except SettingsError Unit := do
  unless 1 ≤ s.maxSuggestions ∧ s.maxSuggestions ≤ 10000 do
    throw (.range "max_suggestions" (toString s.maxSuggestions) "1" "10000"
      "Suggestion cap must be positive")

end SuggestionSettings

namespace Settings

/-- The highest confidence of any issue that a pass reports. -/
def highestConfidence : Float := 0.95

/-- All ranges, section by section. -/
def validate (s : Settings) : Except SettingsError Unit := do
  s.thresholds.validate
  s.parallelism.validate
  s.suggestions.validate

/-- Remarks about settings that are valid. -/
def warnings (s : Settings) : List String :=
  (if s.thresholds.minConfidence > highestConfidence then
    ["min_confidence " ++ String.ofList (plain s.thresholds.minConfidence) ++
      " is above every pass confidence; all findings will be filtered"] else []) ++
  (if s.passes.isEmpty then ["every analysis pass is disabled"] else [])

end Settings

end StLint

import StLint.Settings.Validation

/-!
# Settings files

A file names a version and a preset, and replaces whole sections of the preset.

* `SettingsFile.ofSettings` — the file for some settings, with the sections that **differ from their
  preset** and no others.
* `SettingsFile.load` — the settings of a file, if its version and preset are known and every
  number is in its range.
* `SettingsFormat` — how the contents of files are written as texts and read from them; which one
  is used is left open.
* `SettingsFormat.save`, `SettingsFormat.load` — settings exported and imported through a format.
-/

namespace StLint

/-- The sections that a file replaces, apart from the switches of the passes. -/
structure SettingsOverrides where
  thresholds : Option Thresholds
  parallelism : Option Parallelism
  suggestions : Option SuggestionSettings
  deriving BEq, Repr, Inhabited

namespace SettingsOverrides

/-- Nothing is replaced. -/
def isEmpty (o : SettingsOverrides) : Bool :=
  o.thresholds.isNone && o.parallelism.isNone && o.suggestions.isNone

/-- The settings with the sections replaced. -/
def apply (o : SettingsOverrides) (s : Settings) : Settings :=
  { s with
    thresholds := o.thresholds.getD s.thresholds
    parallelism := o.parallelism.getD s.parallelism
    suggestions := o.suggestions.getD s.suggestions }

end SettingsOverrides

/-- The contents of a settings file. -/
structure SettingsFile where
  version : Option Nat
  preset : String
  passes : Option PassSwitches
  overrides : Option SettingsOverrides
  deriving BEq, Repr, Inhabited

namespace SettingsFile

/-- A section, if it differs from that of the preset. -/
def changed? [BEq α] (mine preset : α) : Option α := if mine == preset then none else some mine

/-- The version that is written. -/
def currentVersion : Nat := 1

/-- The file for some settings. -/
def ofSettings (s : Settings) : SettingsFile :=
  let base := Settings.ofPreset s.preset
  let overrides : SettingsOverrides := {
    thresholds := changed? s.thresholds base.thresholds
    parallelism := changed? s.parallelism base.parallelism
    suggestions := changed? s.suggestions base.suggestions }
  { version := some currentVersion
    preset := s.preset.word
    passes := changed? s.passes base.passes
    overrides := if overrides.isEmpty then none else some overrides }

/-- The settings that a file describes, in whatever range. -/
def settings? (f : SettingsFile) : Except SettingsError Settings :=
  match f.version with
  | none => .error .missingVersion
  | some v =>
    if SettingsError.supportedVersions.contains v then
      match Preset.ofWord? f.preset with
      | none => .error (.unknownPreset f.preset)
      | some p =>
        let base := Settings.ofPreset p
        let s := { base with passes := f.passes.getD base.passes }
        .ok (match f.overrides with
          | none => s
          | some o => o.apply s)
    else .error (.unsupportedVersion v)

/-- The settings of a file. -/
def load (f : SettingsFile) : Except SettingsError Settings := do
  let s ← f.settings?
  s.validate
  return s

end SettingsFile

/-! ## Texts of files -/

/-- A writer and a reader of the contents of files. Either may give up, on whatever grounds. -/
structure SettingsFormat where
  write : SettingsFile → Option String
  read : String → Option SettingsFile

namespace SettingsFormat

/-- The text of the file for some settings. -/
def save (format : SettingsFormat) (s : Settings) : Except SettingsError String :=
  match format.write (.ofSettings s) with
  | some text => .ok text
  | none => .error .yaml

/-- The settings of a text, or why it is refused. -/
def load (format : SettingsFormat) (text : String) : Except SettingsError Settings :=
  match format.read text with
  | some f => f.load
  | none => .error .yaml

end SettingsFormat

end StLint

import Mathlib
import StLint.Proofs.Settings.Range
import StLint.Settings.Yaml

/-!
# Settings that are written and read

A file holds the sections that differ from their preset, and reading it puts these into the preset again.
Since no threshold of a preset is zero, **a section that is left out is exactly that of the preset**; so a
file gives back the settings that it was written for, or is refused with the range that they leave.

* `getD_changed?` — a section that is left out where it is that of the preset.
* `SettingsFile.settings?_ofSettings` — the settings of the file for some settings.
* `SettingsFormat.ReadsBack` — a format reads the contents that it wrote for some settings.
* `SettingsFormat.load_save` — whatever the format, what is saved gives the settings back if they are valid.
-/

namespace StLint

/-! ## Sections that are left out -/

/-- **Doubles that compare equal are the same**, zeros apart. -/
theorem eq_of_beq_float {x y : Float} (h : (x == y) = true) (hpositive : y ≠ 0) (hnegative : y ≠ -0) :
    x = y := by
  obtain ⟨-, -, heq | ⟨-, hy⟩ | ⟨-, hy⟩⟩ := Float.beq_iff_ne_nan_and_eq.mp h
  · exact heq
  · exact absurd hy hnegative
  · exact absurd hy hpositive

/-- No threshold of a preset is zero. -/
theorem Thresholds.ofPreset_ne_zero (p : Preset) :
    (ofPreset p).minConfidence ≠ 0 ∧ (ofPreset p).minConfidence ≠ -0 ∧
      (ofPreset p).cycleTimeMs ≠ 0 ∧ (ofPreset p).cycleTimeMs ≠ -0 := by
  cases p <;> decide

/-- Thresholds that compare equal to those of a preset are those. -/
theorem Thresholds.eq_ofPreset {t : Thresholds} {p : Preset} (h : (t == ofPreset p) = true) :
    t = ofPreset p := by
  obtain ⟨hconfidence, hconfidence', hcycle, hcycle'⟩ := ofPreset_ne_zero p
  have hfields : ((t.minConfidence == (ofPreset p).minConfidence) &&
      ((t.runtimeErrors == (ofPreset p).runtimeErrors) &&
        ((t.cycleTimeMs == (ofPreset p).cycleTimeMs) && (t.largeUnit == (ofPreset p).largeUnit)))) = true := h
  rw [Bool.and_eq_true, Bool.and_eq_true, Bool.and_eq_true, beq_iff_eq (a := t.runtimeErrors),
    beq_iff_eq (a := t.largeUnit)] at hfields
  obtain ⟨hmin, herrors, htime, hlarge⟩ := hfields
  show Thresholds.mk t.minConfidence t.runtimeErrors t.cycleTimeMs t.largeUnit = ofPreset p
  rw [eq_of_beq_float hmin hconfidence hconfidence', herrors, eq_of_beq_float htime hcycle hcycle', hlarge]

/-- **A section that is left out is that of the preset.** -/
theorem getD_changed? {α : Type} [BEq α] {mine preset : α} (h : (mine == preset) = true → mine = preset) :
    (SettingsFile.changed? mine preset).getD preset = mine := by
  rw [SettingsFile.changed?]
  by_cases heq : (mine == preset) = true
  · rw [if_pos heq]
    exact (h heq).symm
  · rw [if_neg heq]
    rfl

/-- Nothing is replaced. -/
def SettingsOverrides.nothing : SettingsOverrides := ⟨none, none, none⟩

/-- What replaces nothing need not be written. -/
theorem SettingsOverrides.getD_nothing (o : SettingsOverrides) :
    (if o.isEmpty then none else some o).getD nothing = o := by
  by_cases hempty : o.isEmpty = true
  · rw [if_pos hempty]
    rw [isEmpty, Bool.and_eq_true, Bool.and_eq_true, Option.isNone_iff_eq_none,
      Option.isNone_iff_eq_none, Option.isNone_iff_eq_none] at hempty
    obtain ⟨thresholds, parallelism, suggestions⟩ := o
    obtain ⟨⟨rfl, rfl⟩, rfl⟩ := hempty
    rfl
  · rw [if_neg hempty]
    rfl

theorem Preset.ofWord?_word (p : Preset) : ofWord? p.word = some p := by
  cases p <;> decide

namespace SettingsFile

/-- The settings of a file with a known preset: its sections in place of those of the preset. -/
theorem settings?_eq {f : SettingsFile} {p : Preset} (hversion : f.version = some currentVersion)
    (hpreset : Preset.ofWord? f.preset = some p) :
    f.settings? = .ok ((f.overrides.getD .nothing).apply
      { Settings.ofPreset p with passes := f.passes.getD (.ofPreset p) }) := by
  have hsupported : SettingsError.supportedVersions.contains currentVersion = true := by decide
  simp only [settings?, hversion, hsupported, if_true, hpreset]
  cases f.overrides with
  | none => rfl
  | some o => rfl

/-- **The file for some settings describes them**, in whatever range. -/
theorem settings?_ofSettings (s : Settings) : (ofSettings s).settings? = .ok s := by
  have hpreset : Preset.ofWord? (ofSettings s).preset = some s.preset := Preset.ofWord?_word s.preset
  have hversion : (ofSettings s).version = some currentVersion := rfl
  rw [settings?_eq hversion hpreset, ofSettings, SettingsOverrides.getD_nothing]
  show Except.ok (Settings.mk s.preset ((changed? s.passes (.ofPreset s.preset)).getD (.ofPreset s.preset))
    ((changed? s.thresholds (.ofPreset s.preset)).getD (.ofPreset s.preset))
    ((changed? s.parallelism (.ofPreset s.preset)).getD (.ofPreset s.preset))
    ((changed? s.suggestions (.ofPreset s.preset)).getD (.ofPreset s.preset))) = .ok s
  rw [getD_changed? eq_of_beq, getD_changed? Thresholds.eq_ofPreset, getD_changed? eq_of_beq,
    getD_changed? eq_of_beq]

/-- **What is loaded is in range.** -/
theorem inRange_of_load {f : SettingsFile} {s : Settings} (h : f.load = .ok s) : s.InRange := by
  rw [load] at h
  cases hsettings : f.settings? with
  | error e => rw [hsettings] at h; cases h
  | ok s' =>
      rw [hsettings] at h
      have h : (s'.validate >>= fun _ => pure s') = .ok s := h
      cases hvalid : s'.validate with
      | error e => rw [hvalid] at h; cases h
      | ok =>
          rw [hvalid] at h
          obtain rfl := Except.ok.inj h
          exact s'.checks.eq_ok_iff.mp hvalid

/-- The file for some settings gives them back where they are valid. -/
theorem load_ofSettings (s : Settings) : (ofSettings s).load = s.validate.map fun _ => s := by
  rw [load, settings?_ofSettings]
  show (s.validate >>= fun _ => pure s) = _
  cases s.validate with
  | error e => rfl
  | ok => rfl

end SettingsFile

/-! ## Texts -/

deriving instance DecidableEq for Thresholds

deriving instance DecidableEq for SettingsOverrides

deriving instance DecidableEq for SettingsFile

namespace SettingsFormat

variable {format : SettingsFormat} {s : Settings}

/-- The format writes the file for some settings, and reads the contents of what it wrote. -/
def ReadsBack (format : SettingsFormat) (s : Settings) : Prop :=
  ∃ text, format.write (.ofSettings s) = some text ∧ format.read text = some (.ofSettings s)

/-- A format reads back what it wrote where the writer followed by the reader changes nothing. -/
theorem readsBack_of_bind (h : (format.write (.ofSettings s)).bind format.read = some (.ofSettings s)) :
    format.ReadsBack s :=
  Option.bind_eq_some_iff.mp h

/-- A text that is read as it was written is loaded as it was written. -/
theorem ReadsBack.exists_load (h : format.ReadsBack s) :
    ∃ text, format.save s = .ok text ∧ format.load text = s.validate.map fun _ => s := by
  obtain ⟨text, hwrite, hread⟩ := h
  refine ⟨text, ?_, ?_⟩
  · rw [save, hwrite]
  · rw [load, hread]
    exact SettingsFile.load_ofSettings s

/-- **What is loaded is in range**, from any text. -/
theorem inRange_of_load {text : String} (h : format.load text = .ok s) : s.InRange := by
  rw [load] at h
  split at h
  · exact SettingsFile.inRange_of_load h
  · cases h

/-- **Saving and loading agree in every format**, where it reads back what it wrote: valid settings are saved
    and given back, and others are refused with the range that they leave. Valid are the settings whose
    numbers are all in their ranges, so none with a threshold that is not a number; and whatever a format reads
    from a text, only valid settings are loaded. -/
theorem load_save (format : SettingsFormat) :
    (∀ s : Settings, format.ReadsBack s → ∃ text, format.save s = .ok text ∧
      (s.validate = .ok () → format.load text = .ok s) ∧
      (s.validate ≠ .ok () → ∃ field value low high hint,
        format.load text = .error (.range field value low high hint))) ∧
    (∀ s : Settings, s.thresholds.minConfidence.isNaN = true ∨ s.thresholds.cycleTimeMs.isNaN = true →
      s.validate ≠ .ok ()) ∧
    (∀ s : Settings, s.validate = .ok () ↔ s.InRange) ∧
    ∀ (text : String) (s : Settings), format.load text = .ok s → s.InRange := by
  refine ⟨?_, ?_, fun s => s.checks.eq_ok_iff, fun _ _ => inRange_of_load⟩
  · intro s hread
    obtain ⟨text, hsave, hload⟩ := hread.exists_load
    refine ⟨text, hsave, ?_, ?_⟩
    · intro hvalid
      rw [hload, hvalid]
      rfl
    · intro hvalid
      obtain ⟨field, value, low, high, hint, herror⟩ :=
        s.checks.exists_error fun hrange => hvalid (s.checks.eq_ok_iff.mpr hrange)
      rw [hload, herror]
      exact ⟨field, value, low, high, hint, rfl⟩
  · intro s hnan hvalid
    exact Settings.not_inRange_of_isNaN hnan (s.checks.eq_ok_iff.mp hvalid)

/-- The settings of a preset with another source of suggestions. -/
def fewSuggestions : Settings := { Settings.ofPreset .fast with suggestions := ⟨.model, 5⟩ }

/-- Settings with a threshold that is not a number. -/
def noConfidence : Settings := { Settings.ofPreset .custom with thresholds := ⟨0.0 / 0.0, 12, 50.0, 40⟩ }

/-- In YAML, settings that are given back, and settings that are refused. -/
theorem load_save_fewSuggestions :
    (yaml.ReadsBack fewSuggestions ∧ fewSuggestions.validate = .ok () ∧
      ∃ text, yaml.save fewSuggestions = .ok text ∧ yaml.load text = .ok fewSuggestions) ∧
    yaml.ReadsBack noConfidence ∧ noConfidence.thresholds.minConfidence.isNaN = true ∧
      ∃ text field value low high hint, yaml.save noConfidence = .ok text ∧
        yaml.load text = .error (.range field value low high hint) := by
  have hfew : yaml.ReadsBack fewSuggestions := readsBack_of_bind (by decide +kernel)
  have hno : yaml.ReadsBack noConfidence := readsBack_of_bind (by decide +kernel)
  have hvalid : fewSuggestions.validate = .ok () := by rfl
  have hnan : noConfidence.thresholds.minConfidence.isNaN = true := by decide
  obtain ⟨text, hsave, hload, -⟩ := (load_save yaml).1 fewSuggestions hfew
  obtain ⟨text', hsave', -, hrefuse⟩ := (load_save yaml).1 noConfidence hno
  obtain ⟨field, value, low, high, hint, herror⟩ :=
    hrefuse ((load_save yaml).2.1 noConfidence (Or.inl hnan))
  exact ⟨⟨hfew, hvalid, text, hsave, hload hvalid⟩, hno, hnan,
    text', field, value, low, high, hint, hsave', herror⟩

end SettingsFormat

end StLint

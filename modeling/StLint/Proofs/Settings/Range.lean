import StLint.Settings.Validation

/-!
# The ranges of settings

Settings are valid if and only if **every number is in its range**, and what is not valid is refused with the
range that it leaves. A value that is not a number is in no range.

* `Checks` — a validation that accepts what satisfies a condition and names a range otherwise.
* `Settings.InRange`, `Settings.checks` — the ranges, and that they are what is checked.
* `Settings.not_inRange_of_isNaN` — thresholds that are not numbers.
-/

namespace StLint

/-! ## Validations -/

/-- A validation accepts what satisfies a condition, and otherwise it names a range. -/
def Checks (v : Except SettingsError Unit) (p : Prop) : Prop :=
  p ∧ v = .ok () ∨ ¬ p ∧ ∃ field value low high hint, v = .error (.range field value low high hint)

namespace Checks

variable {p q : Prop} {v w : Except SettingsError Unit} {field value low high hint : String}

/-- The last range to be checked. -/
theorem last [Decidable p] :
    Checks (if p then pure () else throw (.range field value low high hint)) p := by
  by_cases hp : p
  · rw [if_pos hp]
    exact Or.inl ⟨hp, rfl⟩
  · rw [if_neg hp]
    exact Or.inr ⟨hp, _, _, _, _, _, rfl⟩

/-- A range that is checked before others. -/
theorem first [Decidable p] {rest : Unit → Except SettingsError Unit} (h : Checks (rest ()) q) :
    Checks (if p then rest () else throw (.range field value low high hint) >>= rest) (p ∧ q) := by
  by_cases hp : p
  · rw [if_pos hp]
    rcases h with ⟨hq, hv⟩ | ⟨hq, hv⟩
    · exact Or.inl ⟨⟨hp, hq⟩, hv⟩
    · exact Or.inr ⟨fun h => hq h.2, hv⟩
  · rw [if_neg hp]
    exact Or.inr ⟨fun h => hp h.1, _, _, _, _, _, rfl⟩

/-- One validation after another one. -/
theorem bind (h : Checks v p) (h' : Checks w q) : Checks (v >>= fun _ => w) (p ∧ q) := by
  rcases h with ⟨hp, rfl⟩ | ⟨hp, field, value, low, high, hint, rfl⟩
  · rcases h' with ⟨hq, rfl⟩ | ⟨hq, hw⟩
    · exact Or.inl ⟨⟨hp, hq⟩, rfl⟩
    · exact Or.inr ⟨fun h => hq h.2, hw⟩
  · exact Or.inr ⟨fun h => hp h.1, _, _, _, _, _, rfl⟩

theorem congr (h : Checks v p) (hpq : p ↔ q) : Checks v q := propext hpq ▸ h

theorem eq_ok_iff (h : Checks v p) : v = .ok () ↔ p := by
  rcases h with ⟨hp, rfl⟩ | ⟨hp, _, _, _, _, _, rfl⟩
  · exact iff_of_true rfl hp
  · exact iff_of_false nofun hp

/-- **What is refused leaves a range.** -/
theorem exists_error (h : Checks v p) (hp : ¬ p) :
    ∃ field value low high hint, v = .error (.range field value low high hint) :=
  (h.resolve_left fun h => hp h.1).2

end Checks

/-! ## Ranges -/

theorem floatWithin_iff {low high x : Float} : floatWithin low high x = true ↔ low ≤ x ∧ x ≤ high := by
  rw [floatWithin, Bool.and_eq_true, decide_eq_true_eq, decide_eq_true_eq]

/-- The thresholds are in their ranges. -/
structure Thresholds.InRange (t : Thresholds) : Prop where
  minConfidence : 0.0 ≤ t.minConfidence ∧ t.minConfidence ≤ 1.0
  runtimeErrors : t.runtimeErrors ≤ 100000
  cycleTimeMs : 1.0 ≤ t.cycleTimeMs ∧ t.cycleTimeMs ≤ 60000.0
  largeUnit : 1 ≤ t.largeUnit ∧ t.largeUnit ≤ 100000

/-- The numbers of the sharing among workers are in their ranges. -/
structure Parallelism.InRange (p : Parallelism) : Prop where
  workers : p.workers ≤ 256
  minUnits : 1 ≤ p.minUnits ∧ p.minUnits ≤ 10000

/-- The number of suggestions is in its range. -/
structure SuggestionSettings.InRange (s : SuggestionSettings) : Prop where
  maxSuggestions : 1 ≤ s.maxSuggestions ∧ s.maxSuggestions ≤ 10000

/-- Every number of the settings is in its range. -/
structure Settings.InRange (s : Settings) : Prop where
  thresholds : s.thresholds.InRange
  parallelism : s.parallelism.InRange
  suggestions : s.suggestions.InRange

theorem Thresholds.checks (t : Thresholds) : Checks t.validate t.InRange := by
  refine (Checks.first (.first (.first .last))).congr ?_
  rw [floatWithin_iff, floatWithin_iff]
  constructor
  · rintro ⟨hconfidence, herrors, hcycle, hlarge⟩
    exact ⟨hconfidence, herrors, hcycle, hlarge⟩
  · rintro ⟨hconfidence, herrors, hcycle, hlarge⟩
    exact ⟨hconfidence, herrors, hcycle, hlarge⟩

theorem Parallelism.checks (p : Parallelism) : Checks p.validate p.InRange :=
  (Checks.first .last).congr ⟨fun h => ⟨h.1, h.2⟩, fun h => ⟨h.workers, h.minUnits⟩⟩

theorem SuggestionSettings.checks (s : SuggestionSettings) : Checks s.validate s.InRange :=
  Checks.last.congr ⟨fun h => ⟨h⟩, fun h => h.maxSuggestions⟩

/-- **Settings are valid if and only if every number is in its range.** -/
theorem Settings.checks (s : Settings) : Checks s.validate s.InRange :=
  (s.thresholds.checks.bind (s.parallelism.checks.bind s.suggestions.checks)).congr
    ⟨fun h => ⟨h.1, h.2.1, h.2.2⟩, fun h => ⟨h.thresholds, h.parallelism, h.suggestions⟩⟩

/-- Every preset is in range. -/
theorem Settings.inRange_ofPreset (p : Preset) : (ofPreset p).InRange := by
  rw [← (ofPreset p).checks.eq_ok_iff]
  cases p <;> rfl

/-! ## What is not a number -/

/-- What is not a number is behind no number. -/
theorem not_le_of_isNaN {low x : Float} (h : x.isNaN = true) : ¬ low ≤ x := by
  intro hle
  have hnan : x.toModel.unpack.isNaN = true := h
  have hcompare : Option.any Ordering.isLE (low.toModel.unpack.compare x.toModel.unpack) = true :=
    of_decide_eq_true hle
  cases hx : x.toModel.unpack with
  | notANumber =>
      rw [hx] at hcompare
      cases hlow : low.toModel.unpack with
      | _ => rw [hlow] at hcompare; exact Bool.noConfusion hcompare
  | _ => rw [hx] at hnan; exact Bool.noConfusion hnan

/-- **Thresholds that are not numbers are refused.** -/
theorem Settings.not_inRange_of_isNaN {s : Settings}
    (h : s.thresholds.minConfidence.isNaN = true ∨ s.thresholds.cycleTimeMs.isNaN = true) :
    ¬ s.InRange := by
  intro hrange
  rcases h with hconfidence | hcycle
  · exact not_le_of_isNaN hconfidence hrange.thresholds.minConfidence.1
  · exact not_le_of_isNaN hcycle hrange.thresholds.cycleTimeMs.1

end StLint

import StLint.Proofs.Analysis.LineEnd
import StLint.Proofs.Analysis.Order
import StLint.Proofs.Number.Order
import StLint.Proofs.Settings.Range

/-!
# The highest confidence

Settings may ask for more confidence than any finding has. They are valid, and the warning about them
says that nothing will be reported. **The warning is truthful, and it is given no earlier than it must
be**: whatever a check or a rule finds has a confidence from zero to the highest one, which a circle of
units reaches.

* `Issue.IsBounded` — a confidence in this range.
* `Check.isBounded_of_mem_unitChecks`, `Check.isBounded_of_mem_projectChecks`, `Rules.isBounded_ofUnit` — what
  is found on any input.
* `Engine.confidenceWarning_exact` — the warning, and the reports that it speaks of.
-/

namespace StLint

/-- A confidence from zero to the highest one. -/
def Issue.IsBounded (i : Issue) : Prop :=
  0.0 ≤ i.confidence ∧ i.confidence ≤ Settings.highestConfidence

/-- The warning about the confidence that settings ask for. -/
def Settings.confidenceWarning (s : Settings) : String :=
  "min_confidence " ++ String.ofList (Decimal.plain s.thresholds.minConfidence) ++
    " is above every pass confidence; all findings will be filtered"

/-- The other warning begins with another letter. -/
theorem Settings.confidenceWarning_ne (s : Settings) :
    s.confidenceWarning ≠ "every analysis pass is disabled" := by
  intro h
  have htext : s.confidenceWarning = "min_confidence " ++ (_ ++ _) := String.append_assoc ..
  have hhead := congrArg (fun w : String => w.toList.head?) (htext.symm.trans h)
  rw [String.toList_append] at hhead
  exact nomatch hhead

/-- **The warning is given** if the settings ask for more than the highest confidence. -/
theorem Settings.confidenceWarning_mem_iff (s : Settings) :
    s.confidenceWarning ∈ s.warnings ↔ s.thresholds.minConfidence > highestConfidence := by
  have hother : s.confidenceWarning ∉
      (if s.passes.isEmpty then ["every analysis pass is disabled"] else []) := by
    intro h
    split at h
    · exact s.confidenceWarning_ne (List.mem_singleton.mp h)
    · cases h
  rw [warnings, List.mem_append, or_iff_left hother]
  by_cases hhigh : s.thresholds.minConfidence > highestConfidence
  · rw [if_pos hhigh]
    exact iff_of_true (List.mem_singleton.mpr rfl) hhigh
  · rw [if_neg hhigh]
    exact iff_of_false List.not_mem_nil hhigh

/-! ## What is found -/

/-- A finding has the confidence that it was given. -/
theorem Issue.isBounded_found {c : Float}
    (hc : 0.0 ≤ clampConfidence c ∧ clampConfidence c ≤ Settings.highestConfidence)
    {type : IssueType} {severity : Severity} {title description suggestion : String}
    {unitNames : List String} {line : Option Nat} :
    (found type severity title description unitNames line suggestion c).IsBounded := hc

namespace Check

variable {u : Pou} {p : Project} {i : Issue}

theorem isBounded_loops (h : i ∈ loops u) : i.IsBounded := by
  obtain ⟨n, -, hn⟩ := List.mem_filterMap.mp h
  rw [Loops.ofNode?] at hn
  split at hn
  · obtain ⟨b, -, rfl⟩ := Option.map_eq_some_iff.mp hn
    exact Issue.isBounded_found (by decide)
  · obtain rfl := Option.some.inj hn
    exact Issue.isBounded_found (by decide)
  · cases hn

theorem isBounded_divisions (h : i ∈ divisions u) : i.IsBounded := by
  rw [Issue.IsBounded, Engine.confidence_of_mem_divisions h]
  decide

theorem isBounded_indexing (h : i ∈ indexing u) : i.IsBounded := by
  rw [Issue.IsBounded, Engine.confidence_of_mem_indexing h]
  decide

theorem isBounded_naming (h : i ∈ naming u) : i.IsBounded := by
  obtain ⟨v, -, rfl⟩ := List.mem_map.mp h
  exact Issue.isBounded_found (by decide)

theorem isBounded_coupling (h : i ∈ coupling p) : i.IsBounded := by
  rcases List.mem_append.mp h with h | h
  · obtain ⟨names, -, rfl⟩ := List.mem_map.mp h
    exact Issue.isBounded_found (by decide)
  · obtain ⟨u, -, h⟩ := List.mem_flatMap.mp h
    obtain ⟨d, -, rfl⟩ := List.mem_map.mp h
    exact Issue.isBounded_found (by decide)

theorem isBounded_runtime (h : i ∈ runtime p) : i.IsBounded := by
  rw [runtime] at h
  split at h
  · cases h
  · obtain ⟨key, -, h⟩ := List.mem_flatMap.mp h
    rcases List.mem_append.mp h with h | h
    · split at h
      · obtain rfl := List.mem_singleton.mp h
        exact Issue.isBounded_found (by decide)
      · cases h
    · obtain ⟨mean, -, rfl⟩ := Option.map_eq_some_iff.mp (Option.mem_toList.mp h)
      exact Issue.isBounded_found (by decide)

/-- **What a check of units finds** has a confidence in the range. -/
theorem isBounded_of_mem_unitChecks {c : UnitCheck} (hc : c ∈ unitChecks) (u : Pou) :
    ∃ found, c.run u = .ok found ∧ ∀ i ∈ found, i.IsBounded := by
  simp only [unitChecks, List.mem_cons, List.not_mem_nil, or_false] at hc
  rcases hc with rfl | rfl | rfl | rfl
  · exact ⟨loops u, rfl, fun _ => isBounded_loops⟩
  · exact ⟨divisions u, rfl, fun _ => isBounded_divisions⟩
  · exact ⟨indexing u, rfl, fun _ => isBounded_indexing⟩
  · exact ⟨naming u, rfl, fun _ => isBounded_naming⟩

/-- **What a check of projects finds** has a confidence in the range. -/
theorem isBounded_of_mem_projectChecks {c : ProjectCheck} (hc : c ∈ projectChecks) (p : Project) :
    ∃ found, c.run p = .ok found ∧ ∀ i ∈ found, i.IsBounded := by
  simp only [projectChecks, List.mem_cons, List.not_mem_nil, or_false] at hc
  rcases hc with rfl | rfl
  · exact ⟨coupling p, rfl, fun _ => isBounded_coupling⟩
  · exact ⟨runtime p, rfl, fun _ => isBounded_runtime⟩

end Check

/-- **What the rules suggest** has a confidence in the range. -/
theorem Rules.isBounded_ofUnit {t : Thresholds} {u : Pou} {i : Issue} (h : i ∈ ofUnit t u) :
    i.IsBounded := by
  rw [ofUnit, List.mem_append, List.mem_append, List.mem_append, List.mem_append] at h
  rcases h with (((h | h) | h) | h) | h
  · obtain ⟨v, -, rfl⟩ := List.mem_map.mp h
    exact Issue.isBounded_found (by decide)
  · obtain ⟨n, -, h⟩ := List.mem_flatMap.mp h
    obtain ⟨literal, -, rfl⟩ := List.mem_map.mp h
    exact Issue.isBounded_found (by decide)
  · obtain ⟨n, -, rfl⟩ := List.mem_map.mp h
    exact Issue.isBounded_found (by decide)
  · rw [missingDescription] at h
    split at h
    · cases h
    · obtain rfl := List.mem_singleton.mp h
      exact Issue.isBounded_found (by decide)
  · rw [largeUnit] at h
    split at h
    · obtain rfl := List.mem_singleton.mp h
      exact Issue.isBounded_found (by decide)
    · cases h

namespace Engine

variable {s : Settings} {p : Project} {i : Issue}

/-! ## What is put together -/

/-- The name of a check changes nothing in the confidence of what it finds. -/
theorem isBounded_contribution {name : String} {result : Except Failure (List Issue)}
    (h : ∃ found, result = .ok found ∧ ∀ i ∈ found, i.IsBounded)
    (hi : i ∈ Outcome.contribution name result) : i.IsBounded := by
  obtain ⟨found, rfl, hfound⟩ := h
  obtain ⟨j, hj, rfl⟩ := List.mem_map.mp hi
  exact hfound j hj

/-- **Everything that is found with the checks and the rules of the library** has a confidence in the
    range. -/
theorem isBounded_find {includeSuggestions : Bool}
    (h : i ∈ ((Engine.of s).find .rules includeSuggestions p).issues) : i.IsBounded := by
  rw [issues_find_eq, List.mem_append, List.mem_append] at h
  rcases h with (h | h) | h
  · obtain ⟨u, -, h⟩ := List.mem_flatMap.mp h
    obtain ⟨c, hc, hi⟩ := List.mem_flatMap.mp h
    exact isBounded_contribution (Check.isBounded_of_mem_unitChecks (List.mem_filter.mp hc).1 u) hi
  · obtain ⟨c, hc, hi⟩ := List.mem_flatMap.mp h
    exact isBounded_contribution (Check.isBounded_of_mem_projectChecks (List.mem_filter.mp hc).1 p) hi
  · split at h
    · obtain ⟨j, hj, rfl⟩ := List.mem_map.mp h
      obtain ⟨u, -, hu⟩ := List.mem_flatMap.mp (List.mem_of_mem_take hj)
      have hbounded : j.IsBounded := Rules.isBounded_ofUnit hu
      exact hbounded
    · cases h

/-- **Above the highest confidence nothing is reported.** -/
theorem analyze_eq_nil (h : s.thresholds.minConfidence > Settings.highestConfidence) (units : List Pou)
    (log : Option RuntimeLog) (request : AnalysisRequest) :
    ((Engine.of s).analyze units log request .rules).issues = [] := by
  rw [analyze_eq_reportOn]
  show (Engine.of s).select request ((Engine.of s).find .rules request.includeSuggestions
    (.of units log s.thresholds)).issues = []
  rw [select, List.filter_eq_nil_iff.mpr]
  · rw [List.map_nil, List.mergeSort_nil]
  · intro i hi hkeeps
    have hbounded : i.IsBounded := isBounded_find ((firstBy_sublist _ _).subset hi)
    rw [keeps, Bool.and_eq_true, decide_eq_true_eq] at hkeeps
    exact Number.not_le_of_lt_of_le hbounded.2 h hkeeps.2

/-! ## A finding with the highest confidence -/

/-- A circle has the highest confidence. -/
theorem confidence_of_isCircle {provider : SuggestionProvider}
    (h : i ∈ ((Engine.of s).find provider false p).issues) (hcircle : i.isCircle = true) :
    i.confidence = Settings.highestConfidence := by
  rw [issues_find_without, List.mem_append] at h
  rcases h with h | h
  · obtain ⟨u, -, hu⟩ := List.mem_flatMap.mp h
    rw [(onlyOf_of_mem_checkUnit s hu).isCircle_eq] at hcircle
    cases hcircle
  · obtain ⟨c, hc, hi⟩ := List.mem_flatMap.mp h
    have hmem : c ∈ Check.projectChecks := (List.mem_filter.mp hc).1
    simp only [Check.projectChecks, List.mem_cons, List.not_mem_nil, or_false] at hmem
    rcases hmem with rfl | rfl
    · obtain ⟨j, hj, rfl⟩ := List.mem_map.mp hi
      have hj' : j ∈ (Check.coupling p).filter Issue.isCircle := List.mem_filter.mpr ⟨hj, hcircle⟩
      rw [Check.circles_coupling] at hj'
      obtain ⟨names, -, rfl⟩ := List.mem_map.mp hj'
      rfl
    · obtain ⟨j, hj, rfl⟩ := List.mem_map.mp hi
      have hj' : j ∈ (Check.runtime p).filter Issue.isCircle := List.mem_filter.mpr ⟨hj, hcircle⟩
      rw [Check.circles_runtime] at hj'
      cases hj'

/-- A unit that calls itself. -/
def selfCaller : Pou := { (default : Pou) with name := "A", dependencies := ["A"] }

theorem circle_mem_coupling (log : Option RuntimeLog) (t : Thresholds) :
    Check.circle ["A"] ∈ Check.coupling (.of [selfCaller] log t) := by
  have hcycles : (Project.of [selfCaller] log t).graph.cycles = [["A"]] := by cbv
  rw [Check.coupling, hcycles]
  exact List.mem_append_left _ (List.mem_singleton.mpr rfl)

/-- The circle is found by the check that looks for circles. -/
theorem circle_mem_find (hcheck : s.passes.dependencyCheck = true) :
    { Check.circle ["A"] with source := "dependency_check" } ∈
      ((Engine.of s).find .rules false (.of [selfCaller] none s.thresholds)).issues := by
  have hmem : ProjectCheck.total "dependency_check" Check.coupling ∈ (Engine.of s).projectChecks :=
    List.mem_filter.mpr ⟨List.mem_cons_self .., hcheck⟩
  rw [issues_find_without, List.mem_append]
  exact Or.inr (List.mem_flatMap.mpr
    ⟨_, hmem, List.mem_map_of_mem (circle_mem_coupling none s.thresholds)⟩)

/-- **Up to the highest confidence a circle is reported**, if it is looked for. -/
theorem analyze_selfCaller_ne_nil (hcheck : s.passes.dependencyCheck = true)
    (h : s.thresholds.minConfidence ≤ Settings.highestConfidence) :
    ((Engine.of s).analyze [selfCaller] none allFindings .rules).issues ≠ [] := by
  obtain ⟨i, hi, hkey⟩ := exists_mem_firstBy Issue.key (circle_mem_find hcheck)
  have hcircle : i.isCircle = true := Issue.isCircle_eq_of_key hkey
  have hkeeps : (Engine.of s).keeps allFindings i = true := by
    rw [keeps, accepts_allFindings, Bool.true_and, decide_eq_true_eq,
      confidence_of_isCircle ((firstBy_sublist _ _).subset hi) hcircle]
    exact h
  intro hnil
  have hreport : i.withId ∈ ((Engine.of s).analyze [selfCaller] none allFindings .rules).issues := by
    rw [analyze_eq_reportOn]
    exact List.mem_mergeSort.mpr (List.mem_map_of_mem (List.mem_filter.mpr ⟨hi, hkeeps⟩))
  rw [hnil] at hreport
  cases hreport

/-! ## The warning -/

/-- **The warning about the confidence is truthful.** It is given exactly to settings that ask for more
    than the highest confidence, and with such settings no analysis by the checks and the rules of the
    library reports anything: on every input each check and each rule finds only what has a confidence
    from zero to the highest one. Settings that ask for a number and are not warned report a circle of
    units, if they look for circles. -/
theorem confidenceWarning_exact (s : Settings) :
    (s.confidenceWarning ∈ s.warnings ↔ s.thresholds.minConfidence > Settings.highestConfidence) ∧
      (s.thresholds.minConfidence > Settings.highestConfidence → ∀ units log request,
        ((Engine.of s).analyze units log request .rules).issues = []) ∧
      (∀ c ∈ Check.unitChecks, ∀ u, ∃ found, c.run u = .ok found ∧ ∀ i ∈ found, i.IsBounded) ∧
      (∀ c ∈ Check.projectChecks, ∀ p, ∃ found, c.run p = .ok found ∧ ∀ i ∈ found, i.IsBounded) ∧
      (∀ t u, ∀ i ∈ Rules.ofUnit t u, i.IsBounded) ∧
      (s.passes.dependencyCheck = true → s.thresholds.minConfidence.isNaN = false →
        s.confidenceWarning ∉ s.warnings →
          ((Engine.of s).analyze [selfCaller] none allFindings .rules).issues ≠ []) := by
  refine ⟨s.confidenceWarning_mem_iff, analyze_eq_nil, fun c hc => Check.isBounded_of_mem_unitChecks hc,
    fun c hc => Check.isBounded_of_mem_projectChecks hc, fun t u i => Rules.isBounded_ofUnit, ?_⟩
  intro hcheck hnumber hunwarned
  rw [s.confidenceWarning_mem_iff] at hunwarned
  exact analyze_selfCaller_ne_nil hcheck (Number.le_of_not_lt (by decide) hnumber hunwarned)

/-- The settings where nothing is chosen but the confidence to ask for. -/
def asking (minConfidence : Float) : Settings :=
  { Settings.default with thresholds := { Settings.default.thresholds with minConfidence } }

/-- At 0.99 the settings are valid and the circle is found, but left out; at 0.95 it is reported. -/
theorem confidenceWarning_exact_asking :
    (asking 0.99).validate = .ok () ∧ (asking 0.99).confidenceWarning ∈ (asking 0.99).warnings ∧
      ((Engine.of (asking 0.99)).find .rules false
        (.of [selfCaller] none (asking 0.99).thresholds)).issues ≠ [] ∧
      ((Engine.of (asking 0.99)).analyze [selfCaller] none allFindings .rules).issues = [] ∧
      ((Engine.of (asking 0.95)).analyze [selfCaller] none allFindings .rules).issues ≠ [] := by
  obtain ⟨hwarned, hempty, -⟩ := confidenceWarning_exact (asking 0.99)
  obtain ⟨hwarned', -, -, -, -, hreported⟩ := confidenceWarning_exact (asking 0.95)
  refine ⟨by decide +kernel, hwarned.mpr (by decide), ?_, hempty (by decide) _ _ _, ?_⟩
  · exact List.ne_nil_of_mem (circle_mem_find rfl)
  · exact hreported rfl (by decide) (hwarned'.not.mpr (by decide))

end Engine

end StLint

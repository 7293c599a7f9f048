import StLint.Analysis.Engine
import StLint.Proofs.Collection.Distinct
import StLint.Proofs.Collection.Sorted
import StLint.Proofs.Report.Count

/-!
# What a report takes

From findings in any order and with any repetition a report takes an exact part, and all that it says
besides is **counted from what it took**. Which of several findings with one identity is kept, and the
id of each, do not depend on what is asked for: a request only **leaves findings out** before they are
ranked.

* `AnalysisRequest.Narrows` — a request that asks for no more than another one.
* `Issue.ranksBefore_trans`, `Issue.ranksBefore_total` — the ranking is a total preorder.
* `Engine.select_narrow`, `Engine.analyze_narrow` — the issues under a narrower request.
* `Engine.Takes` — the places of the findings that a report takes, in the order of the report.
* `Engine.Takes.unique` — there is one way only to take them.
* `Engine.takes_select` — the issues of a report are the findings at these places.
* `Report.Consistent` — a report whose numbers are those of its issues.
* `Engine.reportOn_exact` — every report takes what it should and is consistent.
-/

/-! ## Requests only filter

Since ranking is stable, leaving out more of the findings is the same before and after it. -/

namespace StLint

namespace AnalysisRequest

/-- A request asks for no more than another one: no other severity, no other type, and suggestions if
    the other one does. -/
structure Narrows (narrow wide : AnalysisRequest) : Prop where
  severities : ∀ s ∈ narrow.severities, s ∈ wide.severities
  types : ∀ t ∈ narrow.types, t ∈ wide.types
  includeSuggestions : narrow.includeSuggestions = wide.includeSuggestions

theorem accepts_iff {r : AnalysisRequest} {i : Issue} :
    r.accepts i = true ↔ i.severity ∈ r.severities ∧ i.type ∈ r.types := by
  rw [accepts, Bool.and_eq_true, List.contains_iff_mem, List.contains_iff_mem]

variable {narrow wide : AnalysisRequest}

theorem Narrows.accepts (h : narrow.Narrows wide) {i : Issue} (hi : narrow.accepts i = true) :
    wide.accepts i = true := by
  rw [accepts_iff] at hi ⊢
  exact ⟨h.severities _ hi.1, h.types _ hi.2⟩

end AnalysisRequest

namespace Issue

/-! ## The ranking -/

theorem ranksBefore_iff {a b : Issue} :
    a.ranksBefore b = true ↔ Decimal.totalKey b.rank ≤ Decimal.totalKey a.rank := by
  rw [ranksBefore, decide_eq_true_eq]

theorem ranksBefore_trans (a b c : Issue) (hab : a.ranksBefore b = true)
    (hbc : b.ranksBefore c = true) : a.ranksBefore c = true := by
  rw [ranksBefore_iff] at hab hbc ⊢
  exact Int.le_trans hbc hab

theorem ranksBefore_total (a b : Issue) : (a.ranksBefore b || b.ranksBefore a) = true := by
  rw [Bool.or_eq_true, ranksBefore_iff, ranksBefore_iff]
  exact Int.le_total _ _

end Issue

namespace Engine

variable {narrow wide : AnalysisRequest}

/-- An issue that a narrower request wants is kept under both requests or under neither. -/
theorem keeps_narrow (e : Engine) (h : narrow.Narrows wide) (i : Issue) :
    e.keeps narrow i = (narrow.accepts i && e.keeps wide i) := by
  rw [keeps, keeps]
  by_cases hi : narrow.accepts i = true
  · rw [hi, h.accepts hi, Bool.true_and, Bool.true_and]
  · rw [Bool.not_eq_true] at hi
    rw [hi, Bool.false_and, Bool.false_and]

/-- **A narrower request leaves out of the selection what it does not want**, and nothing else
    changes. -/
theorem select_narrow (e : Engine) (h : narrow.Narrows wide) (found : List Issue) :
    e.select narrow found = (e.select wide found).filter narrow.accepts := by
  rw [select, select, ← mergeSort_filter Issue.ranksBefore_trans Issue.ranksBefore_total,
    List.filter_map]
  -- an id changes neither the severity nor the type of an issue
  rw [show narrow.accepts ∘ Issue.withId = narrow.accepts from rfl, List.filter_filter]
  rw [show e.keeps narrow = fun i => narrow.accepts i && e.keeps wide i from
    funext (e.keeps_narrow h)]

/-- **Narrowing a request only filters.** Two requests that agree on suggestions find the same, so
    the issues under the narrower one are those of the other one that it accepts, in the same order
    and with the same ids. -/
theorem analyze_narrow (e : Engine) (units : List Pou) (log : Option RuntimeLog)
    (provider : SuggestionProvider) {narrow wide : AnalysisRequest} (h : narrow.Narrows wide) :
    (e.analyze units log narrow provider).issues
      = (e.analyze units log wide provider).issues.filter narrow.accepts := by
  show e.select narrow (e.find provider narrow.includeSuggestions _).issues = _
  rw [h.includeSuggestions]
  exact e.select_narrow h _

/-- A program with a loop that never runs and a division by a variable. -/
def loopAndDivision : List Pou :=
  (Pou.parse "t.st" "PROGRAM T\nFOR x := 5 TO 1 DO\ny := a / b;\nEND_FOR;\nEND_PROGRAM".toList).toOption.toList

/-- Warnings about logic, out of everything. -/
theorem analyze_narrow_logicWarnings :
    let warnings : AnalysisRequest := .of [.warning] [.logicError] true
    warnings.Narrows .everything ∧
      ((of .default).analyze loopAndDivision none warnings .rules).issues
        = ((of .default).analyze loopAndDivision none .everything .rules).issues.filter
            warnings.accepts :=
  ⟨⟨by decide, by decide, rfl⟩,
    analyze_narrow (of .default) loopAndDivision none .rules ⟨by decide, by decide, rfl⟩⟩

end Engine

/-! ## The places that are taken -/

namespace Engine

variable (e : Engine) (request : AnalysisRequest) (found : List Issue)

/-- A finding is taken: it is the first one with its identity, the request accepts it, and it is as
    likely as the settings ask for. -/
def IsTaken (n : Fin found.length) : Prop :=
  IsFirst Issue.key found n ∧ request.accepts found[n] = true ∧
    found[n].confidence ≥ e.settings.thresholds.minConfidence

instance decidableIsTaken (n : Fin found.length) : Decidable (e.IsTaken request found n) :=
  inferInstanceAs (Decidable (_ ∧ _ ∧ _))

/-- One finding is reported before another one: it has the higher rank, or they stand level and it
    was found first. -/
def ReportedBefore {found : List Issue} (m n : Fin found.length) : Prop :=
  Decimal.totalKey found[n].rank < Decimal.totalKey found[m].rank ∨
    Decimal.totalKey found[m].rank = Decimal.totalKey found[n].rank ∧ m < n

/-- The places of the findings that are taken, in the order in which they are reported. -/
structure Takes (places : List (Fin found.length)) : Prop where
  mem_iff : ∀ n, n ∈ places ↔ e.IsTaken request found n
  ordered : places.Pairwise ReportedBefore

variable {e request found}

theorem ReportedBefore.asymm {m n : Fin found.length} (h : ReportedBefore m n) :
    ¬ ReportedBefore n m := by
  rw [ReportedBefore] at h ⊢
  omega

/-- **Each finding is taken once.** -/
theorem Takes.nodup {places : List (Fin found.length)} (h : e.Takes request found places) :
    places.Nodup := by
  refine h.ordered.imp ?_
  rintro m n hbefore rfl
  exact hbefore.asymm hbefore

/-- **There is one way only to take findings.** -/
theorem Takes.unique {places others : List (Fin found.length)} (h : e.Takes request found places)
    (ho : e.Takes request found others) : others = places := by
  have hmem : ∀ n, n ∈ others ↔ n ∈ places := fun n => (ho.mem_iff n).trans (h.mem_iff n).symm
  have hperm : others.Perm places := (List.perm_ext_iff_of_nodup ho.nodup h.nodup).mpr hmem
  refine hperm.eq_of_pairwise ?_ ho.ordered h.ordered
  intro m n _ _ hmn hnm
  exact absurd hnm hmn.asymm

variable (e request found)

/-- The places of the findings that are kept, in the order in which they were found. -/
def keptPlaces : List (Fin found.length) :=
  (List.finRange found.length).filter (e.IsTaken request found ·)

theorem filter_firstBy_key :
    (firstBy Issue.key found).filter (e.keeps request) = (e.keptPlaces request found).map found.get := by
  rw [firstBy_eq_map_filter, List.filter_map, List.filter_filter, keptPlaces]
  congr 1
  refine List.filter_congr ?_
  intro n _
  rw [Bool.eq_iff_iff, Bool.and_eq_true, decide_eq_true_eq, decide_eq_true_eq, IsTaken]
  simp only [Function.comp_apply, keeps, Bool.and_eq_true, decide_eq_true_eq]
  exact and_comm

/-- One finding stands before another one, or may stand on either side of it. -/
def placeBefore (m n : Fin found.length) : Bool := found[m].ranksBefore found[n]

/-- **The issues of a report are the findings that it takes**, each with its id. -/
theorem takes_select : ∃ places, e.Takes request found places ∧
    e.select request found = places.map fun n => found[n].withId := by
  refine ⟨(e.keptPlaces request found).mergeSort (placeBefore found), ⟨?_, ?_⟩, ?_⟩
  · intro n
    rw [List.mem_mergeSort, keptPlaces, List.mem_filter, decide_eq_true_eq]
    exact and_iff_right (List.mem_finRange n)
  · -- the places rise before the sort, and it is stable
    have hrising : (e.keptPlaces request found).Pairwise (· < ·) :=
      (List.pairwise_lt_finRange found.length).filter _
    refine (pairwise_mergeSort_stable ?_ ?_ hrising).imp ?_
    · intro a b c
      exact Issue.ranksBefore_trans _ _ _
    · intro a b
      exact Issue.ranksBefore_total _ _
    · rintro m n ⟨hmn, hnm⟩
      rw [placeBefore, Issue.ranksBefore_iff] at hmn hnm
      rcases Int.lt_or_eq_of_le hmn with hlt | heq
      · exact Or.inl hlt
      · exact Or.inr ⟨heq.symm, hnm (Int.le_of_eq heq.symm)⟩
  · rw [select, filter_firstBy_key, List.map_map, List.map_mergeSort]
    · rfl
    · -- an id does not change the rank of an issue
      intro m _ n _
      rfl

/-- **No two issues of a report are one finding.** -/
theorem nodup_key_select : ((e.select request found).map Issue.key).Nodup := by
  obtain ⟨places, htakes, hselect⟩ := e.takes_select request found
  rw [hselect, List.map_map]
  refine List.pairwise_map.mpr (htakes.nodup.imp_of_mem ?_)
  intro m n hm hn hne heq
  obtain ⟨hmfirst, -⟩ := (htakes.mem_iff m).mp hm
  obtain ⟨hnfirst, -⟩ := (htakes.mem_iff n).mp hn
  rcases lt_or_gt_of_ne hne with hlt | hlt
  · exact hnfirst m hlt heq
  · exact hmfirst n hlt heq.symm

/-- Where everything is kept, a report without issues is one without findings. -/
theorem select_eq_nil_iff {e : Engine} {request : AnalysisRequest} {found : List Issue}
    (h : ∀ i ∈ found, e.keeps request i = true) : e.select request found = [] ↔ found = [] := by
  have hkept : (firstBy Issue.key found).filter (e.keeps request) = firstBy Issue.key found :=
    List.filter_eq_self.mpr fun i hi => h i ((firstBy_sublist Issue.key found).subset hi)
  rw [select, hkept, ← List.length_eq_zero_iff, List.length_mergeSort, List.length_map,
    List.length_eq_zero_iff, firstBy_eq_nil_iff]

/-- Where everything is kept and no two findings are one, a report has as many issues. -/
theorem length_select {e : Engine} {request : AnalysisRequest} {found : List Issue}
    (h : ∀ i ∈ found, e.keeps request i = true) (hkeys : found.Pairwise fun i j => i.key ≠ j.key) :
    (e.select request found).length = found.length := by
  rw [select, firstBy_eq_self Issue.key hkeys, List.filter_eq_self.mpr h, List.length_mergeSort,
    List.length_map]

end Engine

/-! ## The whole report -/

/-- A report that says of its issues what they are: no two of them are one finding, its counts and
    scores are counted from them, and the numbers in its recommendations add up to them. -/
structure Report.Consistent (r : Report) : Prop where
  keys : (r.issues.map Issue.key).Nodup
  total : r.totalIssues = r.issues.length
  critical : r.criticalIssues = (r.issues.filter fun i => i.severity = .critical).length
  warnings : r.warnings = (r.issues.filter fun i => i.severity = .warning).length
  scores_le : r.summary.complexity ≤ 100 ∧ r.summary.safety ≤ 100 ∧ r.summary.maintainability ≤ 100
  safety : (r.summary.safety : Int)
    = max 0 (100 - 10 * (r.issues.filter fun i => i.type.isSafety).length)
  maintainability : (r.summary.maintainability : Int)
    = max 0 (100 - 5 * (r.issues.filter fun i => i.type.isMaintainability).length)
  shown : (r.recommendations.map shownNumber).sum = r.totalIssues

theorem Report.consistent_of (units : List Pou) {issues : List Issue}
    (h : (issues.map Issue.key).Nodup) (failed : List String) :
    (Report.of issues (.of units issues) (StLint.recommendations issues) failed).Consistent where
  keys := h
  total := rfl
  critical := List.countP_eq_length_filter
  warnings := List.countP_eq_length_filter
  scores_le := ⟨complexityScore_le units, Nat.sub_le .., Nat.sub_le ..⟩
  safety := safetyScore_eq issues
  maintainability := maintainabilityScore_eq issues
  shown := sum_shownNumber issues

namespace Engine

/-- The report on some units, given what was found. -/
def reportOn (e : Engine) (request : AnalysisRequest) (units : List Pou) (found : Outcome) : Report :=
  let issues := e.select request found.issues
  .of issues (.of units issues) (recommendations issues) (firstBy id found.failed)

/-- An analysis reports on what its checks and its provider find. -/
theorem analyze_eq_reportOn (e : Engine) (units : List Pou) (log : Option RuntimeLog)
    (request : AnalysisRequest) (provider : SuggestionProvider) :
    e.analyze units log request provider
      = e.reportOn request units (e.find provider request.includeSuggestions
          (.of units log e.settings.thresholds)) :=
  rfl

/-- **A report takes exactly what it should**: whatever was found, its issues are the findings that are
    the first with their identity, accepted and likely enough, each once and with its id, by falling
    rank and, where the rank is the same, in the order in which they were found; and its counts, scores
    and recommendations are those of these issues. -/
theorem reportOn_exact (e : Engine) (request : AnalysisRequest) (units : List Pou) (found : Outcome) :
    (∃ places : List (Fin found.issues.length), e.Takes request found.issues places ∧
      places.Nodup ∧
      (e.reportOn request units found).issues = places.map fun n => found.issues[n].withId) ∧
    (e.reportOn request units found).Consistent := by
  obtain ⟨places, htakes, hselect⟩ := e.takes_select request found.issues
  refine ⟨⟨places, htakes, htakes.nodup, hselect⟩, ?_⟩
  exact Report.consistent_of units (e.nodup_key_select request found.issues) _

end Engine

end StLint

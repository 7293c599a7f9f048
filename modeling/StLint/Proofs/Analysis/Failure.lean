import StLint.Proofs.Analysis.Selection

/-!
# Checks and providers that fail

A check that fails finds nothing, and all others go on: a report shows of it **its name alone**. A provider
that fails is replaced by the rules, and not even its name is shown as that of a failed check.

* `Outcome.AddsFailures`, `Report.AddsFailure` — outcomes and reports that differ in the failures under one
  name.
* `Engine.mem_failed_find_iff` — the names of the checks that failed.
* `Engine.select_unsourced` — what reports a finding does not decide whether it is reported.
* `Engine.contributions`, `Engine.mem_select` — what the issues are selected from, and what stands in the report.
* `Engine.isolatesFailures` — whatever fails, the rest of the report stays as it is.
-/

namespace StLint

/-! ## Outcomes -/

namespace Outcome

variable {ι : Type} {name : String}

theorem issues_join_map (is : List ι) (f : ι → Outcome) :
    (Outcome.join (is.map f)).issues = is.flatMap fun i => (f i).issues := List.flatMap_map ..

theorem failed_join_map (is : List ι) (f : ι → Outcome) :
    (Outcome.join (is.map f)).failed = is.flatMap fun i => (f i).failed := List.flatMap_map ..

theorem mem_failed_of_iff {check : String} {result : Except Failure (List Issue)} :
    name ∈ (Outcome.of check result).failed ↔ check = name ∧ ∃ f, result = .error f := by
  cases result with
  | ok issues => exact ⟨nofun, fun h => nomatch h.2.choose_spec⟩
  | error f => exact List.mem_singleton.trans (eq_comm.trans (and_iff_left ⟨f, rfl⟩).symm)

/-- One outcome is another one with failures under a name added. -/
structure AddsFailures (name : String) (o o' : Outcome) : Prop where
  issues : o'.issues = o.issues
  failed : o'.failed.filter (· ≠ name) = o.failed

namespace AddsFailures

/-- None may be added. -/
theorem refl {o : Outcome} (h : name ∉ o.failed) : AddsFailures name o o where
  issues := rfl
  failed := List.filter_eq_self.mpr fun _ hmem => decide_eq_true fun heq => h (heq ▸ hmem)

/-- Outcomes that add failures one by one add them together. -/
theorem join_map {is : List ι} {f g : ι → Outcome} (h : ∀ i ∈ is, AddsFailures name (f i) (g i)) :
    AddsFailures name (.join (is.map f)) (.join (is.map g)) where
  issues := by
    rw [issues_join_map, issues_join_map]
    exact List.flatMap_congr fun i hi => (h i hi).issues
  failed := by
    rw [failed_join_map, failed_join_map, List.filter_flatMap]
    exact List.flatMap_congr fun i hi => (h i hi).failed

theorem join_pair {a b a' b' : Outcome} (ha : AddsFailures name a a') (hb : AddsFailures name b b') :
    AddsFailures name (.join [a, b]) (.join [a', b']) where
  issues := by
    show List.flatMap _ [a', b'] = List.flatMap _ [a, b]
    rw [List.flatMap_cons, List.flatMap_singleton, List.flatMap_cons, List.flatMap_singleton, ha.issues,
      hb.issues]
  failed := by
    show (List.flatMap _ [a', b']).filter _ = List.flatMap _ [a, b]
    rw [List.flatMap_cons, List.flatMap_singleton, List.flatMap_cons, List.flatMap_singleton,
      List.filter_append, ha.failed, hb.failed]

/-- **A check that fails adds its name**, and nothing else changes. -/
theorem of_error {before after : List Outcome} {c : String} {f : Failure}
    (hbefore : ∀ o ∈ before, c ∉ o.failed) (hafter : ∀ o ∈ after, c ∉ o.failed) :
    AddsFailures c (.join (before ++ after)) (.join (before ++ Outcome.of c (.error f) :: after)) where
  issues := by
    show List.flatMap _ _ = List.flatMap _ _
    rw [List.flatMap_append, List.flatMap_cons, List.flatMap_append]
    rfl
  failed := by
    have hkept : ∀ os : List Outcome, (∀ o ∈ os, c ∉ o.failed) →
        (os.flatMap Outcome.failed).filter (· ≠ c) = os.flatMap Outcome.failed := by
      intro os hos
      refine List.filter_eq_self.mpr ?_
      intro n hn
      obtain ⟨o, ho, hno⟩ := List.mem_flatMap.mp hn
      exact decide_eq_true fun heq => hos o ho (heq ▸ hno)
    show (List.flatMap _ _).filter _ = List.flatMap _ _
    rw [List.flatMap_append, List.flatMap_cons, List.flatMap_append, List.filter_append,
      List.filter_append, hkept before hbefore, hkept after hafter]
    show _ ++ ([c].filter (· ≠ c) ++ _) = _
    rw [List.filter_cons_of_neg (by simp), List.filter_nil, List.nil_append]

end AddsFailures

/-- What a check contributes: what it finds, under its name, and nothing where it fails. -/
def contribution (name : String) (result : Except Failure (List Issue)) : List Issue :=
  (result.toOption.getD []).map fun i => { i with source := name }

theorem issues_of (name : String) (result : Except Failure (List Issue)) :
    (Outcome.of name result).issues = contribution name result := by
  cases result <;> rfl

/-- The checks with other names do not fail under this one. -/
theorem not_mem_failed_of_map {check : ι → String} {cs : List ι} (h : name ∉ cs.map check)
    (run : ι → Except Failure (List Issue)) :
    ∀ o ∈ cs.map fun c => Outcome.of (check c) (run c), name ∉ o.failed := by
  intro o ho hmem
  obtain ⟨c, hc, rfl⟩ := List.mem_map.mp ho
  exact h (List.mem_map.mpr ⟨c, hc, (mem_failed_of_iff.mp hmem).1⟩)

end Outcome

/-- The check fails on a unit. -/
def UnitCheck.FailsOn (c : UnitCheck) (u : Pou) : Prop := ∃ f, c.run u = .error f

/-- The check fails on a project. -/
def ProjectCheck.FailsOn (c : ProjectCheck) (p : Project) : Prop := ∃ f, c.run p = .error f

/-! ## What is found and what failed -/

namespace Engine

variable {e : Engine} {name : String}

theorem failed_find_eq (e : Engine) (provider : SuggestionProvider) (includeSuggestions : Bool)
    (p : Project) : (e.find provider includeSuggestions p).failed
      = (Outcome.join [e.checkUnits p.units, e.checkProject p]).failed := by
  rw [find]
  cases includeSuggestions <;> rfl

/-- What is found is what the checks of units find on each unit, and then what those of projects and the
    provider do. -/
theorem issues_find (e : Engine) (provider : SuggestionProvider) (includeSuggestions : Bool) (p : Project) :
    (e.find provider includeSuggestions p).issues
      = (p.units.flatMap fun u => (e.checkUnit u).issues) ++
        (e.projectChecks.flatMap fun c => (Outcome.of c.name (c.run p)).issues) ++
        if includeSuggestions then e.suggestions provider p else [] := by
  have hjoin : (Outcome.join [e.checkUnits p.units, e.checkProject p]).issues
      = (p.units.flatMap fun u => (e.checkUnit u).issues) ++
        (e.projectChecks.flatMap fun c => (Outcome.of c.name (c.run p)).issues) := by
    show List.flatMap _ [_, _] = _
    rw [List.flatMap_cons, List.flatMap_singleton, checkUnits, checkProject, Outcome.issues_join_map,
      Outcome.issues_join_map]
  rw [find, ← hjoin]
  cases includeSuggestions
  · exact (List.append_nil _).symm
  · rfl

/-- **What is found is what each check contributes.** -/
theorem issues_find_eq (e : Engine) (provider : SuggestionProvider) (includeSuggestions : Bool)
    (p : Project) : (e.find provider includeSuggestions p).issues
      = (p.units.flatMap fun u => e.unitChecks.flatMap fun c => Outcome.contribution c.name (c.run u)) ++
        (e.projectChecks.flatMap fun c => Outcome.contribution c.name (c.run p)) ++
        if includeSuggestions then e.suggestions provider p else [] := by
  rw [issues_find]
  simp only [checkUnit, Outcome.issues_join_map, Outcome.issues_of]

/-- **The checks that failed** on a unit or on the project. -/
theorem mem_failed_find_iff {provider : SuggestionProvider} {includeSuggestions : Bool} {p : Project} :
    name ∈ (e.find provider includeSuggestions p).failed ↔
      (∃ u ∈ p.units, ∃ c ∈ e.unitChecks, c.name = name ∧ c.FailsOn u) ∨
        ∃ c ∈ e.projectChecks, c.name = name ∧ c.FailsOn p := by
  rw [failed_find_eq]
  show name ∈ List.flatMap _ [_, _] ↔ _
  rw [List.flatMap_cons, List.flatMap_singleton, List.mem_append, checkUnits, checkProject,
    Outcome.failed_join_map, Outcome.failed_join_map, List.mem_flatMap, List.mem_flatMap]
  refine or_congr (exists_congr fun u => and_congr_right fun _ => ?_)
    (exists_congr fun c => and_congr_right fun _ => Outcome.mem_failed_of_iff)
  rw [checkUnit, Outcome.failed_join_map, List.mem_flatMap]
  exact exists_congr fun c => and_congr_right fun _ => Outcome.mem_failed_of_iff

/-- Engines with the same settings whose checks differ in failures find the same otherwise. -/
theorem find_addsFailures (e e' : Engine) {p : Project} (hsettings : e'.settings = e.settings)
    (hunits : Outcome.AddsFailures name (e.checkUnits p.units) (e'.checkUnits p.units))
    (hproject : Outcome.AddsFailures name (e.checkProject p) (e'.checkProject p))
    (provider : SuggestionProvider) (includeSuggestions : Bool) :
    Outcome.AddsFailures name (e.find provider includeSuggestions p)
      (e'.find provider includeSuggestions p) := by
  have hjoin := hunits.join_pair hproject
  have hsuggestions : e'.suggestions provider p = e.suggestions provider p := by
    rw [suggestions, suggestions, hsettings]
  cases includeSuggestions with
  | false => exact hjoin
  | true => exact ⟨congrArg₂ (· ++ ·) hjoin.issues hsuggestions, hjoin.failed⟩

/-- A name that no check has is that of no failure. -/
theorem not_mem_failed_checkUnit (h : name ∉ e.unitChecks.map UnitCheck.name) (u : Pou) :
    name ∉ (e.checkUnit u).failed := by
  intro hmem
  obtain ⟨o, ho, hname⟩ := List.mem_flatMap.mp hmem
  exact Outcome.not_mem_failed_of_map h (fun c => c.run u) o ho hname

theorem not_mem_failed_checkUnits (h : name ∉ e.unitChecks.map UnitCheck.name) (units : List Pou) :
    name ∉ (e.checkUnits units).failed := by
  rw [checkUnits, Outcome.failed_join_map, List.mem_flatMap]
  rintro ⟨u, -, hmem⟩
  exact not_mem_failed_checkUnit h u hmem

theorem not_mem_failed_checkProject (h : name ∉ e.projectChecks.map ProjectCheck.name) (p : Project) :
    name ∉ (e.checkProject p).failed := by
  intro hmem
  obtain ⟨o, ho, hname⟩ := List.mem_flatMap.mp hmem
  exact Outcome.not_mem_failed_of_map h (fun c => c.run p) o ho hname

/-- **Leaving out a check of units that fails** takes its failures away and nothing else. -/
theorem find_addsFailures_unitCheck {before after : List UnitCheck} {c : UnitCheck}
    (hchecks : e.unitChecks = before ++ c :: after) (hfails : ∀ u, c.FailsOn u)
    (hname : c.name ∉ { e with unitChecks := before ++ after }.checkNames)
    (provider : SuggestionProvider) (includeSuggestions : Bool) (p : Project) :
    Outcome.AddsFailures c.name ({ e with unitChecks := before ++ after }.find provider includeSuggestions p)
      (e.find provider includeSuggestions p) := by
  rw [checkNames, List.mem_append, not_or, List.map_append, List.mem_append, not_or] at hname
  obtain ⟨⟨hbefore, hafter⟩, hproject⟩ := hname
  refine find_addsFailures { e with unitChecks := before ++ after } e rfl (.join_map fun u _ => ?_)
    (.refl (not_mem_failed_checkProject hproject p)) provider includeSuggestions
  obtain ⟨f, hf⟩ := hfails u
  rw [checkUnit, checkUnit, hchecks, List.map_append, List.map_append, List.map_cons, hf]
  exact .of_error (Outcome.not_mem_failed_of_map hbefore _) (Outcome.not_mem_failed_of_map hafter _)

/-- **Leaving out a check of projects that fails** takes its failure away and nothing else. -/
theorem find_addsFailures_projectCheck {before after : List ProjectCheck} {c : ProjectCheck}
    (hchecks : e.projectChecks = before ++ c :: after) {p : Project} (hfails : c.FailsOn p)
    (hname : c.name ∉ { e with projectChecks := before ++ after }.checkNames)
    (provider : SuggestionProvider) (includeSuggestions : Bool) :
    Outcome.AddsFailures c.name
      ({ e with projectChecks := before ++ after }.find provider includeSuggestions p)
      (e.find provider includeSuggestions p) := by
  rw [checkNames, List.mem_append, not_or, List.map_append, List.mem_append, not_or] at hname
  obtain ⟨hunits, hbefore, hafter⟩ := hname
  refine find_addsFailures { e with projectChecks := before ++ after } e rfl
    (.refl (not_mem_failed_checkUnits hunits p.units)) ?_ provider includeSuggestions
  obtain ⟨f, hf⟩ := hfails
  rw [checkProject, checkProject, hchecks, List.map_append, List.map_append, List.map_cons, hf]
  exact .of_error (Outcome.not_mem_failed_of_map hbefore _) (Outcome.not_mem_failed_of_map hafter _)

end Engine

/-! ## Reports -/

/-- One report is another one with a failed check added, if the check ran. -/
structure Report.AddsFailure (name : String) (ran : Prop) (r r' : Report) : Prop where
  /-- The issues, the counts, the scores and the recommendations are the same. -/
  same : { r' with failedChecks := r.failedChecks } = r
  others : r'.failedChecks.filter (· ≠ name) = r.failedChecks
  once : ran → r'.failedChecks.count name = 1
  never : ¬ ran → r'.failedChecks = r.failedChecks

/-- What reported an issue is forgotten. -/
def Issue.unsourced (i : Issue) : Issue := { i with source := "" }

/-- A report that does not say what reported its issues. -/
def Report.unsourced (r : Report) : Report := { r with issues := r.issues.map Issue.unsourced }

namespace Engine

variable {name : String}

/-- **Reports on outcomes that differ in failures** differ in the failed checks alone. -/
theorem reportOn_addsFailure (e : Engine) (request : AnalysisRequest) (units : List Pou)
    {found found' : Outcome} (h : Outcome.AddsFailures name found found') {ran : Prop}
    (hran : name ∈ found'.failed ↔ ran) :
    Report.AddsFailure name ran (e.reportOn request units found) (e.reportOn request units found') where
  same := by
    rw [reportOn, reportOn, h.issues]
    rfl
  others := by
    show (firstBy id found'.failed).filter (· ≠ name) = firstBy id found.failed
    rw [filter_firstBy id fun a b hab => by rw [show a = b from hab], h.failed]
  once hr := List.count_eq_one_of_mem (nodup_firstBy id _) (mem_firstBy_id.mpr (hran.mpr hr))
  never hr := by
    show firstBy id found'.failed = firstBy id found.failed
    rw [← h.failed, List.filter_eq_self.mpr]
    intro n hn
    refine decide_eq_true ?_
    rintro rfl
    exact hr (hran.mp hn)

/-- **What reports a finding does not decide whether it is reported**, and where. -/
theorem select_unsourced (e : Engine) (request : AnalysisRequest) (found : List Issue) :
    e.select request (found.map Issue.unsourced) = (e.select request found).map Issue.unsourced := by
  have hkeeps : e.keeps request ∘ Issue.unsourced = e.keeps request := rfl
  have hid : Issue.withId ∘ Issue.unsourced = Issue.unsourced ∘ Issue.withId := rfl
  rw [select, select, firstBy_map, List.filter_map, hkeeps, List.map_map, hid, ← List.map_map]
  refine (List.map_mergeSort ?_).symm
  intro i _ j _
  rfl

/-- A report without sources is one on findings without sources. -/
theorem unsourced_reportOn (e : Engine) (request : AnalysisRequest) (units : List Pou) (found : Outcome) :
    (e.reportOn request units found).unsourced
      = e.reportOn request units { found with issues := found.issues.map Issue.unsourced } := by
  have hcount : ∀ (is : List Issue) (p : Issue → Bool), p ∘ Issue.unsourced = p →
      (is.map Issue.unsourced).countP p = is.countP p := by
    intro is p hp
    rw [List.countP_map, hp]
  have hsummary : ∀ is : List Issue, Summary.of units (is.map Issue.unsourced) = Summary.of units is := by
    intro is
    rw [Summary.of, Summary.of, safetyScore, safetyScore, maintainabilityScore, maintainabilityScore,
      hcount is _ rfl, hcount is _ rfl]
  have hrecommendations : ∀ is : List Issue,
      recommendations (is.map Issue.unsourced) = recommendations is := by
    intro is
    rw [recommendations, recommendations, List.isEmpty_map]
    congr 2
    funext b
    rw [Bucket.recommendation?, Bucket.recommendation?, Bucket.count, Bucket.count, hcount is _ rfl]
  rw [reportOn, reportOn, select_unsourced, hsummary, hrecommendations, Report.unsourced, Report.of,
    Report.of, List.length_map, hcount _ _ rfl, hcount _ _ rfl]

/-- **Where a provider fails the rules answer** under its name. -/
theorem suggestions_of_error (e : Engine) {provider : SuggestionProvider} {p : Project} {f : Failure}
    (h : provider.suggest p = .error f) :
    e.suggestions provider p = ((Rules.suggestions p).take e.settings.suggestions.maxSuggestions).map
      fun i => { i with source := suggestionSource provider } := by
  rw [suggestions, h]

/-- **A provider that fails finds what the rules find**, but for the sources. -/
theorem unsourced_find_of_error (e : Engine) {provider : SuggestionProvider} {p : Project} {f : Failure}
    (h : provider.suggest p = .error f) (includeSuggestions : Bool) :
    (e.find provider includeSuggestions p).issues.map Issue.unsourced
      = (e.find .rules includeSuggestions p).issues.map Issue.unsourced := by
  have hsuggestions : (if includeSuggestions then e.suggestions provider p else []).map Issue.unsourced
      = (if includeSuggestions then e.suggestions .rules p else []).map Issue.unsourced := by
    cases includeSuggestions with
    | false => rfl
    | true =>
        show (e.suggestions provider p).map _ = (e.suggestions .rules p).map _
        rw [e.suggestions_of_error h, suggestions, List.map_map, List.map_map]
        rfl
  rw [issues_find_eq, issues_find_eq, List.map_append, hsuggestions, ← List.map_append]

/-- What each check finds on each unit on which it does not fail, and then what the checks of projects and the
    provider find. -/
def contributions (e : Engine) (units : List Pou) (log : Option RuntimeLog) (request : AnalysisRequest)
    (provider : SuggestionProvider) : List Issue :=
  (units.flatMap fun u => e.unitChecks.flatMap fun c => Outcome.contribution c.name (c.run u)) ++
    (e.projectChecks.flatMap fun c =>
      Outcome.contribution c.name (c.run (.of units log e.settings.thresholds))) ++
    if request.includeSuggestions then e.suggestions provider (.of units log e.settings.thresholds) else []

/-- What a check finds on a unit is contributed, whatever fails elsewhere. -/
theorem mem_contributions (e : Engine) {units : List Pou} (log : Option RuntimeLog)
    (request : AnalysisRequest) (provider : SuggestionProvider) {u : Pou} (hu : u ∈ units) {c : UnitCheck}
    (hc : c ∈ e.unitChecks) {found : List Issue} (hrun : c.run u = .ok found) {i : Issue} (hi : i ∈ found) :
    { i with source := c.name } ∈ e.contributions units log request provider := by
  refine List.mem_append_left _ (List.mem_append_left _ ?_)
  refine List.mem_flatMap.mpr ⟨u, hu, List.mem_flatMap.mpr ⟨c, hc, ?_⟩⟩
  rw [hrun]
  exact List.mem_map_of_mem hi

/-- **A finding that is the first one with its key and is kept** is selected. -/
theorem mem_select (e : Engine) {request : AnalysisRequest} {found : List Issue} {i : Issue}
    (hfirst : found.find? (fun j => j.key = i.key) = some i) (hkept : e.keeps request i = true) :
    i.withId ∈ e.select request found := by
  rw [select, List.mem_mergeSort]
  exact List.mem_map_of_mem (List.mem_filter.mpr ⟨(mem_firstBy_iff Issue.key).mpr hfirst, hkept⟩)

/-- **Whatever fails in an analysis, the rest of its report stays as it is.** -/
structure IsolatesFailures (e : Engine) (units : List Pou) (log : Option RuntimeLog)
    (request : AnalysisRequest) (provider : SuggestionProvider) : Prop where
  /-- A check of units that always fails, with a name of its own, might as well be left out, but for its
      name among the failed checks where there are units. -/
  unitCheck : ∀ before c after, e.unitChecks = before ++ c :: after → (∀ u, c.FailsOn u) →
    c.name ∉ { e with unitChecks := before ++ after }.checkNames →
    Report.AddsFailure c.name (units ≠ [])
      ({ e with unitChecks := before ++ after }.analyze units log request provider)
      (e.analyze units log request provider)
  /-- A check of projects that always fails, with a name of its own, might as well be left out, but for its
      name among the failed checks. -/
  projectCheck : ∀ before c after, e.projectChecks = before ++ c :: after → (∀ p, c.FailsOn p) →
    c.name ∉ { e with projectChecks := before ++ after }.checkNames →
    Report.AddsFailure c.name True
      ({ e with projectChecks := before ++ after }.analyze units log request provider)
      (e.analyze units log request provider)
  /-- The issues are selected from what each check finds on each unit on which it does not fail, and from
      what the checks of projects and the provider find. -/
  contributions : (e.analyze units log request provider).issues
    = e.select request (e.contributions units log request provider)
  /-- A check that fails on other units still contributes all that it finds on this one. -/
  contributed : ∀ u ∈ units, ∀ c ∈ e.unitChecks, ∀ found, c.run u = .ok found → ∀ i ∈ found,
    { i with source := c.name } ∈ e.contributions units log request provider
  /-- What is contributed stands in the report, with its id, where it is the first with its key and is kept. -/
  stands : ∀ i, (e.contributions units log request provider).find? (fun j => j.key = i.key) = some i →
    e.keeps request i = true → i.withId ∈ (e.analyze units log request provider).issues
  /-- The failed checks are those that failed on a unit or on the project, each once. -/
  failures : (e.analyze units log request provider).failedChecks.Nodup ∧
    ∀ name, name ∈ (e.analyze units log request provider).failedChecks ↔
      (∃ u ∈ units, ∃ c ∈ e.unitChecks, c.name = name ∧ c.FailsOn u) ∨
        ∃ c ∈ e.projectChecks, c.name = name ∧ c.FailsOn (.of units log e.settings.thresholds)
  /-- A provider that fails gives the suggestions of the rules, as many as are kept, under its own name, and
      its report is that with the rules but for the sources. It is no failed check. -/
  provider : ∀ f, provider.suggest (.of units log e.settings.thresholds) = .error f →
    e.suggestions provider (.of units log e.settings.thresholds)
      = ((Rules.suggestions (.of units log e.settings.thresholds)).take
          e.settings.suggestions.maxSuggestions).map
            (fun i => { i with source := suggestionSource provider }) ∧
    (e.analyze units log request provider).unsourced = (e.analyze units log request .rules).unsourced ∧
    (e.analyze units log request provider).failedChecks
      = (e.analyze units log { request with includeSuggestions := false } provider).failedChecks

/-- **Failures are isolated**, of checks of units and of projects and of the provider of suggestions. -/
theorem isolatesFailures (e : Engine) (units : List Pou) (log : Option RuntimeLog)
    (request : AnalysisRequest) (provider : SuggestionProvider) :
    e.IsolatesFailures units log request provider where
  unitCheck before c after hchecks hfails hname := by
    refine e.reportOn_addsFailure request units
      (find_addsFailures_unitCheck hchecks hfails hname provider _ _) ?_
    rw [mem_failed_find_iff]
    constructor
    · rintro (⟨u, hu, -⟩ | ⟨d, hd, hdname, -⟩)
      · exact List.ne_nil_of_mem hu
      · exact absurd (List.mem_append_right _ (List.mem_map.mpr ⟨d, hd, hdname⟩)) hname
    · intro hunits
      obtain ⟨u, hu⟩ := List.exists_mem_of_ne_nil units hunits
      have hc : c ∈ e.unitChecks := by
        rw [hchecks]
        exact List.mem_append_right _ (List.mem_cons_self ..)
      exact Or.inl ⟨u, hu, c, hc, rfl, hfails u⟩
  projectCheck before c after hchecks hfails hname := by
    refine e.reportOn_addsFailure request units
      (find_addsFailures_projectCheck hchecks (hfails _) hname provider _) ?_
    have hc : c ∈ e.projectChecks := by
      rw [hchecks]
      exact List.mem_append_right _ (List.mem_cons_self ..)
    exact iff_true_intro (mem_failed_find_iff.mpr (Or.inr ⟨c, hc, rfl, hfails _⟩))
  contributions := congrArg (e.select request) (e.issues_find_eq provider _ _)
  contributed _ hu _ hc _ hrun _ hi := e.mem_contributions log request provider hu hc hrun hi
  stands i hfirst hkept := by
    have hissues : (e.analyze units log request provider).issues
        = e.select request (e.contributions units log request provider) :=
      congrArg (e.select request) (e.issues_find_eq provider _ _)
    rw [hissues]
    exact e.mem_select hfirst hkept
  failures := ⟨nodup_firstBy id _, fun _ => mem_firstBy_id.trans mem_failed_find_iff⟩
  provider f hf := by
    refine ⟨e.suggestions_of_error hf, ?_, ?_⟩
    · rw [analyze_eq_reportOn, analyze_eq_reportOn, unsourced_reportOn, unsourced_reportOn,
        failed_find_eq, failed_find_eq, e.unsourced_find_of_error hf]
    · show firstBy id _ = firstBy id _
      rw [failed_find_eq, failed_find_eq]

/-- A failure of a check. -/
def checkFailure : Failure := ⟨.analysis, "boom", none, none⟩

/-- A check that always fails. -/
def failingCheck : UnitCheck := ⟨"always_fails", fun _ => .error checkFailure⟩

/-- A check that fails on units without a description and reports all others. -/
def pickyCheck : UnitCheck :=
  ⟨"picky", fun u =>
    if u.description.isNone then .error checkFailure
    else .ok [.inUnit u none .styleViolation .info "Described" u.name "" 0.9]⟩

/-- An engine with these checks. -/
def engineOf (unitChecks : List UnitCheck) : Engine := ⟨.default, unitChecks, []⟩

/-- Two units, of which one has a description. -/
def describedUnits : List Pou :=
  [{ (default : Pou) with name := "Main" }, { (default : Pou) with name := "Pump", description := some "A pump" }]

/-- What the check that fails on some units says of one with a description. -/
def describedPump : Issue :=
  { Issue.inUnit describedUnits[1] none .styleViolation .info "Described" "Pump" "" 0.9 with source := "picky" }

/-- The check that always fails is named once for both units, and the one that fails on one of them
    contributes what it finds on the other, which stands in the report. -/
theorem isolatesFailures_describedUnits :
    let request : AnalysisRequest := .of Severity.all IssueType.all false
    (∀ u, failingCheck.FailsOn u) ∧ failingCheck.name ∉ (engineOf [pickyCheck]).checkNames ∧
    Report.AddsFailure "always_fails" (describedUnits ≠ [])
      ((engineOf [pickyCheck]).analyze describedUnits none request .rules)
      ((engineOf [pickyCheck, failingCheck]).analyze describedUnits none request .rules) ∧
    ((engineOf [pickyCheck, failingCheck]).analyze describedUnits none request .rules).failedChecks
      = ["picky", "always_fails"] ∧
    (engineOf [pickyCheck, failingCheck]).contributions describedUnits none request .rules
      = [describedPump] ∧
    describedPump.withId
      ∈ ((engineOf [pickyCheck, failingCheck]).analyze describedUnits none request .rules).issues := by
  have hfails : ∀ u, failingCheck.FailsOn u := fun u => ⟨checkFailure, rfl⟩
  have hname : failingCheck.name ∉ (engineOf [pickyCheck]).checkNames := by decide
  have hisolates := isolatesFailures (engineOf [pickyCheck, failingCheck]) describedUnits none
    (.of Severity.all IssueType.all false) .rules
  have hcontributions : (engineOf [pickyCheck, failingCheck]).contributions describedUnits none
      (.of Severity.all IssueType.all false) .rules = [describedPump] := rfl
  refine ⟨hfails, hname, hisolates.unitCheck [pickyCheck] failingCheck [] rfl hfails hname, rfl,
    hcontributions, hisolates.stands _ ?_ (by decide)⟩
  rw [hcontributions]
  exact List.find?_cons_of_pos (decide_eq_true rfl)

end Engine

end StLint

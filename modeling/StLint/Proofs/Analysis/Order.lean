import Mathlib
import StLint.Proofs.Analysis.Failure
import StLint.Proofs.Analysis.Rearranged
import StLint.Proofs.Graph.Order

/-!
# Units in another order are analysed alike

Where no two units have one name, a report does not depend on **the order of the units** but for the order
of its issues, and for the order in which the units of a circle are listed. What checks of units find is
shuffled with the units; circles are found again; and nothing else asks where a unit stands.

* `Check.rearranged_of_mem_projectChecks` — what a check of projects finds is rearranged with the units.
* `Check.pairwise_circles` — no circle is found twice.
* `Engine.analyze_perm` — the reports on units in two orders agree.
-/

namespace StLint

/-! ## What the checks find -/

namespace Check

section Order

variable {units units' : List Pou} (hnames : DistinctNames units) (hperm : units.Perm units')
  (log : Option RuntimeLog) (t : Thresholds)

include hnames hperm

theorem unit?_perm : (Project.of units log t).unit? = (Project.of units' log t).unit? :=
  funext (unitNamed?_perm hnames hperm)

/-- The findings about dependencies are rearranged: circles are found again, and what is outside the
    project is outside it in every order. -/
theorem rearranged_coupling : Rearranged (coupling (.of units log t)) (coupling (.of units' log t)) := by
  refine Rearranged.append ?_ ?_
  · refine .of_circles ?_ ?_ ?_
    · exact List.forall_mem_map.mpr fun _ _ => rfl
    · exact List.forall_mem_map.mpr fun _ _ => rfl
    · rw [← Multiset.map_coe, ← Multiset.map_coe, Multiset.rel_map]
      refine (DependencyGraph.cycles_perm hnames hperm).mono ?_
      intro c _ c' _ hcc
      exact .circle (i := circle c) "" (circle c').description rfl hcc
  · have horphans : orphans (.of units log t) = orphans (.of units' log t) := by
      funext u
      rw [orphans, orphans, unit?_perm hnames hperm]
    rw [horphans]
    refine .of_perm hnames hperm ?_
    intro u i hi
    obtain ⟨d, -, rfl⟩ := List.mem_map.mp hi
    exact onlyOf_orphan u d

/-- The findings about the log stay. -/
theorem runtime_perm : runtime (.of units log t) = runtime (.of units' log t) := by
  cases log with
  | none => rfl
  | some log =>
      have hlog : Runtime.unitLog (.of units log t) = Runtime.unitLog (.of units' log t) := by
        funext log' key
        rw [Runtime.unitLog, Runtime.unitLog, unit?_perm hnames hperm]
      show List.flatMap _ _ = List.flatMap _ _
      rw [hlog]
      rfl

/-- **No check of projects** asks in which order the units stand. -/
theorem rearranged_of_mem_projectChecks {c : ProjectCheck} (hc : c ∈ projectChecks) :
    Rearranged (Outcome.of c.name (c.run (.of units log t))).issues
      (Outcome.of c.name (c.run (.of units' log t))).issues := by
  simp only [projectChecks, List.mem_cons, List.not_mem_nil, or_false] at hc
  rcases hc with rfl | rfl
  · exact (rearranged_coupling hnames hperm log t).withSource _
  · refine Rearranged.withSource _ ?_
    rw [runtime_perm hnames hperm]
    exact .refl _

end Order

section Circles

/-- The circles among the findings about dependencies are those of the graph. -/
theorem circles_coupling (p : Project) : (coupling p).filter Issue.isCircle = p.graph.cycles.map circle := by
  have hcircles : (p.graph.cycles.map circle).filter Issue.isCircle = p.graph.cycles.map circle :=
    List.filter_eq_self.mpr (List.forall_mem_map.mpr fun _ _ => rfl)
  rw [coupling, List.filter_append, hcircles, List.append_right_eq_self]
  refine Issue.filter_isCircle_eq_nil ?_
  intro i hi
  obtain ⟨u, -, hu⟩ := List.mem_flatMap.mp hi
  obtain ⟨d, -, rfl⟩ := List.mem_map.mp hu
  exact (onlyOf_orphan u d).isCircle_eq

/-- No finding about the log is a circle. -/
theorem circles_runtime (p : Project) : (runtime p).filter Issue.isCircle = [] := by
  refine Issue.filter_isCircle_eq_nil ?_
  intro i hi
  rw [runtime] at hi
  split at hi
  · cases hi
  · obtain ⟨key, -, hkey⟩ := List.mem_flatMap.mp hi
    rcases List.mem_append.mp hkey with herrors | hscans
    · split at herrors
      · obtain rfl := List.mem_singleton.mp herrors
        rfl
      · cases herrors
    · obtain ⟨mean, -, rfl⟩ := Option.map_eq_some_iff.mp (Option.mem_toList.mp hscans)
      rfl

/-- **No circle is found twice**, whichever checks are switched on. -/
theorem pairwise_circles {cs : List ProjectCheck} (hcs : cs.Sublist projectChecks) (units : List Pou)
    (log : Option RuntimeLog) (t : Thresholds) :
    ((cs.flatMap fun c => (Outcome.of c.name (c.run (.of units log t))).issues).filter
      Issue.isCircle).Pairwise fun i j => i.key ≠ j.key := by
  refine List.Pairwise.sublist ((hcs.flatMap _).filter _) ?_
  have hall : (projectChecks.flatMap fun c => (Outcome.of c.name (c.run (.of units log t))).issues)
      = ((coupling (.of units log t)).map fun i => { i with source := "dependency_check" }) ++
        (runtime (.of units log t)).map fun i => { i with source := "runtime_correlation" } := by
    rw [projectChecks, List.flatMap_cons, List.flatMap_singleton]
    rfl
  -- a source does not make an issue a circle
  have hsource : ∀ source, (Issue.isCircle ∘ fun i => { i with source }) = Issue.isCircle := fun _ => rfl
  rw [hall, List.filter_append, List.filter_map, List.filter_map, hsource, hsource, circles_coupling,
    circles_runtime, List.map_nil, List.append_nil, List.map_map]
  refine List.pairwise_map.mpr ((DependencyGraph.nodup_cycles units).imp ?_)
  intro c d hcd hkey
  exact hcd (congrArg IssueKey.unitNames hkey)

end Circles

end Check

namespace Engine

variable (s : Settings)

theorem onlyOf_of_mem_checkUnit {u : Pou} {i : Issue} (hi : i ∈ ((Engine.of s).checkUnit u).issues) :
    i.OnlyOf u := by
  obtain ⟨o, ho, hi⟩ := List.mem_flatMap.mp hi
  obtain ⟨c, hc, rfl⟩ := List.mem_map.mp ho
  obtain ⟨run, hrun, honly⟩ := Check.exists_run_of_mem_unitChecks (List.mem_filter.mp hc).1
  rw [hrun] at hi
  obtain ⟨j, hj, rfl⟩ := List.mem_map.mp hi
  exact ⟨(honly u j hj).unitNames, (honly u j hj).type_ne⟩

/-- **The checks of the library do not fail.** -/
theorem failed_find (provider : SuggestionProvider) (p : Project) :
    ((Engine.of s).find provider false p).failed = [] := by
  refine List.eq_nil_iff_forall_not_mem.mpr ?_
  intro name hname
  rcases mem_failed_find_iff.mp hname with ⟨u, -, c, hc, -, f, hf⟩ | ⟨c, hc, -, f, hf⟩
  · obtain ⟨run, hrun, -⟩ := Check.exists_run_of_mem_unitChecks (List.mem_filter.mp hc).1
    rw [hrun] at hf
    cases hf
  · obtain ⟨run, hrun⟩ := Check.exists_run_of_mem_projectChecks (List.mem_filter.mp hc).1
    rw [hrun] at hf
    cases hf

/-- Without suggestions, what is found is what the checks find. -/
theorem issues_find_without (provider : SuggestionProvider) (p : Project) :
    ((Engine.of s).find provider false p).issues
      = (p.units.flatMap fun u => ((Engine.of s).checkUnit u).issues) ++
        ((Engine.of s).projectChecks.flatMap fun c => (Outcome.of c.name (c.run p)).issues) := by
  rw [issues_find]
  exact List.append_nil _

/-- The circles that are found differ. -/
theorem pairwise_circles_find (provider : SuggestionProvider) (units : List Pou) (log : Option RuntimeLog)
    (t : Thresholds) :
    (((Engine.of s).find provider false (.of units log t)).issues.filter Issue.isCircle).Pairwise
      fun i j => i.key ≠ j.key := by
  have hunits : ((Project.of units log t).units.flatMap fun u =>
      ((Engine.of s).checkUnit u).issues).filter Issue.isCircle = [] := by
    refine Issue.filter_isCircle_eq_nil ?_
    intro i hi
    obtain ⟨u, -, hu⟩ := List.mem_flatMap.mp hi
    exact (onlyOf_of_mem_checkUnit s hu).isCircle_eq
  have hchecks : (Engine.of s).projectChecks.Sublist Check.projectChecks := List.filter_sublist
  rw [issues_find_without, List.filter_append, hunits, List.nil_append]
  exact Check.pairwise_circles hchecks units log t

/-- **What is found is rearranged with the units.** -/
theorem rearranged_find {units units' : List Pou} (hnames : DistinctNames units)
    (hperm : units.Perm units') (provider : SuggestionProvider) (log : Option RuntimeLog)
    (t : Thresholds) :
    Rearranged ((Engine.of s).find provider false (.of units log t)).issues
      ((Engine.of s).find provider false (.of units' log t)).issues := by
  rw [issues_find_without, issues_find_without]
  refine Rearranged.append ?_ (Rearranged.flatMap ?_)
  · exact .of_perm hnames hperm fun u i hi => onlyOf_of_mem_checkUnit s hi
  · intro c hc
    exact Check.rearranged_of_mem_projectChecks hnames hperm log t (List.mem_filter.mp hc).1

/-- **The order of the units does not matter.** Where no two units have one name, an analysis by the checks
    of the library without suggestions reports the same issues for the units in any order, with the same
    counts, scores, recommendations and failed checks; but the units of a circle may be listed in another
    order. -/
theorem analyze_perm {units units' : List Pou} (hnames : DistinctNames units)
    (hperm : units.Perm units') (log : Option RuntimeLog) {request : AnalysisRequest}
    (hrequest : request.includeSuggestions = false) (provider : SuggestionProvider) :
    ((Engine.of s).analyze units log request provider).Agrees
      ((Engine.of s).analyze units' log request provider) := by
  rw [analyze_eq_reportOn, analyze_eq_reportOn, hrequest]
  refine reportOn_agrees _ request hperm ?_ ?_
  · refine select_rel _ request (rearranged_find s hnames hperm provider log _) ?_ ?_
    · exact pairwise_circles_find s provider units log _
    · exact pairwise_circles_find s provider units' log _
  · rw [failed_find, failed_find]

/-- Two units that depend on each other and both on something outside the project, spelled in two ways. -/
def pumpUnits : List Pou :=
  let unit (name : String) (dependencies : List String) : Pou :=
    { (default : Pou) with name, dependencies }
  [unit "Main" ["PUMP", "Vendor"], unit "Pump" ["VENDOR", "main"], unit "Valve" []]

/-- Errors of one of them. -/
def pumpLog : RuntimeLog := ⟨List.replicate 9 ⟨"PUMP", .error, "Timeout", none, none⟩⟩

/-- The reports on these units in two orders, which list the units of a circle in two orders. -/
theorem analyze_perm_pumpUnits :
    let request : AnalysisRequest := .of Severity.all IssueType.all false
    DistinctNames pumpUnits ∧ pumpUnits.Perm pumpUnits.reverse ∧ request.includeSuggestions = false ∧
      (DependencyGraph.ofUnits pumpUnits).cycles = [["Main", "Pump"]] ∧
      (DependencyGraph.ofUnits pumpUnits.reverse).cycles = [["Pump", "Main"]] ∧
      ((Engine.of .default).analyze pumpUnits (some pumpLog) request .rules).Agrees
        ((Engine.of .default).analyze pumpUnits.reverse (some pumpLog) request .rules) :=
  have hnames : DistinctNames pumpUnits := by decide
  have hperm : pumpUnits.Perm pumpUnits.reverse := (List.reverse_perm _).symm
  ⟨hnames, hperm, rfl, by cbv, by cbv, analyze_perm .default hnames hperm (some pumpLog) rfl .rules⟩

end Engine

end StLint

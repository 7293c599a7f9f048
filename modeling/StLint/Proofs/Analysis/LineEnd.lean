import StLint.Proofs.Analysis.Selection
import StLint.Proofs.Check.LineEnd
import StLint.Proofs.Pou.Trace

/-!
# Reports on units with other line ends

The reader of units sees normal line ends only, so every file and every unit is read alike however its
lines end, but for the source that the unit keeps. A report may still change, since two checks read that
source again: **with carriage returns alone it stays the same exactly if whatever silences a check stands
on one line**.

* `Pou.parseFile_write`, `Pou.parse_write` — what the reader gives.
* `Engine.analyze_withSource` — what a report shows of the source of a unit.
* `Engine.analyze_write` — both together.
* `Engine.exists_lost_finding` — a finding that disappears.
-/

namespace StLint

open Text Source Check

namespace Pou

/-! ## The reader -/

theorem splitUnits_write (e : LineEnd) {s : List Char} (hs : '\r' ∉ s) :
    splitUnits (e.write s) = splitUnits s := by
  rw [splitUnits, splitUnits, normalizeLineEndings_write e hs, normalizeLineEndings_eq_self hs]

/-- **A file is read alike** however its lines end. -/
theorem parseFile_write (label : String) (e : LineEnd) {s : List Char} (hs : '\r' ∉ s) :
    parseFile label (e.write s) = parseFile label s := by
  rw [parseFile, parseFile, splitUnits_write e hs]

/-- **A unit is read alike** however its lines end, but for its source. -/
theorem parse_write (label : String) (e : LineEnd) {s : List Char} (hs : '\r' ∉ s) :
    parse label (e.write s) = (parse label s).map (withSource (e.write s)) := by
  rw [parse_eq_find, parse_eq_find, normalizeLineEndings_write e hs, normalizeLineEndings_eq_self hs]
  cases findDeclaration? (codeLines s) with
  | none => rfl
  | some x => exact congrArg Except.ok (ofDeclaration_withSource label s (e.write s) s _ x.1 x.2)

end Pou

/-! ## What a project shows of a unit's source -/

section Project

variable (text : List Char) (u : Pou)

theorem unitNamed?_withSource (name : String) :
    unitNamed? [u.withSource text] name = (unitNamed? [u] name).map (Pou.withSource text) := by
  rw [unitNamed?, unitNamed?, List.find?_cons, List.find?_cons]
  show (match eqIgnoreCase u.name.toList name.toList with | true => _ | false => _) = _
  cases eqIgnoreCase u.name.toList name.toList <;> rfl

theorem isNone_unitNamed?_withSource (name : String) :
    (unitNamed? [u.withSource text] name).isNone = (unitNamed? [u] name).isNone := by
  rw [unitNamed?_withSource, Option.isNone_map]

theorem edgeKind_withSource (dependency : String) :
    edgeKind [u.withSource text] (u.withSource text) dependency = edgeKind [u] u dependency := by
  rw [edgeKind, edgeKind, unitNamed?_withSource, Option.map_map]
  rfl

theorem dependencyPairs_singleton (v : Pou) :
    dependencyPairs [v] = v.dependencies.map fun d => (v, d) := by
  rw [dependencyPairs, List.flatMap_cons, List.flatMap_nil, List.append_nil]

/-- The graph of a unit does not show its source. -/
theorem build_withSource :
    DependencyGraph.build [u.withSource text] .unit = DependencyGraph.build [u] .unit := by
  have hnodes : (DependencyGraph.ofUnits [u.withSource text]).nodes
      = (DependencyGraph.ofUnits [u]).nodes := by
    rw [DependencyGraph.ofUnits, DependencyGraph.ofUnits]
    simp only [dependencyPairs_singleton, isNone_unitNamed?_withSource, List.filter_map, List.map_map]
    rfl
  have hedges : (DependencyGraph.ofUnits [u.withSource text]).edges
      = (DependencyGraph.ofUnits [u]).edges := by
    rw [DependencyGraph.ofUnits, DependencyGraph.ofUnits]
    dsimp only
    rw [dependencyPairs_singleton, dependencyPairs_singleton, List.map_map, List.map_map]
    refine List.map_congr_left ?_
    intro d _
    show (⟨unitId u.name, unitId d, edgeKind [u.withSource text] (u.withSource text) d⟩ : GraphEdge) = _
    rw [edgeKind_withSource]
    rfl
  exact congrArg₂ DependencyGraph.mk hnodes hedges

variable (log : Option RuntimeLog) (t : Thresholds)

theorem coupling_withSource :
    coupling (.of [u.withSource text] log t) = coupling (.of [u] log t) := by
  have horphans : orphans (.of [u.withSource text] log t) (u.withSource text)
      = orphans (.of [u] log t) u := by
    refine List.filter_congr ?_
    intro d _
    exact isNone_unitNamed?_withSource text u d
  rw [coupling, coupling]
  show (DependencyGraph.build [u.withSource text] .unit).cycles.map circle ++ ([_].flatMap _)
    = (DependencyGraph.build [u] .unit).cycles.map circle ++ ([_].flatMap _)
  rw [build_withSource, List.flatMap_cons, List.flatMap_cons, horphans]
  rfl

theorem runtime_withSource :
    runtime (.of [u.withSource text] log t) = runtime (.of [u] log t) := by
  have hunitLog : ∀ entries key, Runtime.unitLog (.of [u.withSource text] log t) entries key
      = Runtime.unitLog (.of [u] log t) entries key := by
    intro entries key
    rw [Runtime.unitLog, Runtime.unitLog, Project.unit?, Project.unit?]
    show (⟨((unitNamed? [u.withSource text] _).map Pou.name).getD _, _⟩ : Runtime.UnitLog) = _
    rw [unitNamed?_withSource, Option.map_map]
    rfl
  cases log with
  | none => rfl
  | some entries =>
      show (Runtime.unitKeys entries).flatMap _ = (Runtime.unitKeys entries).flatMap _
      simp only [hunitLog]
      rfl

/-- The rules do not read the source of a unit. -/
theorem suggestions_withSource :
    Rules.suggestions (.of [u.withSource text] log t) = Rules.suggestions (.of [u] log t) :=
  rfl

/-- The checks of units, where the two that read the source find the same. -/
theorem run_withSource {text : List Char} {u : Pou}
    (hdivisions : divisions (u.withSource text) = divisions u)
    (hindexing : indexing (u.withSource text) = indexing u) {c : UnitCheck} (hc : c ∈ unitChecks) :
    c.run (u.withSource text) = c.run u := by
  simp only [unitChecks, List.mem_cons, List.not_mem_nil, or_false] at hc
  rcases hc with rfl | rfl | rfl | rfl
  · rfl
  · exact congrArg Except.ok hdivisions
  · exact congrArg Except.ok hindexing
  · rfl

theorem runProject_withSource {c : ProjectCheck} (hc : c ∈ projectChecks) :
    c.run (.of [u.withSource text] log t) = c.run (.of [u] log t) := by
  simp only [projectChecks, List.mem_cons, List.not_mem_nil, or_false] at hc
  rcases hc with rfl | rfl
  · exact congrArg Except.ok (coupling_withSource text u log t)
  · exact congrArg Except.ok (runtime_withSource text u log t)

end Project

namespace Engine

/-- Without a model suggestions are made by rule, whatever the settings name. -/
theorem named_none (decode : Model.RemarkDecoder) (s : SuggestionSettings) :
    SuggestionProvider.named decode s none = .rules := by
  obtain ⟨provider, n⟩ := s
  cases provider <;> rfl

/-- **What is found** does not depend on the source of a unit but through the two checks that read it. -/
theorem find_withSource (s : Settings) (includeSuggestions : Bool) (log : Option RuntimeLog)
    {text : List Char} {u : Pou} (hdivisions : divisions (u.withSource text) = divisions u)
    (hindexing : indexing (u.withSource text) = indexing u) :
    (Engine.of s).find .rules includeSuggestions (.of [u.withSource text] log s.thresholds)
      = (Engine.of s).find .rules includeSuggestions (.of [u] log s.thresholds) := by
  have hunit : (Engine.of s).checkUnits [u.withSource text] = (Engine.of s).checkUnits [u] := by
    rw [checkUnits, checkUnits, List.map_singleton, List.map_singleton, checkUnit, checkUnit]
    refine congrArg (fun o => Outcome.join [Outcome.join o]) (List.map_congr_left ?_)
    intro c hc
    have hc : c ∈ Check.unitChecks := (List.mem_filter.mp hc).1
    rw [run_withSource hdivisions hindexing hc]
  have hproject : (Engine.of s).checkProject (.of [u.withSource text] log s.thresholds)
      = (Engine.of s).checkProject (.of [u] log s.thresholds) := by
    rw [checkProject, checkProject]
    refine congrArg Outcome.join (List.map_congr_left ?_)
    intro c hc
    have hc : c ∈ Check.projectChecks := (List.mem_filter.mp hc).1
    rw [runProject_withSource text u log s.thresholds hc]
  have hsuggestions : (Engine.of s).suggestions .rules (.of [u.withSource text] log s.thresholds)
      = (Engine.of s).suggestions .rules (.of [u] log s.thresholds) := by
    have hrules : SuggestionProvider.rules.suggest (.of [u.withSource text] log s.thresholds)
        = SuggestionProvider.rules.suggest (.of [u] log s.thresholds) :=
      congrArg Except.ok (suggestions_withSource text u log s.thresholds)
    rw [suggestions, suggestions, hrules, suggestions_withSource]
  have hfound : Outcome.join
        [(Engine.of s).checkUnits (Project.of [u.withSource text] log s.thresholds).units,
          (Engine.of s).checkProject (.of [u.withSource text] log s.thresholds)]
      = Outcome.join [(Engine.of s).checkUnits (Project.of [u] log s.thresholds).units,
        (Engine.of s).checkProject (.of [u] log s.thresholds)] := by
    rw [hproject]
    exact congrArg (fun o => Outcome.join [o, _]) hunit
  rw [find, find, hfound, hsuggestions]

/-- **A report** does not depend on the source of a unit but through the two checks that read it. -/
theorem analyze_withSource (decode : Model.RemarkDecoder) (s : Settings) (log : Option RuntimeLog) (request : AnalysisRequest)
    {text : List Char} {u : Pou} (hdivisions : divisions (u.withSource text) = divisions u)
    (hindexing : indexing (u.withSource text) = indexing u) :
    (Engine.of s).analyze [u.withSource text] log request (.named decode s.suggestions none)
      = (Engine.of s).analyze [u] log request (.named decode s.suggestions none) := by
  rw [named_none, analyze_eq_reportOn, analyze_eq_reportOn]
  show (Engine.of s).reportOn request _ ((Engine.of s).find .rules _ (.of _ log s.thresholds))
    = (Engine.of s).reportOn request _ ((Engine.of s).find .rules _ (.of _ log s.thresholds))
  rw [find_withSource s request.includeSuggestions log hdivisions hindexing]
  rfl

/-! ## One check alone -/

/-- The settings where nothing is chosen but the checks. -/
def settingsWith (passes : PassSwitches) : Settings := { Settings.default with passes }

/-- Everything but suggestions is asked for. -/
def allFindings : AnalysisRequest := .of Severity.all IssueType.all false

theorem accepts_allFindings (i : Issue) : allFindings.accepts i = true := by
  rw [AnalysisRequest.accepts_iff]
  constructor
  · cases i.severity <;> decide
  · cases i.type <;> decide

/-- The issues of a report by one check alone. -/
theorem issues_analyze_single {s : Settings} {name : String} {check : Pou → List Issue}
    (hunit : (Engine.of s).unitChecks = [.total name check])
    (hproject : (Engine.of s).projectChecks = []) (u : Pou) (provider : SuggestionProvider) :
    ((Engine.of s).analyze [u] none allFindings provider).issues
      = (Engine.of s).select allFindings ((check u).map fun i => { i with source := name }) := by
  rw [analyze_eq_reportOn]
  show (Engine.of s).select allFindings ((Engine.of s).find _ false _).issues = _
  refine congrArg _ ?_
  rw [find, if_neg Bool.false_ne_true]
  show (Outcome.join [(Engine.of s).checkUnits [u], (Engine.of s).checkProject _]).issues = _
  rw [checkUnits, checkProject, hproject, List.map_singleton, checkUnit, hunit]
  simp [Outcome.join, UnitCheck.total, Outcome.of]

/-- Findings that are all as likely as `x` are likely enough for a report if `x` is. -/
theorem keeps_of_confidence {s : Settings} {x : Float} (hx : x ≥ s.thresholds.minConfidence)
    {found : List Issue} (hfound : ∀ i ∈ found, i.confidence = x) {name : String} {i : Issue}
    (h : i ∈ found.map fun i => { i with source := name }) :
    (Engine.of s).keeps allFindings i = true := by
  obtain ⟨j, hj, rfl⟩ := List.mem_map.mp h
  rw [keeps, accepts_allFindings, Bool.true_and, decide_eq_true_eq]
  show j.confidence ≥ s.thresholds.minConfidence
  rwa [hfound j hj]

theorem confidence_of_mem_divisions {u : Pou} {i : Issue} (h : i ∈ divisions u) :
    i.confidence = Issue.clampConfidence 0.7 := by
  rw [divisions] at h
  split at h
  · cases h
  · obtain ⟨n, -, hn⟩ := List.mem_filterMap.mp h
    rw [Division.ofNode?] at hn
    split at hn
    · obtain ⟨v, -, rfl⟩ := Option.map_eq_some_iff.mp hn
      rfl
    · cases hn

theorem confidence_of_mem_indexing {u : Pou} {i : Issue} (h : i ∈ indexing u) :
    i.confidence = Issue.clampConfidence 0.6 := by
  obtain ⟨a, -, rfl⟩ := List.mem_map.mp h
  rfl

/-- The settings with the check of divisions alone. -/
def divisionsOnly : Settings := settingsWith ⟨false, true, false, false, false, false⟩

/-- The settings with the check of array accesses alone. -/
def indexingOnly : Settings := settingsWith ⟨false, false, true, false, false, false⟩

/-- Reports on divisions alone that are equal have findings both or neither. -/
theorem divisions_eq_nil_of_analyze {u v : Pou} (provider : SuggestionProvider)
    (h : (Engine.of divisionsOnly).analyze [v] none allFindings provider
      = (Engine.of divisionsOnly).analyze [u] none allFindings provider) (hv : divisions v = []) :
    divisions u = [] := by
  have hissues := congrArg Report.issues h
  have hunit : (Engine.of divisionsOnly).unitChecks = [.total "division_safety" divisions] := rfl
  rw [issues_analyze_single hunit rfl, issues_analyze_single hunit rfl, hv] at hissues
  have hempty : (Engine.of divisionsOnly).select allFindings [] = [] := by
    refine (select_eq_nil_iff ?_).mpr rfl
    intro i hi
    exact absurd hi List.not_mem_nil
  have hkeeps : ∀ i ∈ (divisions u).map fun i => { i with source := "division_safety" },
      (Engine.of divisionsOnly).keeps allFindings i = true := by
    intro i
    exact keeps_of_confidence (by decide) fun j => confidence_of_mem_divisions
  exact List.map_eq_nil_iff.mp ((select_eq_nil_iff hkeeps).mp (hissues.symm.trans hempty))

/-- Reports on array accesses alone that are equal have as many findings. -/
theorem length_indexing_eq_of_analyze {u v : Pou} (provider : SuggestionProvider)
    (h : (Engine.of indexingOnly).analyze [v] none allFindings provider
      = (Engine.of indexingOnly).analyze [u] none allFindings provider) :
    (indexing v).length = (indexing u).length := by
  have hissues := congrArg (fun r => r.issues.length) h
  have hunit : (Engine.of indexingOnly).unitChecks = [.total "array_bounds" indexing] := rfl
  have hlength : ∀ w : Pou, ((Engine.of indexingOnly).select allFindings
      ((indexing w).map fun i => { i with source := "array_bounds" })).length
        = (indexing w).length := by
    intro w
    have hkeeps : ∀ i ∈ (indexing w).map fun i => { i with source := "array_bounds" },
        (Engine.of indexingOnly).keeps allFindings i = true := by
      intro i
      exact keeps_of_confidence (by decide) fun j => confidence_of_mem_indexing
    rw [length_select hkeeps (List.pairwise_map.mpr (Indexing.pairwise_key_indexing w)),
      List.length_map]
  rwa [issues_analyze_single hunit rfl, issues_analyze_single hunit rfl, hlength, hlength] at hissues

/-- Where every report stays the same with carriage returns alone, whatever silences a check stands on
    one line. -/
theorem silencedByLine_of_analyze {decode : Model.RemarkDecoder} {u : Pou} {s : List Char}
    (hu : u.sourceLines = lines s)
    (h : ∀ (s' : Settings) (log : Option RuntimeLog) (request : AnalysisRequest),
      (Engine.of s').analyze [u.withSource (LineEnd.cr.write s)] log request
          (.named decode s'.suggestions none)
        = (Engine.of s').analyze [u] log request (.named decode s'.suggestions none)) :
    u.SilencedByLine where
  division := Pou.division_of_divisions_cr hu
    (divisions_eq_nil_of_analyze _ (h divisionsOnly none allFindings))
  indexing := Pou.indexing_of_indexing_cr hu
    (length_indexing_eq_of_analyze _ (h indexingOnly none allFindings))

/-- **Line ends do not count for the reader, and for a report only where they are carriage returns alone.**
    A source with other line ends has the same units, but for the source that a unit keeps; and all
    reports on its unit are the same exactly if a line feed ends each line or whatever silences a check of
    the unit stands on one line. -/
theorem analyze_write (decode : Model.RemarkDecoder) (label : String) (e : LineEnd) {s : List Char}
    (hs : '\r' ∉ s) :
    Pou.parseFile label (e.write s) = Pou.parseFile label s ∧
    Pou.parse label (e.write s) = (Pou.parse label s).map (Pou.withSource (e.write s)) ∧
    ∀ u, Pou.parse label s = .ok u →
      ((∀ (settings : Settings) (log : Option RuntimeLog) (request : AnalysisRequest),
          (Engine.of settings).analyze [u.withSource (e.write s)] log request
              (.named decode settings.suggestions none)
            = (Engine.of settings).analyze [u] log request (.named decode settings.suggestions none)) ↔
        e = .crlf ∨ u.SilencedByLine) := by
  refine ⟨Pou.parseFile_write label e hs, Pou.parse_write label e hs, ?_⟩
  intro u hu
  have hsource := Pou.source_of_parse hu
  have hlines : u.sourceLines = lines s := by
    rw [Pou.sourceLines, hsource, String.toList_ofList]
  have hself : u.withSource s = u := Pou.withSource_of_eq hsource
  constructor
  · intro h
    cases e with
    | crlf => exact Or.inl rfl
    | cr => exact Or.inr (silencedByLine_of_analyze hlines h)
  · intro h settings log request
    cases e with
    | crlf =>
        refine analyze_withSource decode settings log request ?_ ?_
        · rw [Pou.divisions_crlf, hself]
        · rw [Pou.indexing_crlf, hself]
    | cr =>
        rcases h with h | hline
        · cases h
        · exact analyze_withSource decode settings log request (hline.divisions_cr hlines)
            (hline.indexing_cr hlines)

/-- A division with its guard on one line. -/
def guardedDivision : List Char :=
  "PROGRAM A\nIF z <> 0 THEN x := y / z; END_IF;\nEND_PROGRAM".toList

/-- The reports on the guarded division do not change with its line ends. -/
theorem analyze_write_guardedDivision :
    '\r' ∉ guardedDivision ∧ ∃ u, Pou.parse "f.st" guardedDivision = .ok u ∧ u.SilencedByLine ∧
      ∀ (decode : Model.RemarkDecoder) (settings : Settings) (log : Option RuntimeLog)
          (request : AnalysisRequest),
        (Engine.of settings).analyze [u.withSource (LineEnd.cr.write guardedDivision)] log request
            (.named decode settings.suggestions none)
          = (Engine.of settings).analyze [u] log request (.named decode settings.suggestions none) := by
  obtain ⟨u, hu, hguard, hsites⟩ : ∃ u, Pou.parse "f.st" guardedDivision = .ok u ∧
      u.sourceLines.any Division.isGuard = true ∧ Indexing.sites u = [] :=
    Pou.exists_parse_of_any (by decide +kernel)
  have hline : u.SilencedByLine := by
    refine ⟨fun _ => Or.inl hguard, ?_⟩
    rw [hsites]
    intro s hs
    exact absurd hs List.not_mem_nil
  have hnone : '\r' ∉ guardedDivision := by decide
  refine ⟨hnone, u, hu, hline, fun decode => ?_⟩
  exact ((analyze_write decode "f.st" .cr hnone).2.2 u hu).mpr (Or.inr hline)

/-- A division that no line guards, above an `IF` and a comparison with zero on two lines. -/
def scatteredGuard : List Char :=
  "PROGRAM A\nx := y / z;\nIF w THEN\nv := z > 0;\nEND_IF;\nEND_PROGRAM".toList

/-- **With carriage returns alone a finding can disappear**: the report on divisions has an issue, and none
    when each line of the source ends with a carriage return. -/
theorem exists_lost_finding :
    '\r' ∉ scatteredGuard ∧ ∃ u, Pou.parse "f.st" scatteredGuard = .ok u ∧
      Pou.parse "f.st" (LineEnd.cr.write scatteredGuard)
        = .ok (u.withSource (LineEnd.cr.write scatteredGuard)) ∧
      ((Engine.of divisionsOnly).analyze [u] none allFindings .rules).totalIssues = 1 ∧
      ((Engine.of divisionsOnly).analyze [u.withSource (LineEnd.cr.write scatteredGuard)] none allFindings
        .rules).totalIssues = 0 := by
  have hnone : '\r' ∉ scatteredGuard := by decide
  obtain ⟨u, hu, hone, hzero⟩ : ∃ u, Pou.parse "f.st" scatteredGuard = .ok u ∧
      ((Engine.of divisionsOnly).analyze [u] none allFindings .rules).totalIssues = 1 ∧
      ((Engine.of divisionsOnly).analyze [u.withSource (LineEnd.cr.write scatteredGuard)] none allFindings
        .rules).totalIssues = 0 :=
    Pou.exists_parse_of_any (by decide +kernel)
  refine ⟨hnone, u, hu, ?_, hone, hzero⟩
  rw [Pou.parse_write "f.st" .cr hnone, hu]
  rfl

end Engine

end StLint

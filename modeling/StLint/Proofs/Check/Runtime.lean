import Mathlib.Data.String.Basic
import StLint.Proofs.Collection.Keyed
import StLint.Proofs.Graph.Unit

/-!
# Frequent errors in a log

Entries of a log belong together if their units have one name up to case. So errors are **counted by
names up to case**: a name under which more errors were logged than are tolerated is reported once, with
their number, and no other name is. Where all that was logged is about units of the project, the project
spells the names, and the order of the entries plays no part.

* `RuntimeLog.errorCount` — the errors that were logged under a name.
* `Project.spelling` — how a name is spelled in a finding.
* `Project.errorReports_eq` — the findings, one for each name with too many errors.
* `Project.errorReports_exact` — the findings about one name, and another order of the entries.
-/

namespace StLint

open Text Check Check.Runtime

/-! ## Names in a log -/

/-- The number of errors that were logged under a name, in any case. -/
def RuntimeLog.errorCount (log : RuntimeLog) (name : String) : Nat :=
  (log.forUnit name).countP fun e => e.level = .error

/-- How a finding about a log spells a name: as the project does, or else as the first entry does. -/
def Project.spelling (p : Project) (log : RuntimeLog) (name : String) : String :=
  ((p.unit? name).map Pou.name).getD (((log.forUnit name).head?.map LogEntry.unitName).getD name)

section Names

variable {p : Project} {log : RuntimeLog} {name a b : String} {e : LogEntry}

theorem Project.unit?_congr (h : SameName a b) : p.unit? a = p.unit? b := by
  have heq : lower a.toList = lower b.toList := sameName_iff.mp h
  simp only [Project.unit?, unitNamed?, eqIgnoreCase, heq]

theorem RuntimeLog.mem_forUnit_iff :
    e ∈ log.forUnit name ↔ e ∈ log.entries ∧ SameName e.unitName name :=
  List.mem_filter

/-- **A finding spells the name that it is about.** -/
theorem Project.sameName_spelling (p : Project) (log : RuntimeLog) (name : String) :
    SameName (p.spelling log name) name := by
  rw [spelling]
  cases hunit : p.unit? name with
  | some u => exact sameName_of_unitNamed? hunit
  | none =>
      cases hfirst : (log.forUnit name).head? with
      | none => exact .refl name
      | some e => exact (RuntimeLog.mem_forUnit_iff.mp (List.mem_of_head? hfirst)).2

namespace Check.Runtime

/-- The key of a name. -/
def nameKey (name : String) : String := String.ofList (lower name.toList)

/-- **Names have one key if they are one up to case.** -/
theorem nameKey_eq_iff : nameKey a = nameKey b ↔ SameName a b := by
  rw [nameKey, nameKey, String.ofList_inj, sameName_iff]

theorem mem_unitKeys_iff {key : String} :
    key ∈ unitKeys log ↔ ∃ e ∈ log.entries, nameKey e.unitName = key := by
  rw [unitKeys, mem_sortOnce, List.mem_map]
  rfl

theorem nodup_unitKeys (log : RuntimeLog) : (unitKeys log).Nodup :=
  nodup_sortOnce IsKeyOrder.ofLinearOrder _

/-- The entries under the key of a name are those of the unit. -/
theorem entries_unitLog (p : Project) (log : RuntimeLog) (name : String) :
    (unitLog p log (nameKey name)).entries = log.forUnit name := by
  refine List.filter_congr ?_
  intro e _
  rw [Bool.eq_iff_iff, decide_eq_true_eq]
  exact nameKey_eq_iff

theorem errors_unitLog (p : Project) (log : RuntimeLog) (name : String) :
    (unitLog p log (nameKey name)).errors = log.errorCount name := by
  rw [UnitLog.errors, entries_unitLog]
  rfl

/-- The log of a unit that logged something has the name that findings spell. -/
theorem name_unitLog (hne : log.forUnit name ≠ []) :
    (unitLog p log (nameKey name)).name = p.spelling log name := by
  obtain ⟨first, rest, hfirst⟩ := List.exists_cons_of_ne_nil hne
  have hname : SameName first.unitName name :=
    (RuntimeLog.mem_forUnit_iff.mp (hfirst ▸ List.mem_cons_self ..)).2
  have hspelled : ((unitLog p log (nameKey name)).entries.head?.map LogEntry.unitName).getD
      (nameKey name) = first.unitName := by
    rw [entries_unitLog, hfirst]
    rfl
  show ((p.unit? (((unitLog p log (nameKey name)).entries.head?.map LogEntry.unitName).getD
    (nameKey name))).map Pou.name).getD (((unitLog p log
      (nameKey name)).entries.head?.map LogEntry.unitName).getD (nameKey name)) = _
  rw [hspelled, Project.spelling, Project.unit?_congr hname, hfirst]
  rfl

end Check.Runtime

end Names

/-! ## The findings -/

/-- A finding about too many errors. -/
def Issue.reportsErrors (i : Issue) : Bool := i.title = "Frequent runtime errors"

/-- A finding is about a name, in any case. -/
def Issue.isAbout (i : Issue) (name : String) : Bool :=
  i.unitNames.any fun n => eqIgnoreCase n.toList name.toList

/-- A project whose units logged something. -/
def Project.withLog (p : Project) (log : RuntimeLog) : Project := { p with log := some log }

/-- What is found about too many errors. -/
def Project.errorReports (p : Project) : List Issue := (runtime p).filter Issue.reportsErrors

/-- The finding that so many errors were logged under a name, where fewer are tolerated. -/
def Issue.StatesErrors (i : Issue) (spelling : String) (count tolerated : Nat) : Prop :=
  i.unitNames = [spelling] ∧ i.description = spelling ++ " logged " ++ toString count ++
    " errors at runtime (threshold " ++ toString tolerated ++ ")"

section Findings

variable {t : Thresholds} {l l' : UnitLog}

/-- A slow scan is another finding. -/
theorem filter_ofUnitLog (t : Thresholds) (l : UnitLog) :
    (ofUnitLog t l).filter Issue.reportsErrors
      = if t.runtimeErrors < l.errors then [frequentErrors t l] else [] := by
  have hslow : ((l.meanSample?.filter fun mean => mean > t.cycleTimeMs).map
      (slowScans t l)).toList.filter Issue.reportsErrors = [] := by
    refine List.filter_eq_nil_iff.mpr ?_
    intro i hi
    obtain ⟨mean, -, rfl⟩ := Option.map_eq_some_iff.mp (Option.mem_toList.mp hi)
    have hother : ¬ decide ("Slow scan cycle" = "Frequent runtime errors") = true := by decide
    exact hother
  rw [ofUnitLog, List.filter_append, hslow, List.append_nil]
  by_cases h : t.runtimeErrors < l.errors
  · rw [if_pos h]
    rfl
  · rw [if_neg h]
    rfl

/-- The finding depends on the name and on the number of errors only. -/
theorem frequentErrors_congr (hname : l.name = l'.name) (herrors : l.errors = l'.errors) :
    frequentErrors t l = frequentErrors t l' := by
  rw [frequentErrors, frequentErrors, hname, herrors]

theorem statesErrors_frequentErrors (t : Thresholds) (l : UnitLog) :
    (frequentErrors t l).StatesErrors l.name l.errors t.runtimeErrors := ⟨rfl, rfl⟩

end Findings

namespace Project

variable (p : Project) (log : RuntimeLog)

/-- **There is one finding for each key** under which too many errors were logged. -/
theorem errorReports_eq :
    (p.withLog log).errorReports = ((unitKeys log).filter fun key =>
      p.thresholds.runtimeErrors < (unitLog p log key).errors).map fun key =>
        frequentErrors p.thresholds (unitLog p log key) := by
  show (List.flatMap _ _).filter _ = _
  rw [List.filter_flatMap]
  induction unitKeys log with
  | nil => rfl
  | cons key keys ih =>
      rw [List.flatMap_cons, ih, filter_ofUnitLog]
      show (if p.thresholds.runtimeErrors < (unitLog p log key).errors then _ else _) ++ _ = _
      by_cases h : p.thresholds.runtimeErrors < (unitLog p log key).errors
      · rw [if_pos h, List.filter_cons_of_pos (by simpa using h)]
        rfl
      · rw [if_neg h, List.filter_cons_of_neg (by simpa using h)]
        rfl

/-- A finding is about the name with its key. -/
theorem isAbout_frequentErrors {key name : String} (hkey : key ∈ unitKeys log) :
    (frequentErrors p.thresholds (unitLog p log key)).isAbout name = decide (key = nameKey name) := by
  obtain ⟨e, he, rfl⟩ := mem_unitKeys_iff.mp hkey
  have hne : log.forUnit e.unitName ≠ [] :=
    List.ne_nil_of_mem (RuntimeLog.mem_forUnit_iff.mpr ⟨he, .refl _⟩)
  have hnames : (frequentErrors p.thresholds (unitLog p log (nameKey e.unitName))).unitNames
      = [p.spelling log e.unitName] := congrArg (fun n => [n]) (name_unitLog hne)
  have hspelling := p.sameName_spelling log e.unitName
  rw [Issue.isAbout, hnames, List.any_cons, List.any_nil, Bool.or_false, Bool.eq_iff_iff,
    decide_eq_true_eq, nameKey_eq_iff]
  exact ⟨hspelling.symm.trans, hspelling.trans⟩

/-- **The findings about a name** are the one under its key, if there were too many errors. -/
theorem filter_errorReports (name : String) :
    ((p.withLog log).errorReports.filter fun i => i.isAbout name)
      = if p.thresholds.runtimeErrors < log.errorCount name then
          [frequentErrors p.thresholds (unitLog p log (nameKey name))] else [] := by
  have hkeys : (unitKeys log).filter (fun key =>
      (frequentErrors p.thresholds (unitLog p log key)).isAbout name &&
        decide (p.thresholds.runtimeErrors < (unitLog p log key).errors))
      = ((unitKeys log).filter (fun key => decide (key = nameKey name))).filter fun _ =>
          decide (p.thresholds.runtimeErrors < log.errorCount name) := by
    rw [List.filter_filter]
    refine List.filter_congr ?_
    intro key hkey
    rw [p.isAbout_frequentErrors log hkey, Bool.and_comm]
    by_cases h : key = nameKey name
    · rw [h, errors_unitLog]
    · rw [decide_eq_false h, Bool.and_false, Bool.and_false]
  rw [errorReports_eq, List.filter_map, List.filter_filter]
  refine (congrArg (List.map _) hkeys).trans ?_
  rw [List.filter_eq]
  by_cases h : p.thresholds.runtimeErrors < log.errorCount name
  · -- a name with errors has a key
    obtain ⟨e, he, -⟩ := List.countP_pos_iff.mp (Nat.zero_lt_of_lt h)
    obtain ⟨hmem, hname⟩ := RuntimeLog.mem_forUnit_iff.mp he
    have hkey : nameKey name ∈ unitKeys log :=
      mem_unitKeys_iff.mpr ⟨e, hmem, nameKey_eq_iff.mpr hname⟩
    rw [if_pos h, List.count_eq_one_of_mem (nodup_unitKeys log) hkey, List.filter_eq_self.mpr]
    · rfl
    · exact fun _ _ => decide_eq_true h
  · rw [if_neg h, List.filter_eq_nil_iff.mpr]
    · rfl
    · exact fun _ _ hlt => h (of_decide_eq_true hlt)

/-! ## Another order of the entries -/

section Order

variable {p log} {entries' : List LogEntry}

theorem errorCount_perm (h : log.entries.Perm entries') (name : String) :
    log.errorCount name = (RuntimeLog.mk entries').errorCount name :=
  (h.filter _).countP_eq _

theorem unitKeys_perm (h : log.entries.Perm entries') : unitKeys log = unitKeys ⟨entries'⟩ :=
  sortOnce_congr IsKeyOrder.ofLinearOrder fun _ => (h.map unitKey).mem_iff

/-- A unit of the project spells its name. -/
theorem spelling_of_unit? {u : Pou} {name : String} (h : p.unit? name = some u) :
    p.spelling log name = u.name := by
  rw [spelling, h]
  rfl

/-- **Where the project spells the names, the order of the entries plays no part.** -/
theorem errorReports_perm (h : log.entries.Perm entries')
    (hunits : ∀ e ∈ log.entries, (p.unit? e.unitName).isSome = true) :
    (p.withLog ⟨entries'⟩).errorReports = (p.withLog log).errorReports := by
  have herrors : ∀ key ∈ unitKeys log,
      (unitLog p ⟨entries'⟩ key).errors = (unitLog p log key).errors := by
    intro key hkey
    obtain ⟨e, -, rfl⟩ := mem_unitKeys_iff.mp hkey
    rw [errors_unitLog, errors_unitLog, errorCount_perm h]
  have hnames : ∀ key ∈ unitKeys log,
      (unitLog p ⟨entries'⟩ key).name = (unitLog p log key).name := by
    intro key hkey
    obtain ⟨e, he, rfl⟩ := mem_unitKeys_iff.mp hkey
    obtain ⟨u, hu⟩ := Option.isSome_iff_exists.mp (hunits e he)
    have hne : log.forUnit e.unitName ≠ [] :=
      List.ne_nil_of_mem (RuntimeLog.mem_forUnit_iff.mpr ⟨he, .refl _⟩)
    have hne' : (RuntimeLog.mk entries').forUnit e.unitName ≠ [] :=
      List.ne_nil_of_mem (RuntimeLog.mem_forUnit_iff.mpr ⟨h.mem_iff.mp he, .refl _⟩)
    rw [name_unitLog hne, name_unitLog hne', spelling_of_unit? hu, spelling_of_unit? hu]
  have hkeys : ((unitKeys log).filter fun key =>
      decide (p.thresholds.runtimeErrors < (unitLog p ⟨entries'⟩ key).errors))
      = (unitKeys log).filter fun key =>
          decide (p.thresholds.runtimeErrors < (unitLog p log key).errors) := by
    refine List.filter_congr ?_
    intro key hkey
    rw [herrors key hkey]
  rw [errorReports_eq, errorReports_eq, ← unitKeys_perm h, hkeys]
  refine List.map_congr_left ?_
  intro key hkey
  have hmem := (List.mem_filter.mp hkey).1
  exact frequentErrors_congr (hnames key hmem) (herrors key hmem)

/-- The project's unit is what a finding names. -/
theorem exists_unit_of_mem_errorReports
    (hunits : ∀ e ∈ log.entries, (p.unit? e.unitName).isSome = true) {i : Issue}
    (hi : i ∈ (p.withLog log).errorReports) :
    ∃ u ∈ p.units, i.unitNames = [u.name] := by
  rw [errorReports_eq] at hi
  obtain ⟨key, hkey, rfl⟩ := List.mem_map.mp hi
  obtain ⟨e, he, rfl⟩ := mem_unitKeys_iff.mp (List.mem_filter.mp hkey).1
  obtain ⟨u, hu⟩ := Option.isSome_iff_exists.mp (hunits e he)
  have hne : log.forUnit e.unitName ≠ [] :=
    List.ne_nil_of_mem (RuntimeLog.mem_forUnit_iff.mpr ⟨he, .refl _⟩)
  refine ⟨u, mem_of_unitNamed? hu, ?_⟩
  show [(unitLog p log (nameKey e.unitName)).name] = _
  rw [name_unitLog hne, spelling_of_unit? hu]

end Order

/-- **Errors in a log are counted by names.** About a name there is one finding if more errors were logged
    under it, in any case, than are tolerated, and it states their number; else there is none. Each finding
    is about one name. Where all entries are about units of the project, entries in any other order give
    the same findings, which name the units as the project does. -/
theorem errorReports_exact :
    (∀ name, p.thresholds.runtimeErrors < log.errorCount name →
      ∃ i, ((p.withLog log).errorReports.filter fun i => i.isAbout name) = [i] ∧
        i.StatesErrors (p.spelling log name) (log.errorCount name) p.thresholds.runtimeErrors) ∧
    (∀ name, log.errorCount name ≤ p.thresholds.runtimeErrors →
      ((p.withLog log).errorReports.filter fun i => i.isAbout name) = []) ∧
    (∀ i ∈ (p.withLog log).errorReports, ∃ name, i.unitNames = [name]) ∧
    ((∀ e ∈ log.entries, (p.unit? e.unitName).isSome = true) →
      (∀ i ∈ (p.withLog log).errorReports, ∃ u ∈ p.units, i.unitNames = [u.name]) ∧
      ∀ entries', log.entries.Perm entries' →
        (p.withLog ⟨entries'⟩).errorReports = (p.withLog log).errorReports) := by
  refine ⟨fun name h => ?_, fun name h => ?_, fun i hi => ?_, fun hunits => ⟨fun i hi => ?_, ?_⟩⟩
  · rw [filter_errorReports, if_pos h]
    refine ⟨_, rfl, ?_⟩
    obtain ⟨e, he, -⟩ := List.countP_pos_iff.mp (Nat.zero_lt_of_lt h)
    rw [← name_unitLog (List.ne_nil_of_mem he), ← errors_unitLog p log name]
    exact statesErrors_frequentErrors p.thresholds _
  · rw [filter_errorReports, if_neg (Nat.not_lt.mpr h)]
  · rw [errorReports_eq] at hi
    obtain ⟨key, -, rfl⟩ := List.mem_map.mp hi
    exact ⟨_, rfl⟩
  · exact exists_unit_of_mem_errorReports hunits hi
  · intro entries' h
    exact errorReports_perm h hunits

/-- A project with a pump, where one error is tolerated. -/
def pumpProject : Project :=
  .of [{ (default : Pou) with name := "Pump" }] none { (default : Thresholds) with runtimeErrors := 1 }

/-- A log of a pump: two errors, under two spellings of its name, and a warning. -/
def pumpLog : RuntimeLog :=
  ⟨[{ (default : LogEntry) with unitName := "PUMP", level := .error },
    { (default : LogEntry) with unitName := "Pump", level := .warning },
    { (default : LogEntry) with unitName := "pump", level := .error }]⟩

/-- Both errors count for the pump, in either order of the log, and the finding names it as the project
    does; nothing is found about a valve. -/
theorem errorReports_exact_pumpLog :
    pumpProject.thresholds.runtimeErrors < pumpLog.errorCount "pUMP" ∧
      (∀ e ∈ pumpLog.entries, (pumpProject.unit? e.unitName).isSome = true) ∧
      (∃ i, ((pumpProject.withLog pumpLog).errorReports.filter fun i => i.isAbout "pUMP") = [i] ∧
        i.StatesErrors "Pump" 2 1) ∧
      (pumpProject.withLog ⟨pumpLog.entries.reverse⟩).errorReports
        = (pumpProject.withLog pumpLog).errorReports ∧
      ((pumpProject.withLog pumpLog).errorReports.filter fun i => i.isAbout "Valve") = [] := by
  have hcount : pumpProject.thresholds.runtimeErrors < pumpLog.errorCount "pUMP" := by decide
  have hunits : ∀ e ∈ pumpLog.entries, (pumpProject.unit? e.unitName).isSome = true := by decide
  obtain ⟨hmany, hfew, -, horder⟩ := errorReports_exact pumpProject pumpLog
  exact ⟨hcount, hunits, hmany "pUMP" hcount, (horder hunits).2 _ (List.reverse_perm _).symm,
    hfew "Valve" (by decide)⟩

end Project

end StLint

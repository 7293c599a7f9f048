import Mathlib.Data.List.Basic
import StLint.Check.All

/-!
# The unit that a finding is about

What a check of units finds names the unit that it looked at and no other one. So does what is reported
about a dependency outside the project; **only a circle names several units**. A finding about such a
dependency spells it, so it says which dependency of which unit it is about.

* `Issue.OnlyOf` — a finding about one unit.
* `exists_run_of_mem_unitChecks` — what the checks of units find.
* `orphan_inj` — findings about different dependencies differ.
* `orphan_mem_coupling_iff` — what is reported is what no unit has the name of.
-/

namespace StLint

/-- A finding about one unit. -/
structure Issue.OnlyOf (u : Pou) (i : Issue) : Prop where
  unitNames : i.unitNames = [u.name]
  type_ne : i.type ≠ .circularDependency

namespace Check

variable {u : Pou} {i : Issue}

theorem onlyOf_inUnit {line : Option Nat} {type : IssueType} {severity : Severity}
    {title description suggestion : String} {confidence : Float} (h : type ≠ .circularDependency) :
    (Issue.inUnit u line type severity title description suggestion confidence).OnlyOf u :=
  ⟨rfl, h⟩

theorem onlyOf_loops (h : i ∈ loops u) : i.OnlyOf u := by
  obtain ⟨n, -, hn⟩ := List.mem_filterMap.mp h
  rw [Loops.ofNode?] at hn
  split at hn
  · obtain ⟨b, -, rfl⟩ := Option.map_eq_some_iff.mp hn
    exact onlyOf_inUnit nofun
  · obtain rfl := Option.some.inj hn
    exact onlyOf_inUnit nofun
  · cases hn

theorem onlyOf_divisions (h : i ∈ divisions u) : i.OnlyOf u := by
  rw [divisions] at h
  split at h
  · cases h
  · obtain ⟨n, -, hn⟩ := List.mem_filterMap.mp h
    rw [Division.ofNode?] at hn
    split at hn
    · obtain ⟨v, -, rfl⟩ := Option.map_eq_some_iff.mp hn
      exact onlyOf_inUnit nofun
    · cases hn

theorem onlyOf_indexing (h : i ∈ indexing u) : i.OnlyOf u := by
  obtain ⟨site, -, rfl⟩ := List.mem_map.mp h
  exact onlyOf_inUnit nofun

theorem onlyOf_naming (h : i ∈ naming u) : i.OnlyOf u := by
  obtain ⟨v, -, rfl⟩ := List.mem_map.mp h
  exact onlyOf_inUnit nofun

theorem onlyOf_orphan (u : Pou) (d : String) : (orphan u d).OnlyOf u := onlyOf_inUnit nofun

/-- **A check of units finds something about the unit that it looks at**, and does not fail. -/
theorem exists_run_of_mem_unitChecks {c : UnitCheck} (hc : c ∈ unitChecks) :
    ∃ run : Pou → List Issue, (∀ u, c.run u = .ok (run u)) ∧ ∀ u, ∀ i ∈ run u, i.OnlyOf u := by
  simp only [unitChecks, List.mem_cons, List.not_mem_nil, or_false] at hc
  rcases hc with rfl | rfl | rfl | rfl
  · exact ⟨loops, fun _ => rfl, fun _ _ => onlyOf_loops⟩
  · exact ⟨divisions, fun _ => rfl, fun _ _ => onlyOf_divisions⟩
  · exact ⟨indexing, fun _ => rfl, fun _ _ => onlyOf_indexing⟩
  · exact ⟨naming, fun _ => rfl, fun _ _ => onlyOf_naming⟩

/-- A check of projects does not fail. -/
theorem exists_run_of_mem_projectChecks {c : ProjectCheck} (hc : c ∈ projectChecks) :
    ∃ run : Project → List Issue, ∀ p, c.run p = .ok (run p) := by
  simp only [projectChecks, List.mem_cons, List.not_mem_nil, or_false] at hc
  rcases hc with rfl | rfl
  · exact ⟨coupling, fun _ => rfl⟩
  · exact ⟨runtime, fun _ => rfl⟩

/-! ## Dependencies outside the project -/

theorem orphan_inj {u v : Pou} {d d' : String} :
    orphan u d = orphan v d' ↔ u.name = v.name ∧ d = d' := by
  constructor
  · intro h
    have hnames : [u.name] = [v.name] := congrArg Issue.unitNames h
    have hsuggestion : "Add " ++ d ++ " to the project or check the name for typos"
        = "Add " ++ d' ++ " to the project or check the name for typos" :=
      congrArg Issue.suggestion h
    rw [String.append_left_inj, String.append_right_inj] at hsuggestion
    exact ⟨List.singleton_inj.mp hnames, hsuggestion⟩
  · rintro ⟨hname, rfl⟩
    rw [orphan, orphan, Issue.inUnit, Issue.inUnit, hname]

theorem orphan_ne_circle (u : Pou) (d : String) (names : List String) : orphan u d ≠ circle names := by
  intro h
  have htype : IssueType.logicError = IssueType.circularDependency := congrArg Issue.type h
  exact nomatch htype

theorem mem_orphans_iff {p : Project} {u : Pou} {d : String} :
    d ∈ orphans p u ↔ d ∈ u.dependencies ∧ p.unit? d = none := by
  rw [orphans, List.mem_filter, Option.isNone_iff_eq_none]

/-- **A dependency is reported if and only if no unit has its name.** -/
theorem orphan_mem_coupling_iff {p : Project} {u : Pou} {d : String} :
    orphan u d ∈ coupling p ↔
      ∃ v ∈ p.units, v.name = u.name ∧ d ∈ v.dependencies ∧ p.unit? d = none := by
  rw [coupling, List.mem_append, List.mem_map, List.mem_flatMap]
  constructor
  · rintro (⟨names, -, hnames⟩ | ⟨v, hv, hmem⟩)
    · exact absurd hnames.symm (orphan_ne_circle u d names)
    · obtain ⟨d', hd', heq⟩ := List.mem_map.mp hmem
      obtain ⟨hname, rfl⟩ := orphan_inj.mp heq
      exact ⟨v, hv, hname, mem_orphans_iff.mp hd'⟩
  · rintro ⟨v, hv, hname, hd⟩
    refine Or.inr ⟨v, hv, List.mem_map.mpr ⟨d, mem_orphans_iff.mpr hd, ?_⟩⟩
    exact orphan_inj.mpr ⟨hname, rfl⟩

end Check

end StLint

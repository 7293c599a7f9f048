import StLint.Proofs.Check.Access
import StLint.Proofs.Pou.Trace

/-!
# Findings about array accesses

The first access to an array with a computed index is reported, unless a line of the source checks the
array. An access that only stands inside the index of another one is not searched for. So **an array is
reported once exactly if it is accessed outside every index and not checked**, and the arrays that are
accessed and never reported are those that only stand in the index of others.

* `Pou.HasAccess` — an access that is written in a node, anywhere or where a condition holds.
* `Pou.isChecked` — a line of the source checks an array, whatever the case of its name.
* `Pou.findingsAbout_eq` — the findings about an array.
* `Pou.findingsAbout_exact` — how many there are.
-/

namespace StLint

open Text

namespace Check.Indexing

variable {v w : List Char}

/-- **A line checks an array** whatever the case of its name. -/
theorem checksRange_eq_of_lower_eq (h : lower v = lower w) (l : List Char) :
    checksRange v l = checksRange w l := by
  rw [checksRange, checksRange, containsWord_eq_of_upper_eq (upper_eq_of_lower_eq h)]

/-- The sites of a node are the accesses with a computed index in its texts. -/
theorem mem_sitesOfNode_iff {n : Node} {s : Site} :
    s ∈ sitesOfNode n ↔ ∃ text ∈ [n.name, n.value].filterMap id, ∃ a ∈ accesses text.toList,
      isConstant a.index = false ∧ ⟨a, n.line⟩ = s := by
  have hkept : ∀ a : Access, (if isConstant a.index then none else some (⟨a, n.line⟩ : Site)) = some s ↔
      isConstant a.index = false ∧ ⟨a, n.line⟩ = s := by
    intro a
    cases isConstant a.index <;> simp
  rw [sitesOfNode, List.mem_filterMap]
  simp only [hkept, List.mem_flatMap]
  constructor
  · rintro ⟨a, ⟨text, htext, ha⟩, hs⟩
    exact ⟨text, htext, a, ha, hs⟩
  · rintro ⟨text, htext, a, ha, hs⟩
    exact ⟨a, ⟨text, htext, ha⟩, hs⟩

/-- The text of a finding leads with the name of its array. -/
theorem leadingWord_ofSite {u : Pou} {s : Site} (h : IsKeyword s.access.name) :
    leadingWord (ofSite u s).description.toList = s.access.name := by
  have htext : (ofSite u s).description.toList
      = s.access.name ++ '[' :: (s.access.index ++ "] is indexed without a bounds check".toList) := by
    show (String.ofList s.access.name ++ "[" ++ String.ofList s.access.index ++ _).toList = _
    simp
  rw [htext, leadingWord_append h.wordChar rfl]

end Check.Indexing

namespace Pou

open Check Check.Indexing

variable {u : Pou} {name : List Char}

/-- **An array is accessed by a computed index** in the name or the value of a node, behind a text of which
    `P` holds. -/
def HasAccess (P : List Char → Prop) (u : Pou) (name : List Char) : Prop :=
  ∃ n ∈ u.body.walk, ∃ text ∈ [n.name, n.value].filterMap id, ∃ before a,
    IsWrittenBehind before a text.toList ∧ P before ∧ lower a.name = lower name ∧ isConstant a.index = false

/-- An array is accessed, maybe inside the index of another access. -/
def IsAccessed (u : Pou) (name : List Char) : Prop := u.HasAccess (fun _ => True) name

/-- An array is accessed outside every index. -/
def IsAccessedOutside (u : Pou) (name : List Char) : Prop :=
  u.HasAccess (fun before => ¬ IsInsideIndex before) name

/-- A line of the source checks the array. -/
def isChecked (u : Pou) (name : List Char) : Bool := u.sourceLines.any (checksRange name)

/-- The findings about an array: their texts begin with its name. -/
def findingsAbout (u : Pou) (name : List Char) : List Issue :=
  (indexing u).filter fun i =>
    i.title = "Unchecked array index" && eqIgnoreCase (leadingWord i.description.toList) name

theorem IsAccessedOutside.isAccessed (h : u.IsAccessedOutside name) : u.IsAccessed name := by
  obtain ⟨n, hn, text, htext, before, a, hwritten, -, ha⟩ := h
  exact ⟨n, hn, text, htext, before, a, hwritten, trivial, ha⟩

/-- **An array has a site** if it is accessed outside every index. -/
theorem exists_site_iff :
    (∃ s ∈ sites u, lower s.access.name = lower name) ↔ u.IsAccessedOutside name := by
  constructor
  · rintro ⟨s, hs, hname⟩
    obtain ⟨n, hn, hs⟩ := List.mem_flatMap.mp ((firstBy_sublist _ _).subset hs)
    obtain ⟨text, htext, a, ha, hcomputed, rfl⟩ := mem_sitesOfNode_iff.mp hs
    obtain ⟨before, hwritten, houtside⟩ := mem_accesses_iff.mp ha
    exact ⟨n, hn, text, htext, before, a, hwritten, houtside, hname, hcomputed⟩
  · rintro ⟨n, hn, text, htext, before, a, hwritten, houtside, hname, hcomputed⟩
    have ha : a ∈ accesses text.toList := mem_accesses_iff.mpr ⟨before, hwritten, houtside⟩
    have hsite : ⟨a, n.line⟩ ∈ u.body.walk.flatMap sitesOfNode :=
      List.mem_flatMap.mpr ⟨n, hn, mem_sitesOfNode_iff.mpr ⟨text, htext, a, ha, hcomputed, rfl⟩⟩
    obtain ⟨s, hs, hkey⟩ := exists_mem_firstBy (fun s : Site => lower s.access.name) hsite
    exact ⟨s, hs, hkey.trans hname⟩

/-- No two sites are of one array. -/
theorem length_sites_le_one (u : Pou) (name : List Char) :
    ((sites u).filter fun s => eqIgnoreCase s.access.name name).length ≤ 1 := by
  have hnodup : ((sites u).map fun s => lower s.access.name).Nodup :=
    List.pairwise_map.mpr (pairwise_firstBy _ _)
  have hcount := List.nodup_iff_count_le_one.mp hnodup (lower name)
  rwa [List.count, List.countP_map, List.countP_eq_length_filter] at hcount

/-- **The findings about an array** are its sites, unless it is checked. -/
theorem findingsAbout_eq (u : Pou) (name : List Char) :
    u.findingsAbout name = if u.isChecked name then [] else
      ((sites u).filter fun s => eqIgnoreCase s.access.name name).map (ofSite u) := by
  have habout : u.findingsAbout name = ((sites u).filter fun s =>
      eqIgnoreCase s.access.name name && !u.isChecked s.access.name).map (ofSite u) := by
    rw [findingsAbout, indexing, List.filter_map, List.filter_filter]
    refine congrArg (List.map (ofSite u)) (List.filter_congr ?_)
    intro s hs
    rw [Function.comp_apply, leadingWord_ofSite (isKeyword_of_mem_sites hs)]
    rfl
  have hchecked : ∀ s : Site, (eqIgnoreCase s.access.name name && !u.isChecked s.access.name)
      = (eqIgnoreCase s.access.name name && !u.isChecked name) := by
    intro s
    cases hname : eqIgnoreCase s.access.name name with
    | false => rfl
    | true => rw [isChecked, isChecked, funext (checksRange_eq_of_lower_eq (beq_iff_eq.mp hname))]
  rw [habout]
  simp only [hchecked]
  cases u.isChecked name <;> simp

/-- An array is reported once if it is accessed by a computed index and not checked, and else not at all. -/
structure ReportsExactly (u : Pou) (name : List Char) : Prop where
  once : u.IsAccessed name → u.isChecked name = false → (u.findingsAbout name).length = 1
  never : ¬ (u.IsAccessed name ∧ u.isChecked name = false) → u.findingsAbout name = []

/-- **Each array has one finding or none**, and one exactly if it is accessed outside every index and no line
    checks it. So the findings about an array are exact if the array, where it is accessed and not checked,
    does not stand in the indices of other accesses only. -/
theorem findingsAbout_exact (u : Pou) (name : List Char) :
    (u.findingsAbout name).length ≤ 1 ∧
      ((u.findingsAbout name).length = 1 ↔ u.IsAccessedOutside name ∧ u.isChecked name = false) ∧
      (u.ReportsExactly name ↔
        (u.IsAccessed name → u.isChecked name = false → u.IsAccessedOutside name)) := by
  have hle : (u.findingsAbout name).length ≤ 1 := by
    rw [findingsAbout_eq]
    split
    · exact Nat.zero_le 1
    · rw [List.length_map]
      exact length_sites_le_one u name
  have hone : (u.findingsAbout name).length = 1 ↔
      u.IsAccessedOutside name ∧ u.isChecked name = false := by
    rw [Nat.le_antisymm_iff, and_iff_right hle, findingsAbout_eq, ← exists_site_iff]
    cases u.isChecked name with
    | true => simp
    | false => simp [Nat.one_le_iff_ne_zero, eqIgnoreCase]
  refine ⟨hle, hone, fun h haccessed hunchecked => (hone.mp (h.once haccessed hunchecked)).1, ?_⟩
  intro h
  refine ⟨fun haccessed hunchecked => hone.mpr ⟨h haccessed hunchecked, hunchecked⟩, fun hnot => ?_⟩
  have hnone : (u.findingsAbout name).length ≠ 1 := fun hlength =>
    hnot ((hone.mp hlength).imp_left IsAccessedOutside.isAccessed)
  exact List.length_eq_zero_iff.mp (by omega)

/-- An array whose only access stands in the index of another. -/
def nestedAccess : List Char := "PROGRAM Main\nx := a[b[i]];\nEND_PROGRAM".toList

/-- The access inside the index is written behind the bracket of the other one. -/
theorem isWrittenBehind_nestedAccess : IsWrittenBehind "a[".toList ⟨['b'], ['i']⟩ "a[b[i]]".toList := by
  have hleads : Access.Leads ⟨['b'], ['i']⟩ "b[i]]".toList "]".toList :=
    ⟨rfl, [], ['i'], List.forall_mem_nil _, by decide, by decide, rfl, rfl⟩
  refine ⟨?_, "b[i]]".toList, "]".toList, rfl, hleads⟩
  intro w hw
  rcases List.suffix_cons_iff.mp hw with rfl | hw
  · rfl
  · rcases List.suffix_cons_iff.mp hw with rfl | hw
    · rfl
    · rw [List.suffix_nil.mp hw]
      rfl

/-- **An array is accessed, not checked and not reported**, while the other one has its finding. -/
theorem exists_nested_access_unreported :
    ∃ u, parse "main.st" nestedAccess = .ok u ∧ u.IsAccessed ['b'] ∧ u.isChecked ['b'] = false ∧
      u.findingsAbout ['b'] = [] ∧ (u.findingsAbout ['a']).length = 1 ∧ ¬ u.ReportsExactly ['b'] := by
  obtain ⟨u, hu, hnode, hunchecked, hnone, hone⟩ : ∃ u, parse "main.st" nestedAccess = .ok u ∧
      (u.body.walk.any fun n => n.value = some "a[b[i]]") = true ∧ u.isChecked ['b'] = false ∧
      (u.findingsAbout ['b']).isEmpty = true ∧ (u.findingsAbout ['a']).length = 1 :=
    exists_parse_of_any (by decide +kernel)
  obtain ⟨n, hn, hvalue⟩ := List.any_eq_true.mp hnode
  rw [decide_eq_true_eq] at hvalue
  have htext : "a[b[i]]" ∈ [n.name, n.value].filterMap id := by
    rw [List.mem_filterMap]
    exact ⟨n.value, by simp, hvalue⟩
  have haccessed : u.IsAccessed ['b'] :=
    ⟨n, hn, _, htext, _, _, isWrittenBehind_nestedAccess, trivial, rfl, by decide⟩
  rw [List.isEmpty_iff] at hnone
  refine ⟨u, hu, haccessed, hunchecked, hnone, hone, fun h => ?_⟩
  have hlength := h.once haccessed hunchecked
  rw [hnone] at hlength
  cases hlength

end Pou

end StLint

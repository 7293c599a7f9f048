import Mathlib.Data.List.Pairwise
import StLint.Proofs.Graph.File
import StLint.Proofs.Pou.Callee
import StLint.Proofs.Pou.File
import StLint.Report.Basic

/-!
# Names in several spellings

A dependency is kept once for each text, while names are looked up and made into ids without regard to
case. So what a body calls in two spellings is a dependency twice: it has two edges to one node, and it
counts twice in the score. **Each name counts once exactly where it is spelled in one way.**

* `DistinctUpToCase` — no two of some names are one up to case.
* `Node.SpellsOneWay` — the names that a body depends on are spelled in one way each.
* `Pou.IsRead.distinctUpToCase_iff` — the dependencies of a unit that is read from a source.
* `DependencyGraph.SingleEdges`, `DependencyGraph.singleEdges_ofUnits_iff` — the edges of the graph.
* `namesSize`, `complexityScore_eq_iff` — the score, with each name counted once.
* `spelledOnce_iff` — where each name counts once; `exists_two_spellings` — a name that counts twice.
-/

namespace StLint

open Text Source

/-! ## Names that differ in more than their case -/

/-- No two of some names are one up to case. -/
def DistinctUpToCase (names : List String) : Prop := names.Pairwise fun a b => ¬ SameName a b

instance decidableDistinctUpToCase (names : List String) : Decidable (DistinctUpToCase names) :=
  inferInstanceAs (Decidable (names.Pairwise fun a b => ¬ eqIgnoreCase a.toList b.toList = true))

section DistinctUpToCase

variable {names : List String}

/-- Among different names there must not be two spellings of one. -/
theorem distinctUpToCase_iff_of_nodup (h : names.Nodup) :
    DistinctUpToCase names ↔ ∀ a ∈ names, ∀ b ∈ names, SameName a b → a = b := by
  constructor
  · intro hdistinct a ha b hb hab
    have : Std.Symm fun a b => ¬ SameName a b := ⟨fun _ _ hne hba => hne hba.symm⟩
    by_contra hne
    exact hdistinct.forall ha hb hne hab
  · intro hone
    refine h.imp_of_mem ?_
    intro a b ha hb hne hab
    exact hne (hone a ha b hb hab)

/-- The names are those that their ids keep apart. -/
theorem distinctUpToCase_iff_nodup_ids : DistinctUpToCase names ↔ (names.map unitId).Nodup := by
  rw [DistinctUpToCase, List.Nodup, List.pairwise_map]
  simp only [ne_eq, unitId_eq_iff]

end DistinctUpToCase

/-- No other unit has the id of a unit. -/
theorem DistinctNames.filter_eq {units : List Pou} (h : DistinctNames units) {u : Pou} (hu : u ∈ units) :
    (units.filter fun v => unitId v.name = unitId u.name) = [u] := by
  obtain ⟨before, after, rfl⟩ := List.append_of_mem hu
  obtain ⟨-, hunits, hbefore⟩ := List.pairwise_append.mp h
  obtain ⟨hafter, -⟩ := List.pairwise_cons.mp hunits
  have hnone : before.filter (fun v => unitId v.name = unitId u.name) = [] := by
    refine List.filter_eq_nil_iff.mpr ?_
    intro v hv heq
    exact hbefore v hv u (List.mem_cons_self ..) (unitId_eq_iff.mp (of_decide_eq_true heq))
  have hnone' : after.filter (fun v => unitId v.name = unitId u.name) = [] := by
    refine List.filter_eq_nil_iff.mpr ?_
    intro v hv heq
    exact hafter v hv (unitId_eq_iff.mp (of_decide_eq_true heq)).symm
  rw [List.filter_append, List.filter_cons, if_pos (decide_eq_true rfl), hnone, hnone', List.nil_append]

/-! ## The dependencies of a unit -/

/-- **A body spells names in one way**: of two texts that it depends on neither is the other one in
    another case. -/
def Node.SpellsOneWay (body : Node) (vars : List Variable) : Prop :=
  ∀ a b, body.DependsOn vars a → body.DependsOn vars b → SameName a b → a = b

namespace Pou

variable {u : Pou}

/-- **The dependencies of a unit differ in more than their case** if and only if its body spells each name
    in one way. -/
theorem IsRead.distinctUpToCase_iff (h : u.IsRead) :
    DistinctUpToCase u.dependencies ↔ u.body.SpellsOneWay u.vars := by
  have hnodup : u.dependencies.Nodup := by
    rw [h.dependencies_eq]
    exact nodup_sortOnce Dependencies.isKeyOrder_unitBefore _
  have hmem : ∀ name, name ∈ u.dependencies ↔ u.body.DependsOn u.vars name := by
    intro name
    rw [h.dependencies_eq]
    exact Dependencies.mem_units_iff
  rw [distinctUpToCase_iff_of_nodup hnodup]
  simp only [hmem]
  exact ⟨fun hone a b ha hb => hone a ha b hb, fun hone a ha b hb => hone a b ha hb⟩

end Pou

/-! ## The edges of a graph -/

namespace DependencyGraph

variable {units : List Pou}

/-- No two edges have the same ends. -/
def SingleEdges (g : DependencyGraph) : Prop := (g.edges.map fun e => (e.source, e.target)).Nodup

instance decidableSingleEdges (g : DependencyGraph) : Decidable g.SingleEdges :=
  inferInstanceAs (Decidable (List.Nodup _))

theorem ends_edges_ofUnits (units : List Pou) :
    (ofUnits units).edges.map (fun e => (e.source, e.target))
      = units.flatMap fun u => u.dependencies.map fun d => (unitId u.name, unitId d) := by
  rw [ofUnits, dependencyPairs, List.map_map, List.map_flatMap]
  simp only [List.map_map]
  rfl

/-- **An edge stands for each spelling**: a graph has single edges if and only if the dependencies of each
    unit differ in more than their case. -/
theorem singleEdges_ofUnits_iff (h : DistinctNames units) :
    (ofUnits units).SingleEdges ↔ ∀ u ∈ units, DistinctUpToCase u.dependencies := by
  rw [SingleEdges, ends_edges_ofUnits, List.Nodup, List.pairwise_flatMap]
  have hunit : ∀ u : Pou, (u.dependencies.map fun d => (unitId u.name, unitId d)).Pairwise (· ≠ ·)
      ↔ DistinctUpToCase u.dependencies := by
    intro u
    rw [distinctUpToCase_iff_nodup_ids, List.Nodup, List.pairwise_map, List.pairwise_map]
    simp only [ne_eq, Prod.mk.injEq, true_and]
  -- edges of two units start at two nodes
  have hsources : units.Pairwise fun u v =>
      ∀ e ∈ u.dependencies.map (fun d => (unitId u.name, unitId d)),
        ∀ f ∈ v.dependencies.map (fun d => (unitId v.name, unitId d)), e ≠ f := by
    refine h.imp ?_
    intro u v hne e he f hf hef
    obtain ⟨d, -, rfl⟩ := List.mem_map.mp he
    obtain ⟨d', -, rfl⟩ := List.mem_map.mp hf
    exact hne (unitId_eq_iff.mp (Prod.mk.inj hef).1)
  exact (and_iff_left hsources).trans (forall₂_congr fun u _ => hunit u)

theorem dependencies_eq_flatMap (units : List Pou) (id : String) :
    (ofUnits units).dependencies id
      = (units.filter fun u => unitId u.name = id).flatMap fun u => u.dependencies.map unitId := by
  have hends : (ofUnits units).dependencies id
      = (((ofUnits units).edges.map fun e => (e.source, e.target)).filter fun p => p.1 = id).map
          Prod.snd := by
    rw [DependencyGraph.dependencies, List.filter_map, List.map_map]
    rfl
  rw [hends, ends_edges_ofUnits]
  clear hends
  induction units with
  | nil => rfl
  | cons u units ih =>
      rw [List.flatMap_cons, List.filter_append, List.map_append, ih]
      by_cases hid : unitId u.name = id
      · have hall : ∀ p ∈ u.dependencies.map (fun d => (unitId u.name, unitId d)),
            decide (p.1 = id) = true := by
          intro p hp
          obtain ⟨d, -, rfl⟩ := List.mem_map.mp hp
          exact decide_eq_true hid
        rw [List.filter_eq_self.mpr hall, List.filter_cons, if_pos (decide_eq_true hid),
          List.flatMap_cons, List.map_map]
        rfl
      · have hnone : ∀ p ∈ u.dependencies.map (fun d => (unitId u.name, unitId d)),
            ¬ decide (p.1 = id) = true := by
          intro p hp heq
          obtain ⟨d, -, rfl⟩ := List.mem_map.mp hp
          exact hid (of_decide_eq_true heq)
        rw [List.filter_eq_nil_iff.mpr hnone, List.filter_cons,
          if_neg fun heq => hid (of_decide_eq_true heq)]
        rfl

/-- **The edges from a unit are its dependencies**, one for each spelling. -/
theorem dependencies_ofUnits (h : DistinctNames units) {u : Pou} (hu : u ∈ units) :
    (ofUnits units).dependencies (unitId u.name) = u.dependencies.map unitId := by
  rw [dependencies_eq_flatMap, h.filter_eq hu, List.flatMap_singleton]

end DependencyGraph

/-! ## The score -/

/-- The names of the dependencies of a unit, each in its first spelling. -/
def Pou.dependencyNames (u : Pou) : List String := firstBy (fun d => lower d.toList) u.dependencies

/-- How large some units are with each name counted once: two for each unit, one for each variable and
    three for each name of a dependency. -/
def namesSize (units : List Pou) : Nat :=
  2 * units.length + totalBy (fun u => u.vars.length) units +
    3 * totalBy (fun u => u.dependencyNames.length) units

theorem length_dependencyNames_eq_iff {u : Pou} :
    u.dependencyNames.length = u.dependencies.length ↔ DistinctUpToCase u.dependencies := by
  rw [Pou.dependencyNames, length_firstBy_eq_iff, DistinctUpToCase]
  simp only [ne_eq, sameName_iff]

section Total

variable {α : Type} {count count' : α → Nat} {as : List α}

theorem totalBy_cons (count : α → Nat) (a : α) (as : List α) :
    totalBy count (a :: as) = count a + totalBy count as := rfl

theorem totalBy_le (h : ∀ a ∈ as, count a ≤ count' a) : totalBy count as ≤ totalBy count' as := by
  induction as with
  | nil => exact Nat.le_refl _
  | cons a as ih =>
      obtain ⟨ha, has⟩ := List.forall_mem_cons.mp h
      exact Nat.add_le_add ha (ih has)

/-- Sums of smaller counts agree only where all counts do. -/
theorem totalBy_eq_iff (h : ∀ a ∈ as, count a ≤ count' a) :
    totalBy count as = totalBy count' as ↔ ∀ a ∈ as, count a = count' a := by
  induction as with
  | nil => exact iff_of_true rfl nofun
  | cons a as ih =>
      obtain ⟨ha, has⟩ := List.forall_mem_cons.mp h
      have hle := totalBy_le has
      rw [List.forall_mem_cons, ← ih has, totalBy_cons, totalBy_cons]
      omega

end Total

/-- **Each name counts once in the score** if and only if the dependencies of each unit differ in more than
    their case, or the highest score is reached without further spellings. -/
theorem complexityScore_eq_iff (units : List Pou) :
    complexityScore units = min maxScore (namesSize units) ↔
      maxScore ≤ namesSize units ∨ ∀ u ∈ units, DistinctUpToCase u.dependencies := by
  have hle : ∀ u ∈ units, u.dependencyNames.length ≤ u.dependencies.length :=
    fun u _ => length_firstBy_le _ u.dependencies
  have htotal := totalBy_le hle
  have heq : totalBy (fun u => u.dependencyNames.length) units
      = totalBy (fun u => u.dependencies.length) units ↔ ∀ u ∈ units, DistinctUpToCase u.dependencies :=
    (totalBy_eq_iff hle).trans (forall₂_congr fun u _ => length_dependencyNames_eq_iff)
  rw [← heq, complexityScore, namesSize]
  omega

/-! ## Each name once -/

/-- **Dependencies count by their spelling**: where no two units have one name, each dependency of a unit is
    an edge of its own. So there is one edge at most from a node to another, and each name counts once in
    the score, if and only if the dependencies of each unit differ in more than their case; and for a unit
    that is read from a source this is to say that its body spells each name in one way. A project that
    reaches the highest score with each name counted once has this score in any case. -/
theorem spelledOnce_iff (units : List Pou) (hnames : DistinctNames units) :
    (∀ u ∈ units, (DependencyGraph.ofUnits units).dependencies (unitId u.name)
      = u.dependencies.map unitId) ∧
    (∀ u ∈ units, u.IsRead → (DistinctUpToCase u.dependencies ↔ u.body.SpellsOneWay u.vars)) ∧
    ((DependencyGraph.ofUnits units).SingleEdges ↔ ∀ u ∈ units, DistinctUpToCase u.dependencies) ∧
    (complexityScore units = min maxScore (namesSize units) ↔
      maxScore ≤ namesSize units ∨ ∀ u ∈ units, DistinctUpToCase u.dependencies) :=
  ⟨fun _ hu => DependencyGraph.dependencies_ofUnits hnames hu,
    fun _ _ hread => hread.distinctUpToCase_iff, DependencyGraph.singleEdges_ofUnits_iff hnames,
    complexityScore_eq_iff units⟩

/-- A program that calls a function twice in its own spelling. -/
def oneSpelling : List Char :=
  "PROGRAM Main\nx := Scale(1) + Scale(2);\nEND_PROGRAM\nFUNCTION Scale : INT\nEND_FUNCTION".toList

/-- The program has one edge to the function, and its size is 2 · 2 + 3. -/
theorem spelledOnce_iff_oneSpelling :
    ∃ us, Pou.parseFile "f.st" oneSpelling = .ok us ∧ DistinctNames us ∧
      (∀ u ∈ us, u.body.SpellsOneWay u.vars) ∧ (DependencyGraph.ofUnits us).SingleEdges ∧
      complexityScore us = min maxScore (namesSize us) ∧ namesSize us = 7 := by
  obtain ⟨us, hfile, hnames, honce, hsize⟩ : ∃ us, Pou.parseFile "f.st" oneSpelling = .ok us ∧
      DistinctNames us ∧ (∀ u ∈ us, DistinctUpToCase u.dependencies) ∧ namesSize us = 7 :=
    Pou.exists_ok_of_any (by decide +kernel)
  obtain ⟨-, hbodies, hedges, hscore⟩ := spelledOnce_iff us hnames
  have hread : ∀ u ∈ us, u.IsRead := fun u hu => ⟨"f.st", oneSpelling, Or.inr ⟨us, hfile, hu⟩⟩
  exact ⟨us, hfile, hnames, fun u hu => (hbodies u hu (hread u hu)).mp (honce u hu), hedges.mpr honce,
    hscore.mpr (Or.inr honce), hsize⟩

/-- The same program with one of the calls in capitals. -/
def twoSpellings : List Char :=
  "PROGRAM Main\nx := Scale(1) + SCALE(2);\nEND_PROGRAM\nFUNCTION Scale : INT\nEND_FUNCTION".toList

/-- **A name in two spellings counts twice**: the program depends on it twice, has two edges to the
    function, and a size of 2 · 2 + 3 · 2. -/
theorem exists_two_spellings :
    (∃ u, Pou.parse "f.st" twoSpellings = .ok u ∧ u.dependencies = ["SCALE", "Scale"] ∧
      ¬ DistinctUpToCase u.dependencies) ∧
    ∃ us, Pou.parseFile "f.st" twoSpellings = .ok us ∧ DistinctNames us ∧
      ¬ (DependencyGraph.ofUnits us).SingleEdges ∧
      complexityScore us = 10 ∧ min maxScore (namesSize us) = 7 :=
  ⟨Pou.exists_ok_of_any (by decide +kernel), Pou.exists_ok_of_any (by decide +kernel)⟩

end StLint

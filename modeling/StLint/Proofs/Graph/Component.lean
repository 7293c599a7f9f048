import Mathlib.Data.List.Nodup
import Mathlib.Tactic.Common
import StLint.Graph.Digraph
import StLint.Proofs.Collection.Sorted

/-!
# Strongly connected components

Two nodes that reach each other lie on one cycle, so the components with a cycle are the classes of
mutual reachability, and **the search finds exactly the nodes that a path leads to**.

* `mem_exploreFrom` — the search meets what paths through unseen nodes lead to.
* `mem_explore` — from one node it finds what the node reaches.
* `ListsComponents` — a list of the components, in any order; `listsComponents` for the one that is
  computed.
* `cyclesOf_eq_cycles` — every such list has the same cycles.
* `mem_cycles_iff` — the listed components, each with its first member.
* `pairwise_disjoint_cycles`, `exists_mem_cycles_iff` — every node on a cycle is in one of them, and
  in no other.
-/

namespace StLint.Digraph

variable {g : Digraph} {i j k : Nat}

/-! ## Paths -/

/-- Both ends of every edge are nodes. -/
def Closed (g : Digraph) : Prop := ∀ e ∈ g.edges, e.1 < g.size ∧ e.2 < g.size

theorem Reaches.edge (h : (i, j) ∈ g.edges) : g.Reaches i j := .step h (.refl j)

theorem Reaches.trans (hij : g.Reaches i j) (hjk : g.Reaches j k) : g.Reaches i k := by
  induction hij with
  | refl => exact hjk
  | step he _ ih => exact .step he (ih hjk)

/-- A path that keeps to the nodes of a list. -/
inductive ReachesIn (g : Digraph) (unseen : List Nat) : Nat → Nat → Prop where
  | refl {i : Nat} : i ∈ unseen → ReachesIn g unseen i i
  | step {i j k : Nat} : i ∈ unseen → (i, j) ∈ g.edges → ReachesIn g unseen j k →
      ReachesIn g unseen i k

theorem ReachesIn.head_mem {unseen : List Nat} (h : g.ReachesIn unseen i j) : i ∈ unseen := by
  cases h <;> assumption

theorem ReachesIn.mono {unseen more : List Nat} (hsub : ∀ i ∈ unseen, i ∈ more)
    (h : g.ReachesIn unseen i j) : g.ReachesIn more i j := by
  induction h with
  | refl hi => exact .refl (hsub _ hi)
  | step hi he _ ih => exact .step (hsub _ hi) he ih

/-- **Past its last visit to a node** a path avoids it: it ends there, never came there, or goes on
    from a successor. -/
theorem ReachesIn.avoid {unseen : List Nat} (h : g.ReachesIn unseen j k) (i : Nat) :
    k = i ∨ g.ReachesIn (unseen.erase i) j k ∨
      ∃ s, (i, s) ∈ g.edges ∧ g.ReachesIn (unseen.erase i) s k := by
  induction h with
  | @refl j hj =>
      by_cases hji : j = i
      · exact Or.inl hji
      · exact Or.inr (Or.inl (.refl ((List.mem_erase_of_ne hji).mpr hj)))
  | @step j j' k hj he _ ih =>
      rcases ih with hk | hrest | hsucc
      · exact Or.inl hk
      · by_cases hji : j = i
        · subst hji
          exact Or.inr (Or.inr ⟨j', he, hrest⟩)
        · exact Or.inr (Or.inl (.step ((List.mem_erase_of_ne hji).mpr hj) he hrest))
      · exact Or.inr (Or.inr hsucc)

theorem mem_successors : j ∈ g.successors i ↔ (i, j) ∈ g.edges := by
  simp only [successors, List.mem_reverse, List.mem_map, List.mem_filter, decide_eq_true_eq]
  constructor
  · rintro ⟨⟨a, b⟩, ⟨he, rfl⟩, rfl⟩
    exact he
  · intro he
    exact ⟨(i, j), ⟨he, rfl⟩, rfl⟩

/-- **The search meets what paths through unseen nodes lead to.** -/
theorem mem_exploreFrom {unseen work : List Nat} :
    k ∈ g.exploreFrom unseen work ↔ ∃ i ∈ work, g.ReachesIn unseen i k := by
  induction unseen, work using exploreFrom.induct g with
  | case1 unseen => simp [exploreFrom]
  | case2 unseen i work hi ih =>
      rw [exploreFrom, dif_pos hi, List.mem_cons, ih]
      constructor
      · rintro (rfl | ⟨j, hj, hpath⟩)
        · exact ⟨k, List.mem_cons_self .., .refl hi⟩
        · have hpath' := hpath.mono fun _ h => List.mem_of_mem_erase h
          rcases List.mem_append.mp hj with hj | hj
          · exact ⟨i, List.mem_cons_self .., .step hi (mem_successors.mp hj) hpath'⟩
          · exact ⟨j, List.mem_cons_of_mem i hj, hpath'⟩
      · rintro ⟨j, hj, hpath⟩
        -- the search goes on without `i`, and so does a path past its last visit to `i`
        rcases hpath.avoid i with hk | hrest | ⟨s, hs, hrest⟩
        · exact Or.inl hk
        · rcases List.mem_cons.mp hj with rfl | hj
          · cases hrest with
            | refl => exact Or.inl rfl
            | step _ he hrest =>
                exact Or.inr ⟨_, List.mem_append_left _ (mem_successors.mpr he), hrest⟩
          · exact Or.inr ⟨j, List.mem_append_right _ hj, hrest⟩
        · exact Or.inr ⟨s, List.mem_append_left _ (mem_successors.mpr hs), hrest⟩
  | case3 unseen i work hi ih =>
      rw [exploreFrom, dif_neg hi, ih]
      constructor
      · rintro ⟨j, hj, hpath⟩
        exact ⟨j, List.mem_cons_of_mem i hj, hpath⟩
      · rintro ⟨j, hj, hpath⟩
        rcases List.mem_cons.mp hj with rfl | hj
        · exact absurd hpath.head_mem hi
        · exact ⟨j, hj, hpath⟩

/-- In a closed graph a path from a node keeps to the nodes. -/
theorem reachesIn_nodes_iff (hg : g.Closed) :
    g.ReachesIn g.nodes i j ↔ i < g.size ∧ g.Reaches i j := by
  constructor
  · intro h
    refine ⟨List.mem_range.mp h.head_mem, ?_⟩
    induction h with
    | refl => exact .refl _
    | step _ he _ ih => exact .step he ih
  · rintro ⟨hi, h⟩
    induction h with
    | refl => exact .refl (List.mem_range.mpr hi)
    | step he _ ih => exact .step (List.mem_range.mpr hi) he (ih (hg _ he).2)

/-- **From one node the search finds what the node reaches.** -/
theorem mem_explore (hg : g.Closed) : j ∈ g.explore i ↔ i < g.size ∧ g.Reaches i j := by
  rw [explore, mem_exploreFrom, ← reachesIn_nodes_iff hg]
  simp

/-! ## Components -/

/-- Two nodes reach each other. -/
def Mutual (g : Digraph) (i j : Nat) : Prop := g.Reaches i j ∧ g.Reaches j i

theorem Mutual.refl (g : Digraph) (i : Nat) : g.Mutual i i := ⟨.refl i, .refl i⟩

theorem Mutual.symm (h : g.Mutual i j) : g.Mutual j i := ⟨h.2, h.1⟩

theorem Mutual.trans (hij : g.Mutual i j) (hjk : g.Mutual j k) : g.Mutual i k :=
  ⟨hij.1.trans hjk.1, hjk.2.trans hij.2⟩

theorem mutual?_iff (hg : g.Closed) (hi : i < g.size) (hj : j < g.size) :
    (mutual? (g.nodes.map g.explore) i j = true) ↔ g.Mutual i j := by
  have hreached : ∀ {k}, k < g.size → ((g.nodes.map g.explore)[k]?).getD [] = g.explore k := by
    intro k hk
    simp [nodes, hk]
  rw [mutual?, hreached hi, hreached hj]
  simp [mem_explore hg, hi, hj, Mutual]

/-- The nodes of a component, in order. -/
def component (g : Digraph) (i : Nat) : List Nat :=
  g.nodes.filter (mutual? (g.nodes.map g.explore) i)

theorem component_sublist (g : Digraph) (i : Nat) : (g.component i).Sublist g.nodes :=
  List.filter_sublist

/-- **A component holds the nodes that reach each other.** -/
theorem mem_component (hg : g.Closed) (hi : i < g.size) :
    j ∈ g.component i ↔ j < g.size ∧ g.Mutual i j := by
  rw [component, List.mem_filter, nodes, List.mem_range]
  exact and_congr_right fun hj => mutual?_iff hg hi hj

theorem component_congr (hg : g.Closed) (hi : i < g.size) (hj : j < g.size) (h : g.Mutual i j) :
    g.component i = g.component j := by
  refine List.filter_congr ?_
  intro k hk
  have hk' : k < g.size := List.mem_range.mp hk
  rw [Bool.eq_iff_iff, mutual?_iff hg hi hk', mutual?_iff hg hj hk']
  exact ⟨h.symm.trans, h.trans⟩

/-! ## Cycles -/

/-- A node lies on a cycle: another node and it reach each other, or it points to itself. -/
def OnCycle (g : Digraph) (i : Nat) : Prop := (∃ j, j ≠ i ∧ g.Mutual i j) ∨ (i, i) ∈ g.edges

theorem Reaches.lt_size (hg : g.Closed) (hi : i < g.size) (h : g.Reaches i j) : j < g.size := by
  induction h with
  | refl => exact hi
  | step he _ ih => exact ih (hg _ he).2

theorem OnCycle.congr (hi : g.OnCycle i) (h : g.Mutual i j) : g.OnCycle j := by
  by_cases hij : i = j
  · exact hij ▸ hi
  · exact Or.inl ⟨i, hij, h.symm⟩

theorem one_lt_length_component (hg : g.Closed) (hi : i < g.size) :
    1 < (g.component i).length ↔ ∃ j, j ≠ i ∧ g.Mutual i j := by
  have hnodup : (g.component i).Nodup := List.nodup_range.sublist (g.component_sublist i)
  have hself : i ∈ g.component i := (mem_component hg hi).mpr ⟨hi, .refl g i⟩
  -- no node is repeated, so without `i` the component holds exactly the others
  have hothers : 1 < (g.component i).length ↔ 0 < ((g.component i).erase i).length := by
    rw [List.length_erase_of_mem hself]
    omega
  rw [hothers, List.length_pos_iff_exists_mem]
  refine exists_congr ?_
  intro j
  rw [hnodup.mem_erase_iff, mem_component hg hi]
  exact and_congr_right fun _ => ⟨And.right, fun h => ⟨h.1.lt_size hg hi, h⟩⟩

/-- **A component holds a cycle** where its nodes lie on one. -/
theorem holdsCycle_component (hg : g.Closed) (hi : i < g.size) :
    g.holdsCycle (g.component i) = true ↔ g.OnCycle i := by
  rw [holdsCycle, Bool.or_eq_true, decide_eq_true_eq, one_lt_length_component hg hi, List.any_eq_true]
  simp only [List.contains_iff_mem]
  constructor
  · rintro (hother | ⟨j, hj, hedge⟩)
    · exact Or.inl hother
    · have hcycle : g.OnCycle j := Or.inr hedge
      exact hcycle.congr ((mem_component hg hi).mp hj).2.symm
  · rintro (hother | hedge)
    · exact Or.inl hother
    · exact Or.inr ⟨i, (mem_component hg hi).mpr ⟨hi, .refl g i⟩, hedge⟩

/-! ## Lists of components -/

/-- The component of a node, if the node is its first member. -/
def componentAt? (g : Digraph) (i : Nat) : Option (List Nat) :=
  if (g.component i).head? = some i then some (g.component i) else none

theorem components_eq (g : Digraph) : g.components = g.nodes.filterMap g.componentAt? := rfl

theorem componentAt?_eq_some_iff {c : List Nat} :
    g.componentAt? i = some c ↔ c = g.component i ∧ c.head? = some i := by
  rw [componentAt?]
  split_ifs with h
  · constructor
    · intro hc
      obtain rfl := Option.some.inj hc
      exact ⟨rfl, h⟩
    · rintro ⟨rfl, -⟩
      rfl
  · constructor
    · intro hc
      exact nomatch hc
    · rintro ⟨rfl, h'⟩
      exact absurd h' h

/-- **The components are sorted** by their first members. -/
theorem pairwise_components (g : Digraph) : g.components.Pairwise fun c d => c.lex d = true := by
  rw [components_eq, List.pairwise_filterMap]
  refine (List.pairwise_lt_range (n := g.size)).imp ?_
  intro i j hij c hc d hd
  exact lex_of_head?_lt (componentAt?_eq_some_iff.mp hc).2 (componentAt?_eq_some_iff.mp hd).2 hij

theorem nodup_components (g : Digraph) : g.components.Nodup := by
  refine g.pairwise_components.imp ?_
  rintro c _ hlex rfl
  exact not_lex_self c hlex

/-- What has the members of a component is sorted to the component. -/
theorem mergeSort_of_perm_component {c : List Nat} (h : c.Perm (g.component i)) :
    (c.mergeSort fun a b => a ≤ b) = g.component i := by
  exact mergeSort_le_of_perm h (List.pairwise_lt_range.sublist (g.component_sublist i))

/-- **Sorting the members and then the components** gives the components as they are computed, whatever
    their order was. -/
theorem cyclesOf_eq_filter {cs : List (List Nat)}
    (h : (cs.map fun c => c.mergeSort fun a b => a ≤ b).Perm g.components) :
    g.cyclesOf cs = g.components.filter g.holdsCycle := by
  have hholds : ∀ c, g.holdsCycle (c.mergeSort fun a b => a ≤ b) = g.holdsCycle c := by
    intro c
    have hperm := List.mergeSort_perm c fun a b => a ≤ b
    rw [holdsCycle, holdsCycle, hperm.length_eq, hperm.any_eq]
  have hfilter : ((cs.filter g.holdsCycle).map fun c => c.mergeSort fun a b => a ≤ b)
      = (cs.map fun c => c.mergeSort fun a b => a ≤ b).filter g.holdsCycle := by
    rw [List.filter_map]
    refine congrArg _ (List.filter_congr ?_)
    intro c _
    exact (hholds c).symm
  rw [cyclesOf, hfilter]
  exact mergeSort_lex_of_perm (h.filter _) (g.pairwise_components.filter _)

/-- The lists are the components of the graph, in any order. -/
structure ListsComponents (g : Digraph) (cs : List (List Nat)) : Prop where
  /-- Every node is listed once. -/
  partition : cs.flatten.Perm g.nodes
  notEmpty : [] ∉ cs
  /-- A node is listed together with those that it reaches and that reach it. -/
  together : ∀ c ∈ cs, ∀ i ∈ c, ∀ j, j ∈ c ↔ g.Mutual i j

/-- Lists without repetitions where each node stands with the members of its component. -/
theorem ListsComponents.of_perm (hg : g.Closed) {cs : List (List Nat)} (hpartition : cs.flatten.Perm g.nodes)
    (hne : [] ∉ cs) (h : ∀ c ∈ cs, ∀ i ∈ c, c.Perm (g.component i)) : g.ListsComponents cs where
  partition := hpartition
  notEmpty := hne
  together := by
    intro c hc i hi j
    have hsize : i < g.size :=
      List.mem_range.mp (hpartition.mem_iff.mp (List.mem_flatten.mpr ⟨c, hc, hi⟩))
    rw [(h c hc i hi).mem_iff, mem_component hg hsize]
    exact ⟨And.right, fun hij => ⟨hij.1.lt_size hg hsize, hij⟩⟩

/-- The components are those of all nodes. -/
theorem mem_components_iff (hg : g.Closed) {c : List Nat} :
    c ∈ g.components ↔ ∃ i, i < g.size ∧ c = g.component i := by
  rw [components_eq, List.mem_filterMap]
  constructor
  · rintro ⟨i, hi, hc⟩
    exact ⟨i, List.mem_range.mp hi, (componentAt?_eq_some_iff.mp hc).1⟩
  · rintro ⟨i, hi, rfl⟩
    have hself : i ∈ g.component i := (mem_component hg hi).mpr ⟨hi, .refl g i⟩
    obtain ⟨j, rest, hcons⟩ := List.exists_cons_of_ne_nil (List.ne_nil_of_mem hself)
    have hjmem : j ∈ g.component i := by
      rw [hcons]
      exact List.mem_cons_self ..
    obtain ⟨hj, hij⟩ := (mem_component hg hi).mp hjmem
    refine ⟨j, List.mem_range.mpr hj, componentAt?_eq_some_iff.mpr ⟨component_congr hg hi hj hij, ?_⟩⟩
    rw [hcons]
    rfl

/-- A listed component is that of each of its members. -/
theorem eq_component_of_mem_components (hg : g.Closed) {c : List Nat} (hc : c ∈ g.components)
    (hi : i ∈ c) : i < g.size ∧ c = g.component i := by
  obtain ⟨j, hj, rfl⟩ := (mem_components_iff hg).mp hc
  obtain ⟨hisize, hmutual⟩ := (mem_component hg hj).mp hi
  exact ⟨hisize, component_congr hg hj hisize hmutual⟩

/-- **The components that are computed** are the components. -/
theorem listsComponents (hg : g.Closed) : g.ListsComponents g.components := by
  refine .of_perm hg ?_ ?_ ?_
  · refine (List.perm_ext_iff_of_nodup ?_ List.nodup_range).mpr ?_
    · refine List.nodup_flatten.mpr ⟨?_, ?_⟩
      · intro c hc
        obtain ⟨i, -, rfl⟩ := (mem_components_iff hg).mp hc
        exact List.nodup_range.sublist (g.component_sublist i)
      · refine g.pairwise_components.imp_of_mem ?_
        intro c d hc hd hlex k hkc hkd
        rw [(eq_component_of_mem_components hg hc hkc).2,
          (eq_component_of_mem_components hg hd hkd).2] at hlex
        exact not_lex_self _ hlex
    · intro i
      rw [List.mem_flatten, List.mem_range]
      constructor
      · rintro ⟨c, hc, hi⟩
        exact (eq_component_of_mem_components hg hc hi).1
      · intro hi
        exact ⟨g.component i, (mem_components_iff hg).mpr ⟨i, hi, rfl⟩,
          (mem_component hg hi).mpr ⟨hi, .refl g i⟩⟩
  · intro hnil
    obtain ⟨i, hi, hc⟩ := (mem_components_iff hg).mp hnil
    have hself : i ∈ g.component i := (mem_component hg hi).mpr ⟨hi, .refl g i⟩
    rw [← hc] at hself
    exact absurd hself List.not_mem_nil
  · intro c hc i hi
    rw [← (eq_component_of_mem_components hg hc hi).2]

/-- In a list of the components each one has the members of that of any of its nodes. -/
theorem ListsComponents.perm_component (hg : g.Closed) {cs : List (List Nat)} (h : g.ListsComponents cs)
    {c : List Nat} (hc : c ∈ cs) (hi : i ∈ c) : i < g.size ∧ c.Perm (g.component i) := by
  have hsize : i < g.size := List.mem_range.mp (h.partition.mem_iff.mp (List.mem_flatten.mpr ⟨c, hc, hi⟩))
  have hnodup : c.Nodup :=
    (List.nodup_flatten.mp (h.partition.nodup_iff.mpr List.nodup_range)).1 c hc
  refine ⟨hsize, (List.perm_ext_iff_of_nodup hnodup
    (List.nodup_range.sublist (g.component_sublist i))).mpr ?_⟩
  intro j
  rw [h.together c hc i hi, mem_component hg hsize]
  exact ⟨fun hij => ⟨hij.1.lt_size hg hsize, hij⟩, And.right⟩

/-- **A list of the components is the one that is computed**, but for the order in it and in its
    members. -/
theorem ListsComponents.perm_components (hg : g.Closed) {cs : List (List Nat)}
    (h : g.ListsComponents cs) :
    (cs.map fun c => c.mergeSort fun a b => a ≤ b).Perm g.components := by
  have hsort : ∀ {c}, c ∈ cs → ∀ {i}, i ∈ c → (c.mergeSort fun a b => a ≤ b) = g.component i :=
    fun hc _ hi => mergeSort_of_perm_component (h.perm_component hg hc hi).2
  refine (List.perm_ext_iff_of_nodup ?_ g.nodup_components).mpr ?_
  · -- lists with one sorted form share their members, and no two lists share any
    refine List.pairwise_map.mpr ?_
    have hdisjoint := (List.nodup_flatten.mp (h.partition.nodup_iff.mpr List.nodup_range)).2
    refine hdisjoint.imp_of_mem ?_
    intro c d hc _ hcd heq
    obtain ⟨i, hi⟩ := List.exists_mem_of_ne_nil c fun hnil => h.notEmpty (hnil ▸ hc)
    refine hcd hi ?_
    exact List.mem_mergeSort.mp (heq ▸ List.mem_mergeSort.mpr hi)
  · intro d
    rw [List.mem_map, mem_components_iff hg]
    constructor
    · rintro ⟨c, hc, rfl⟩
      obtain ⟨i, hi⟩ := List.exists_mem_of_ne_nil c fun hnil => h.notEmpty (hnil ▸ hc)
      exact ⟨i, (h.perm_component hg hc hi).1, hsort hc hi⟩
    · rintro ⟨i, hi, rfl⟩
      obtain ⟨c, hc, hic⟩ := List.mem_flatten.mp (h.partition.mem_iff.mpr (List.mem_range.mpr hi))
      exact ⟨c, hc, hsort hc hic⟩

/-- **Every list of the components has the same cycles.** -/
theorem cyclesOf_eq_cycles (hg : g.Closed) {cs : List (List Nat)} (h : g.ListsComponents cs) :
    g.cyclesOf cs = g.cycles := by
  rw [cycles, cyclesOf_eq_filter (h.perm_components hg),
    cyclesOf_eq_filter ((listsComponents hg).perm_components hg)]

/-! ## Listed cycles -/

/-- The component of a node, if the node is its first member and lies on a cycle. -/
def cycleAt? (g : Digraph) (i : Nat) : Option (List Nat) := (g.componentAt? i).filter g.holdsCycle

theorem cycles_eq (hg : g.Closed) : g.cycles = g.nodes.filterMap g.cycleAt? := by
  rw [cycles, cyclesOf_eq_filter ((listsComponents hg).perm_components hg), components_eq,
    List.filter_filterMap]
  rfl

theorem cycleAt?_eq_some_iff (hg : g.Closed) (hi : i < g.size) {c : List Nat} :
    g.cycleAt? i = some c ↔ c = g.component i ∧ c.head? = some i ∧ g.OnCycle i := by
  rw [cycleAt?, Option.filter_eq_some_iff, componentAt?_eq_some_iff, and_assoc]
  refine and_congr_right ?_
  rintro rfl
  rw [holdsCycle_component hg hi]

/-- **The listed components**: of every node on a cycle, and under their first members. -/
theorem mem_cycles_iff (hg : g.Closed) {c : List Nat} :
    c ∈ g.cycles ↔ ∃ i, i < g.size ∧ c = g.component i ∧ c.head? = some i ∧ g.OnCycle i := by
  rw [cycles_eq hg, List.mem_filterMap]
  refine exists_congr ?_
  intro i
  rw [nodes, List.mem_range]
  exact and_congr_right fun hi => cycleAt?_eq_some_iff hg hi

/-- A listed component is the component of each of its members. -/
theorem eq_component_of_mem (hg : g.Closed) {c : List Nat} (hc : c ∈ g.cycles) (hi : i ∈ c) :
    i < g.size ∧ g.OnCycle i ∧ c = g.component i := by
  obtain ⟨j, hj, rfl, -, hcycle⟩ := (mem_cycles_iff hg).mp hc
  obtain ⟨hisize, hmutual⟩ := (mem_component hg hj).mp hi
  exact ⟨hisize, hcycle.congr hmutual, component_congr hg hj hisize hmutual⟩

/-- **Every node on a cycle is listed.** -/
theorem component_mem_cycles (hg : g.Closed) (hi : i < g.size) (h : g.OnCycle i) :
    g.component i ∈ g.cycles := by
  have hmem : g.component i ∈ g.components := (mem_components_iff hg).mpr ⟨i, hi, rfl⟩
  rw [components_eq] at hmem
  obtain ⟨j, hj, hcomponent⟩ := List.mem_filterMap.mp hmem
  have hj : j < g.size := List.mem_range.mp hj
  obtain ⟨heq, hhead⟩ := componentAt?_eq_some_iff.mp hcomponent
  have hij : j ∈ g.component i := by
    rw [heq]
    exact (mem_component hg hj).mpr ⟨hj, .refl g j⟩
  exact (mem_cycles_iff hg).mpr ⟨j, hj, heq, hhead, h.congr ((mem_component hg hi).mp hij).2⟩

theorem exists_mem_cycles_iff (hg : g.Closed) (hi : i < g.size) :
    (∃ c ∈ g.cycles, i ∈ c ∧ j ∈ c) ↔ g.OnCycle i ∧ g.Mutual i j := by
  constructor
  · rintro ⟨c, hc, hic, hjc⟩
    obtain ⟨-, hcycle, rfl⟩ := eq_component_of_mem hg hc hic
    exact ⟨hcycle, ((mem_component hg hi).mp hjc).2⟩
  · rintro ⟨hcycle, hij⟩
    exact ⟨_, component_mem_cycles hg hi hcycle, (mem_component hg hi).mpr ⟨hi, .refl g i⟩,
      (mem_component hg hi).mpr ⟨hij.1.lt_size hg hi, hij⟩⟩

/-- **The first members stand in order.** -/
theorem heads_cycles_sublist (hg : g.Closed) : (g.cycles.filterMap List.head?).Sublist g.nodes := by
  have hheads : g.cycles.filterMap List.head? = g.nodes.filter fun i => (g.cycleAt? i).isSome := by
    rw [cycles_eq hg, List.filterMap_filterMap, ← List.filterMap_eq_filter]
    refine List.filterMap_congr ?_
    intro i hi
    cases hc : g.cycleAt? i with
    | none => simp [hc, Option.guard]
    | some c =>
        obtain ⟨-, hhead, -⟩ := (cycleAt?_eq_some_iff hg (List.mem_range.mp hi)).mp hc
        simp [hc, hhead]
  rw [hheads]
  exact List.filter_sublist

/-- **No node is listed twice.** -/
theorem pairwise_disjoint_cycles (hg : g.Closed) : g.cycles.Pairwise List.Disjoint := by
  rw [cycles_eq hg, List.pairwise_filterMap]
  refine List.Pairwise.imp_of_mem ?_ (List.pairwise_lt_range (n := g.size))
  intro i j hi hj hlt c hc d hd k hkc hkd
  have hmem : ∀ {m e}, m ∈ List.range g.size → g.cycleAt? m = some e → e ∈ g.cycles := by
    intro m e hm he
    rw [cycles_eq hg]
    exact List.mem_filterMap.mpr ⟨m, hm, he⟩
  obtain ⟨-, -, hck⟩ := eq_component_of_mem hg (hmem hi hc) hkc
  obtain ⟨-, -, hdk⟩ := eq_component_of_mem hg (hmem hj hd) hkd
  -- both are the component of the shared node, so they have one first member
  have hhead : some i = some j := by
    rw [← ((cycleAt?_eq_some_iff hg (List.mem_range.mp hi)).mp hc).2.1,
      ← ((cycleAt?_eq_some_iff hg (List.mem_range.mp hj)).mp hd).2.1, hck, hdk]
  exact absurd (Option.some.inj hhead) (Nat.ne_of_lt hlt)

end StLint.Digraph

import Mathlib.Data.List.Permutation
import Mathlib.Logic.Relation
import StLint.Graph.Basic
import StLint.Proofs.Collection.Distinct
import StLint.Proofs.Graph.Component

/-!
# The cycles of a dependency graph

A graph with ids of their own for its nodes is a graph on the positions of the nodes: an edge with
an unknown end is none, and a repeated edge is one. So **the cycles of a dependency graph are its
strongly connected components**, those of one node that does not depend on itself left out.

* `Links`, `DependsOn` — an edge between two nodes, and a path of edges.
* `mem_digraph_edges_iff`, `reaches_iff` — edges and paths between positions.
* `ListsCycles` — what a list of cycles has to be.
* `listsCycles` — the cycles between positions are one.
* `cycles_eq_components` — the listed names are those of such a list, in whatever order the components
  of the graph on positions are given.
-/

namespace StLint.DependencyGraph

variable {g : DependencyGraph} {a b c : GraphNode} {i j : Nat}

/-! ## Nodes and edges -/

/-- The ids of the nodes are pairwise different. -/
def HasDistinctIds (g : DependencyGraph) : Prop := (g.nodes.map GraphNode.id).Nodup

/-- An edge leads from one node to another. -/
def Links (g : DependencyGraph) (a b : GraphNode) : Prop :=
  a ∈ g.nodes ∧ b ∈ g.nodes ∧ ∃ e ∈ g.edges, e.source = a.id ∧ e.target = b.id

/-- A path of edges leads from one node to another; every node depends on itself. -/
def DependsOn (g : DependencyGraph) : GraphNode → GraphNode → Prop := Relation.ReflTransGen g.Links

theorem lastIndex?_eq_some {α : Type} {p : α → Bool} {as : List α} (h : lastIndex? p as = some i) :
    ∃ a, as[i]? = some a ∧ p a = true := by
  induction as generalizing i with
  | nil => exact nomatch h
  | cons a as ih =>
      rw [lastIndex?] at h
      cases hlast : lastIndex? p as with
      | none =>
          rw [hlast] at h
          by_cases ha : p a = true
          · simp only [ha, if_true, Option.some.injEq] at h
            subst h
            exact ⟨a, rfl, ha⟩
          · simp [ha] at h
      | some k =>
          rw [hlast] at h
          obtain rfl := Option.some.inj h
          exact ih hlast

theorem isSome_lastIndex? {α : Type} (p : α → Bool) (as : List α) :
    (lastIndex? p as).isSome = as.any p := by
  induction as with
  | nil => rfl
  | cons a as ih =>
      rw [lastIndex?, List.any_cons, ← ih]
      cases lastIndex? p as with
      | none => cases p a <;> rfl
      | some k => simp

/-- Different positions hold nodes with different ids. -/
theorem HasDistinctIds.position_eq (hids : g.HasDistinctIds) (hi : g.nodes[i]? = some a)
    (hj : g.nodes[j]? = some b) (h : a.id = b.id) : i = j := by
  have hlt : i < (g.nodes.map GraphNode.id).length := by
    rw [List.length_map]
    exact (List.getElem?_eq_some_iff.mp hi).1
  refine (List.getElem?_inj hlt hids).mp ?_
  rw [List.getElem?_map, List.getElem?_map, hi, hj, Option.map_some, Option.map_some, h]

/-- **An id stands for the node that has it.** -/
theorem position?_eq_some_iff (hids : g.HasDistinctIds) {id : String} :
    g.position? id = some i ↔ ∃ n, g.nodes[i]? = some n ∧ n.id = id := by
  constructor
  · intro h
    obtain ⟨n, hn, hid⟩ := lastIndex?_eq_some h
    exact ⟨n, hn, of_decide_eq_true hid⟩
  · rintro ⟨n, hn, rfl⟩
    have hsome : (g.position? n.id).isSome = true := by
      rw [position?, isSome_lastIndex?, List.any_eq_true]
      exact ⟨n, List.mem_of_getElem? hn, decide_eq_true rfl⟩
    obtain ⟨k, hk⟩ := Option.isSome_iff_exists.mp hsome
    obtain ⟨m, hm, hid⟩ := lastIndex?_eq_some hk
    rw [hk, hids.position_eq hm hn (of_decide_eq_true hid)]

/-- **An edge between positions** is an edge between the nodes at them. -/
theorem mem_digraph_edges_iff (hids : g.HasDistinctIds) : (i, j) ∈ g.digraph.edges ↔
    ∃ a b, g.nodes[i]? = some a ∧ g.nodes[j]? = some b ∧ g.Links a b := by
  rw [digraph, Digraph.ofEdges, mem_firstBy_id, List.mem_filterMap]
  constructor
  · rintro ⟨e, he, hpos⟩
    rw [edgePositions?] at hpos
    cases hs : g.position? e.source with
    | none =>
        rw [hs] at hpos
        exact nomatch hpos
    | some i' =>
        cases ht : g.position? e.target with
        | none =>
            rw [hs, ht] at hpos
            exact nomatch hpos
        | some j' =>
            rw [hs, ht] at hpos
            obtain ⟨rfl, rfl⟩ := Prod.mk.inj (Option.some.inj hpos)
            obtain ⟨a, ha, hsource⟩ := (position?_eq_some_iff hids).mp hs
            obtain ⟨b, hb, htarget⟩ := (position?_eq_some_iff hids).mp ht
            exact ⟨a, b, ha, hb, List.mem_of_getElem? ha, List.mem_of_getElem? hb, e, he,
              hsource.symm, htarget.symm⟩
  · rintro ⟨a, b, ha, hb, -, -, e, he, hsource, htarget⟩
    refine ⟨e, he, ?_⟩
    rw [edgePositions?, (position?_eq_some_iff hids).mpr ⟨a, ha, hsource.symm⟩,
      (position?_eq_some_iff hids).mpr ⟨b, hb, htarget.symm⟩]

theorem closed_digraph (hids : g.HasDistinctIds) : g.digraph.Closed := by
  rintro ⟨i, j⟩ he
  obtain ⟨a, b, ha, hb, -⟩ := (mem_digraph_edges_iff hids).mp he
  exact ⟨(List.getElem?_eq_some_iff.mp ha).1, (List.getElem?_eq_some_iff.mp hb).1⟩

/-- **A path between positions** is a path between the nodes at them. -/
theorem reaches_iff (hids : g.HasDistinctIds) (ha : g.nodes[i]? = some a)
    (hb : g.nodes[j]? = some b) : g.digraph.Reaches i j ↔ g.DependsOn a b := by
  constructor
  · intro h
    induction h generalizing a with
    | refl =>
        obtain rfl := Option.some.inj (ha.symm.trans hb)
        exact .refl
    | step he _ ih =>
        obtain ⟨a', c, ha', hc, hlink⟩ := (mem_digraph_edges_iff hids).mp he
        obtain rfl := Option.some.inj (ha'.symm.trans ha)
        exact .head hlink (ih hc hb)
  · intro h
    induction h using Relation.ReflTransGen.head_induction_on generalizing i with
    | refl =>
        obtain rfl := hids.position_eq ha hb rfl
        exact .refl _
    | head hlink _ ih =>
        obtain ⟨k, hk⟩ := List.getElem?_of_mem hlink.2.1
        exact .step ((mem_digraph_edges_iff hids).mpr ⟨_, _, ha, hk, hlink⟩) (ih hk)

/-! ## Lists of cycles -/

/-- Two nodes depend on each other. -/
def Mutual (g : DependencyGraph) (a b : GraphNode) : Prop := g.DependsOn a b ∧ g.DependsOn b a

/-- The lists are the components of the graph that hold a cycle. -/
structure ListsCycles (g : DependencyGraph) (cs : List (List GraphNode)) : Prop where
  /-- Two nodes are listed together if and only if each depends on the other. -/
  together : ∀ a ∈ g.nodes, ∀ b ∈ g.nodes, a ≠ b → ((∃ c ∈ cs, a ∈ c ∧ b ∈ c) ↔ g.Mutual a b)
  /-- A node is listed alone if and only if it has an edge to itself and is on no larger cycle. -/
  alone : ∀ a ∈ g.nodes, [a] ∈ cs ↔ g.Links a a ∧ ∀ b, b ≠ a → ¬ g.Mutual a b
  disjoint : cs.Pairwise List.Disjoint
  notEmpty : ∀ c ∈ cs, c ≠ []
  membersInOrder : ∀ c ∈ cs, c.Sublist g.nodes
  firstsInOrder : (cs.filterMap List.head?).Sublist g.nodes

/-- The node at a position. -/
def nodeAt (g : DependencyGraph) (i : Nat) : GraphNode := (g.nodes[i]?).getD default

theorem getElem?_eq_nodeAt (h : i < g.nodes.length) : g.nodes[i]? = some (g.nodeAt i) := by
  rw [nodeAt, List.getElem?_eq_getElem h, Option.getD_some]

/-- The name at a position is that of the node there. -/
theorem name_nodeAt (g : DependencyGraph) (i : Nat) : (g.nodeAt i).name = g.nameAt i := by
  rw [nodeAt, nameAt]
  cases g.nodes[i]? <;> rfl

theorem map_nodeAt_nodes (g : DependencyGraph) : g.digraph.nodes.map g.nodeAt = g.nodes := by
  refine List.ext_getElem ?_ ?_
  · simp [Digraph.nodes, digraph, Digraph.ofEdges]
  · intro i _ hi
    simp [Digraph.nodes, nodeAt, List.getElem?_eq_getElem hi]

theorem lt_length_of_mem_cycles (hids : g.HasDistinctIds) {c : List Nat}
    (hc : c ∈ g.digraph.cycles) (hi : i ∈ c) : i < g.nodes.length :=
  (Digraph.eq_component_of_mem (closed_digraph hids) hc hi).1

theorem mutual_iff (hids : g.HasDistinctIds) (ha : g.nodes[i]? = some a)
    (hb : g.nodes[j]? = some b) : g.digraph.Mutual i j ↔ g.Mutual a b :=
  and_congr (reaches_iff hids ha hb) (reaches_iff hids hb ha)

theorem Links.mem_edges (hids : g.HasDistinctIds) (ha : g.nodes[i]? = some a)
    (h : g.Links a a) : (i, i) ∈ g.digraph.edges :=
  (mem_digraph_edges_iff hids).mpr ⟨a, a, ha, ha, h⟩

theorem Mutual.mem_nodes (hba : b ≠ a) (h : g.Mutual a b) : b ∈ g.nodes := by
  rcases h.2.cases_head with rfl | ⟨c, hlink, -⟩
  · exact absurd rfl hba
  · exact hlink.1

theorem Mutual.onCycle (hids : g.HasDistinctIds) (ha : g.nodes[i]? = some a) (hba : b ≠ a)
    (h : g.Mutual a b) : g.digraph.OnCycle i := by
  obtain ⟨j, hj⟩ := List.getElem?_of_mem (h.mem_nodes hba)
  refine Or.inl ⟨j, ?_, (mutual_iff hids ha hj).mpr h⟩
  rintro rfl
  exact hba (Option.some.inj (hj.symm.trans ha))

/-- A component holds only the position of a node that depends on no other one in turn. -/
theorem component_eq_singleton_iff (hids : g.HasDistinctIds) (ha : g.nodes[i]? = some a) :
    g.digraph.component i = [i] ↔ ∀ b, b ≠ a → ¬ g.Mutual a b := by
  have hg := closed_digraph hids
  have hi : i < g.digraph.size := (List.getElem?_eq_some_iff.mp ha).1
  have hself : i ∈ g.digraph.component i :=
    (Digraph.mem_component hg hi).mpr ⟨hi, Digraph.Mutual.refl _ i⟩
  constructor
  · intro hsingle b hba hmutual
    obtain ⟨j, hj⟩ := List.getElem?_of_mem (hmutual.mem_nodes hba)
    have hmem : j ∈ g.digraph.component i :=
      (Digraph.mem_component hg hi).mpr ⟨(List.getElem?_eq_some_iff.mp hj).1,
        (mutual_iff hids ha hj).mpr hmutual⟩
    rw [hsingle, List.mem_singleton] at hmem
    subst hmem
    exact hba (Option.some.inj (hj.symm.trans ha))
  · intro hnone
    have hlength : ¬ 1 < (g.digraph.component i).length := by
      rw [Digraph.one_lt_length_component hg hi]
      rintro ⟨j, hji, hij⟩
      obtain ⟨b, hb⟩ : ∃ b, g.nodes[j]? = some b :=
        ⟨_, List.getElem?_eq_getElem (hij.1.lt_size hg hi)⟩
      refine hnone b ?_ ((mutual_iff hids ha hb).mp hij)
      rintro rfl
      exact hji (hids.position_eq hb ha rfl)
    obtain ⟨k, hk⟩ := List.length_eq_one_iff.mp
      (Nat.le_antisymm (Nat.not_lt.mp hlength) (List.length_pos_of_mem hself))
    rw [hk, List.mem_singleton] at hself
    rw [hk, hself]

/-- The nodes of each cycle. -/
def nodeCycles (g : DependencyGraph) : List (List GraphNode) :=
  g.digraph.cycles.map fun c => c.map g.nodeAt

section NodeCycles

variable {d : List Nat}

/-- **A node stands in the list of nodes** where its position stands in the list of positions. -/
theorem mem_map_nodeAt_iff (hids : g.HasDistinctIds) (hd : d ∈ g.digraph.cycles)
    (ha : g.nodes[i]? = some a) : a ∈ d.map g.nodeAt ↔ i ∈ d := by
  have hnode : ∀ {k}, k ∈ d → g.nodes[k]? = some (g.nodeAt k) :=
    fun hk => getElem?_eq_nodeAt (lt_length_of_mem_cycles hids hd hk)
  rw [List.mem_map]
  constructor
  · rintro ⟨k, hk, rfl⟩
    rwa [hids.position_eq ha (hnode hk) rfl]
  · intro hi
    exact ⟨i, hi, Option.some.inj ((hnode hi).symm.trans ha)⟩

/-- Nodes are listed together where their positions are. -/
theorem exists_mem_nodeCycles_iff (hids : g.HasDistinctIds) (ha : g.nodes[i]? = some a)
    (hb : g.nodes[j]? = some b) :
    (∃ c ∈ g.nodeCycles, a ∈ c ∧ b ∈ c) ↔ ∃ d ∈ g.digraph.cycles, i ∈ d ∧ j ∈ d := by
  constructor
  · rintro ⟨_, hc, hac, hbc⟩
    obtain ⟨d, hd, rfl⟩ := List.mem_map.mp hc
    exact ⟨d, hd, (mem_map_nodeAt_iff hids hd ha).mp hac, (mem_map_nodeAt_iff hids hd hb).mp hbc⟩
  · rintro ⟨d, hd, hid, hjd⟩
    exact ⟨_, List.mem_map_of_mem hd, (mem_map_nodeAt_iff hids hd ha).mpr hid,
      (mem_map_nodeAt_iff hids hd hb).mpr hjd⟩

/-- **Nodes on one cycle depend on each other.** -/
theorem together_nodeCycles (hids : g.HasDistinctIds) (ha : a ∈ g.nodes) (hb : b ∈ g.nodes) (hab : a ≠ b) :
    (∃ c ∈ g.nodeCycles, a ∈ c ∧ b ∈ c) ↔ g.Mutual a b := by
  obtain ⟨i, hi⟩ := List.getElem?_of_mem ha
  obtain ⟨j, hj⟩ := List.getElem?_of_mem hb
  have hsize : i < g.digraph.size := (List.getElem?_eq_some_iff.mp hi).1
  rw [exists_mem_nodeCycles_iff hids hi hj,
    Digraph.exists_mem_cycles_iff (closed_digraph hids) hsize, mutual_iff hids hi hj]
  exact ⟨And.right, fun h => ⟨h.onCycle hids hi (Ne.symm hab), h⟩⟩

/-- A cycle of one node is an edge of the node to itself, since no other one is in its component. -/
theorem links_of_singleton_mem (hids : g.HasDistinctIds) (ha : g.nodes[i]? = some a)
    (h : [i] ∈ g.digraph.cycles) : g.Links a a ∧ g.digraph.component i = [i] := by
  have hg := closed_digraph hids
  obtain ⟨hsize, hcycle, hcomponent⟩ := Digraph.eq_component_of_mem hg h (List.mem_singleton_self i)
  refine ⟨?_, hcomponent.symm⟩
  rcases hcycle with hother | hedge
  · rw [← Digraph.one_lt_length_component hg hsize, ← hcomponent] at hother
    exact absurd hother (by simp)
  · obtain ⟨b, c, hb, hc, hlink⟩ := (mem_digraph_edges_iff hids).mp hedge
    obtain rfl := Option.some.inj (hb.symm.trans ha)
    obtain rfl := Option.some.inj (hc.symm.trans ha)
    exact hlink

/-- **A cycle of one node** is a node that depends on itself directly, and on no other one in turn. -/
theorem singleton_mem_nodeCycles_iff (hids : g.HasDistinctIds) (ha : a ∈ g.nodes) :
    [a] ∈ g.nodeCycles ↔ g.Links a a ∧ ∀ b, b ≠ a → ¬ g.Mutual a b := by
  obtain ⟨i, hi⟩ := List.getElem?_of_mem ha
  have hsize : i < g.digraph.size := (List.getElem?_eq_some_iff.mp hi).1
  rw [← component_eq_singleton_iff hids hi, nodeCycles, List.mem_map]
  constructor
  · rintro ⟨d, hd, hsingle⟩
    obtain ⟨k, rfl, -⟩ := List.map_eq_singleton_iff.mp hsingle
    have hik : i = k := by
      rw [← List.mem_singleton, ← mem_map_nodeAt_iff hids hd hi, hsingle]
      exact List.mem_singleton_self a
    subst hik
    exact links_of_singleton_mem hids hi hd
  · rintro ⟨hlink, hcomponent⟩
    refine ⟨[i], ?_, ?_⟩
    · rw [← hcomponent]
      exact Digraph.component_mem_cycles (closed_digraph hids) hsize (Or.inr (hlink.mem_edges hids hi))
    · rw [List.map_singleton, ← Option.some.inj (hi.symm.trans (getElem?_eq_nodeAt hsize))]

/-- No node stands on two cycles. -/
theorem pairwise_disjoint_nodeCycles (hids : g.HasDistinctIds) : g.nodeCycles.Pairwise List.Disjoint := by
  rw [nodeCycles, List.pairwise_map]
  refine (Digraph.pairwise_disjoint_cycles (closed_digraph hids)).imp_of_mem ?_
  intro c d hc hd hcd x hxc hxd
  obtain ⟨i, hi, rfl⟩ := List.mem_map.mp hxc
  have hnode := getElem?_eq_nodeAt (lt_length_of_mem_cycles hids hc hi)
  exact hcd hi ((mem_map_nodeAt_iff hids hd hnode).mp hxd)

/-- The first nodes of the cycles stand in the order of the nodes. -/
theorem heads_nodeCycles_sublist (hids : g.HasDistinctIds) :
    (g.nodeCycles.filterMap List.head?).Sublist g.nodes := by
  have hheads : g.nodeCycles.filterMap List.head? = (g.digraph.cycles.filterMap List.head?).map g.nodeAt := by
    rw [nodeCycles, List.filterMap_map, List.map_filterMap]
    refine List.filterMap_congr ?_
    intro c _
    exact List.head?_map
  rw [hheads, ← g.map_nodeAt_nodes]
  exact (Digraph.heads_cycles_sublist (closed_digraph hids)).map g.nodeAt

/-- **The cycles at positions list the components** of the nodes at them. -/
theorem listsCycles (hids : g.HasDistinctIds) : g.ListsCycles g.nodeCycles where
  together _ ha _ hb hab := together_nodeCycles hids ha hb hab
  alone _ ha := singleton_mem_nodeCycles_iff hids ha
  disjoint := pairwise_disjoint_nodeCycles hids
  notEmpty := by
    intro c hc hnil
    obtain ⟨d, hd, rfl⟩ := List.mem_map.mp hc
    obtain ⟨i, -, -, hhead, -⟩ := (Digraph.mem_cycles_iff (closed_digraph hids)).mp hd
    rw [List.map_eq_nil_iff.mp hnil] at hhead
    exact nomatch hhead
  membersInOrder := by
    intro c hc
    obtain ⟨d, hd, rfl⟩ := List.mem_map.mp hc
    obtain ⟨i, -, rfl, -⟩ := (Digraph.mem_cycles_iff (closed_digraph hids)).mp hd
    rw [← g.map_nodeAt_nodes]
    exact (g.digraph.component_sublist i).map g.nodeAt
  firstsInOrder := heads_nodeCycles_sublist hids

end NodeCycles

/-- The listed names are those of the nodes at the listed positions. -/
theorem cycles_eq_map_name (g : DependencyGraph) :
    g.cycles = g.nodeCycles.map fun c => c.map GraphNode.name := by
  rw [cycles, cyclesOf, nodeCycles, List.map_map]
  refine List.map_congr_left ?_
  intro c _
  show c.map g.nameAt = (c.map g.nodeAt).map GraphNode.name
  rw [List.map_map]
  refine List.map_congr_left ?_
  intro i _
  exact (g.name_nodeAt i).symm

/-- A graph without cycles has none between positions. -/
theorem cycles_eq_nil_iff (g : DependencyGraph) : g.cycles = [] ↔ g.digraph.cycles = [] :=
  List.map_eq_nil_iff

/-- **The listed cycles are the strongly connected components**: of nodes that depend on each other,
    and of single nodes with an edge to themselves. They are the same in whatever order the components of the
    graph on positions are given, and their members. -/
theorem cycles_eq_components (g : DependencyGraph) (hids : g.HasDistinctIds) :
    (∃ cs : List (List GraphNode),
      g.cycles = cs.map (fun c => c.map GraphNode.name) ∧ g.ListsCycles cs) ∧
    ∀ components : List (List Nat), g.digraph.ListsComponents components →
      g.cyclesOf components = g.cycles := by
  refine ⟨⟨g.nodeCycles, g.cycles_eq_map_name, listsCycles hids⟩, ?_⟩
  intro components h
  rw [cycles, cyclesOf, Digraph.cyclesOf_eq_cycles (closed_digraph hids) h]
  rfl

/-- A cycle of two with an edge to itself on it, a repeated edge, a node with an edge to itself, and
    edges to an unknown id. Two nodes have one name. -/
def knottedGraph : DependencyGraph :=
  let node (id name : String) : GraphNode := ⟨id, name, .program⟩
  let edge (source target : String) : GraphEdge := ⟨source, target, .dependsOn⟩
  { nodes := [node "d" "Drive", node "b" "Belt", node "a" "Axis", node "e" "Drive"]
    edges := [edge "a" "b", edge "b" "a", edge "a" "a", edge "a" "b", edge "b" "x", edge "x" "d",
      edge "e" "e", edge "d" "e"] }

/-- The cycles of such a graph, also from its components in another order. -/
theorem cycles_eq_components_knottedGraph : knottedGraph.HasDistinctIds ∧
    knottedGraph.cycles = [["Belt", "Axis"], ["Drive"]] ∧
    (∃ cs : List (List GraphNode),
      knottedGraph.cycles = cs.map (fun c => c.map GraphNode.name) ∧ knottedGraph.ListsCycles cs) ∧
    knottedGraph.digraph.ListsComponents [[3], [0], [2, 1]] ∧
    knottedGraph.cyclesOf [[3], [0], [2, 1]] = knottedGraph.cycles := by
  have hids : knottedGraph.HasDistinctIds := by
    rw [HasDistinctIds]
    decide
  have hcomponents : knottedGraph.digraph.component 0 = [0] ∧ knottedGraph.digraph.component 1 = [1, 2] ∧
      knottedGraph.digraph.component 2 = [1, 2] ∧ knottedGraph.digraph.component 3 = [3] := by
    cbv
  obtain ⟨hzero, hone, htwo, hthree⟩ := hcomponents
  have hlists : knottedGraph.digraph.ListsComponents [[3], [0], [2, 1]] := by
    refine .of_perm (closed_digraph hids) ?_ (by decide) ?_
    · show [3, 0, 2, 1].Perm (List.range 4)
      decide
    · simp only [List.forall_mem_cons, List.not_mem_nil, false_implies, implies_true, and_true]
      rw [hzero, hone, htwo, hthree]
      decide
  obtain ⟨hcycles, hall⟩ := cycles_eq_components knottedGraph hids
  exact ⟨hids, by cbv, hcycles, hlists, hall _ hlists⟩

end StLint.DependencyGraph

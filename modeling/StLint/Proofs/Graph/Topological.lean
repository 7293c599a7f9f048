import StLint.Proofs.Graph.Cycle
import StLint.Proofs.Graph.Queue

/-!
# Dependencies first

The nodes of a dependency graph are listed by their positions: the freed ones from the last to the first,
and behind them those that are held back. **What a cycle needs is held back with it**, in node order, so
what a node depends on stands before it unless it is needed by a cycle.

* `orderedNodes`, `freedNodes`, `heldNodes` — the nodes whose names are listed, in two parts.
* `orderedNodes_topological` — every node is listed once, and without cycles dependencies come first.
* `IsHeld`, `mem_heldNodes_iff` — a node of a cycle depends on a node.
* `heldNodes_exact` — which nodes are held back, and which edges the order respects.
-/

namespace StLint.DependencyGraph

variable {g : DependencyGraph} {a b n : GraphNode} {i j : Nat}

/-! ## The listed nodes -/

/-- The nodes that become free of dependents that wait, in this order. -/
def freedNodes (g : DependencyGraph) : List GraphNode := g.digraph.popOrder.map g.nodeAt

/-- The nodes that never become free, in node order. -/
def heldNodes (g : DependencyGraph) : List GraphNode := g.digraph.rest.map g.nodeAt

/-- The nodes in the order in which they are listed. -/
def orderedNodes (g : DependencyGraph) : List GraphNode := g.digraph.order.map g.nodeAt

theorem orderedNodes_eq (g : DependencyGraph) : g.orderedNodes = g.freedNodes.reverse ++ g.heldNodes := by
  rw [orderedNodes, Digraph.order_eq, List.map_append, List.map_reverse, freedNodes, heldNodes]

theorem topologicalOrder_eq (g : DependencyGraph) :
    g.topologicalOrder = g.orderedNodes.map GraphNode.name := by
  rw [topologicalOrder, orderedNodes, List.map_map]
  exact List.map_congr_left fun i _ => (g.name_nodeAt i).symm

theorem nodup_edges_digraph (g : DependencyGraph) : g.digraph.edges.Nodup := nodup_firstBy id _

theorem nodeAt_eq (h : g.nodes[i]? = some a) : g.nodeAt i = a := by
  rw [nodeAt, h, Option.getD_some]

/-- An edge between nodes is one between their positions. -/
theorem Links.exists_edge (hids : g.HasDistinctIds) (h : g.Links a b) :
    ∃ i j, (i, j) ∈ g.digraph.edges ∧ g.nodes[i]? = some a ∧ g.nodes[j]? = some b := by
  obtain ⟨i, hi⟩ := List.getElem?_of_mem h.1
  obtain ⟨j, hj⟩ := List.getElem?_of_mem h.2.1
  exact ⟨i, j, (mem_digraph_edges_iff hids).mpr ⟨a, b, hi, hj, h⟩, hi, hj⟩

/-- **Every node is listed once.** -/
theorem orderedNodes_perm (hids : g.HasDistinctIds) : g.orderedNodes.Perm g.nodes := by
  have hperm := (Digraph.order_perm (closed_digraph hids) g.nodup_edges_digraph).map g.nodeAt
  rwa [map_nodeAt_nodes] at hperm

theorem nodup_orderedNodes (hids : g.HasDistinctIds) : g.orderedNodes.Nodup :=
  (orderedNodes_perm hids).nodup_iff.mpr (List.Nodup.of_map _ hids)

/-- What a freed node depends on need not be free, but what depends on it is, and is listed behind it. -/
theorem precedes_of_mem_popOrder (hids : g.HasDistinctIds) (he : (i, j) ∈ g.digraph.edges)
    (hj : j ∈ g.digraph.popOrder) : Precedes g.orderedNodes (g.nodeAt j) (g.nodeAt i) := by
  refine Precedes.map g.nodeAt ?_
  rw [Digraph.order_eq]
  exact (Digraph.precedes_popOrder (closed_digraph hids) g.nodup_edges_digraph he hj).mono
    (List.sublist_append_left ..)

/-- Without cycles every node becomes free. -/
theorem mem_popOrder_of_cycles_eq_nil (hids : g.HasDistinctIds) (hcycles : g.cycles = [])
    (hi : i < g.digraph.size) : i ∈ g.digraph.popOrder := by
  have hg := closed_digraph hids
  by_contra hnot
  obtain ⟨k, hk, hcycle, -⟩ := (Digraph.not_mem_popOrder_iff hg g.nodup_edges_digraph hi).mp hnot
  have hmem := Digraph.component_mem_cycles hg hk hcycle
  rw [g.cycles_eq_nil_iff.mp hcycles] at hmem
  exact absurd hmem List.not_mem_nil

/-- **Every node is listed once, and without cycles behind all that it depends on**; and while the nodes are
    freed no counter is lowered that stands at zero, whatever edges are repeated or lead nowhere. -/
theorem orderedNodes_topological (g : DependencyGraph) (hids : g.HasDistinctIds) :
    g.topologicalOrder = g.orderedNodes.map GraphNode.name ∧
    g.orderedNodes.Perm g.nodes ∧
    (∀ j counters, g.digraph.Lowers (g.digraph.nodes.map g.digraph.inDegree)
        (g.digraph.nodes.filter fun i => g.digraph.inDegree i = 0) j counters →
      ∃ d, counters[j]? = some d ∧ 0 < d) ∧
    (g.cycles = [] → ∀ a b, g.Links a b → Precedes g.orderedNodes b a) := by
  have hg := closed_digraph hids
  refine ⟨topologicalOrder_eq g, orderedNodes_perm hids, ?_, ?_⟩
  · intro j counters hlowers
    exact Digraph.Queued.pos_of_lowers hg g.nodup_edges_digraph hlowers (.start g.digraph)
  · intro hcycles a b hlink
    obtain ⟨i, j, he, hi, hj⟩ := hlink.exists_edge hids
    have hfree := mem_popOrder_of_cycles_eq_nil hids hcycles (hg _ he).2
    rw [← nodeAt_eq hi, ← nodeAt_eq hj]
    exact precedes_of_mem_popOrder hids he hfree

/-- A unit that needs two others, one of them twice, an edge between these, and edges from and to ids that
    no node has. -/
def plantGraph : DependencyGraph :=
  let node (name : String) : GraphNode := ⟨name, name, .program⟩
  let edge (source target : String) : GraphEdge := ⟨source, target, .dependsOn⟩
  { nodes := [node "Main", node "Scale", node "Pump"]
    edges := [edge "Main" "Scale", edge "Main" "Pump", edge "Main" "Scale", edge "Pump" "Scale",
      edge "Pump" "Valve", edge "Valve" "Main"] }

/-- Such a graph, listed from what needs nothing. -/
theorem orderedNodes_topological_plantGraph :
    plantGraph.HasDistinctIds ∧ plantGraph.cycles = [] ∧
    plantGraph.topologicalOrder = ["Scale", "Pump", "Main"] ∧
    plantGraph.orderedNodes.Perm plantGraph.nodes ∧
    ∀ a b, plantGraph.Links a b → Precedes plantGraph.orderedNodes b a := by
  have hids : plantGraph.HasDistinctIds := by
    rw [HasDistinctIds]
    decide
  have hcycles : plantGraph.cycles = [] := by cbv
  obtain ⟨-, hperm, -, hfirst⟩ := orderedNodes_topological plantGraph hids
  exact ⟨hids, hcycles, by cbv, hperm, hfirst hcycles⟩

/-! ## The nodes that are held back -/

/-- The names of the nodes are pairwise different. -/
def HasDistinctNames (g : DependencyGraph) : Prop := (g.nodes.map GraphNode.name).Nodup

/-- A node is named in a cycle. -/
def InCycle (g : DependencyGraph) (n : GraphNode) : Prop := ∃ c ∈ g.cycles, n.name ∈ c

/-- A node of a cycle depends on a node. -/
def IsHeld (g : DependencyGraph) (n : GraphNode) : Prop :=
  ∃ m ∈ g.nodes, g.InCycle m ∧ g.DependsOn m n

theorem InCycle.isHeld (hn : n ∈ g.nodes) (h : g.InCycle n) : g.IsHeld n := ⟨n, hn, h, .refl⟩

theorem IsHeld.of_links (h : g.IsHeld a) (hlink : g.Links a b) : g.IsHeld b := by
  obtain ⟨m, hm, hcycle, hpath⟩ := h
  exact ⟨m, hm, hcycle, hpath.tail hlink⟩

section Held

variable (hids : g.HasDistinctIds) (hnames : g.HasDistinctNames)

include hnames in
/-- Different positions hold nodes with different names. -/
theorem HasDistinctNames.position_eq (hi : g.nodes[i]? = some a) (hj : j < g.nodes.length)
    (h : g.nameAt j = a.name) : i = j := by
  have hlt : j < (g.nodes.map GraphNode.name).length := by rwa [List.length_map]
  refine ((List.getElem?_inj hlt hnames).mp ?_).symm
  rw [List.getElem?_map, List.getElem?_map, hi, getElem?_eq_nodeAt hj, Option.map_some, Option.map_some,
    name_nodeAt, h]

include hids hnames in
theorem inCycle_iff (hi : g.nodes[i]? = some a) : g.InCycle a ↔ g.digraph.OnCycle i := by
  have hg := closed_digraph hids
  have hsize : i < g.digraph.size := (List.getElem?_eq_some_iff.mp hi).1
  have hlisted : g.InCycle a ↔ ∃ c ∈ g.digraph.cycles, i ∈ c ∧ i ∈ c := by
    constructor
    · rintro ⟨_, hnamed, hmem⟩
      obtain ⟨c, hc, rfl⟩ := List.mem_map.mp hnamed
      obtain ⟨k, hk, hname⟩ := List.mem_map.mp hmem
      obtain rfl := hnames.position_eq hi (lt_length_of_mem_cycles hids hc hk) hname
      exact ⟨c, hc, hk, hk⟩
    · rintro ⟨c, hc, hic, -⟩
      refine ⟨_, List.mem_map_of_mem hc, List.mem_map.mpr ⟨i, hic, ?_⟩⟩
      rw [← name_nodeAt, nodeAt_eq hi]
  rw [hlisted, Digraph.exists_mem_cycles_iff hg hsize]
  exact and_iff_left (Digraph.Mutual.refl _ i)

include hids hnames in
/-- **A node is held back** if and only if it never becomes free. -/
theorem isHeld_iff (hi : g.nodes[i]? = some a) : g.IsHeld a ↔ i ∉ g.digraph.popOrder := by
  have hsize : i < g.digraph.size := (List.getElem?_eq_some_iff.mp hi).1
  rw [Digraph.not_mem_popOrder_iff (closed_digraph hids) g.nodup_edges_digraph hsize]
  constructor
  · rintro ⟨m, hm, hcycle, hpath⟩
    obtain ⟨k, hk⟩ := List.getElem?_of_mem hm
    exact ⟨k, (List.getElem?_eq_some_iff.mp hk).1, (inCycle_iff hids hnames hk).mp hcycle,
      (reaches_iff hids hk hi).mpr hpath⟩
  · rintro ⟨k, hk, hcycle, hreaches⟩
    have hnode := getElem?_eq_nodeAt (g := g) hk
    exact ⟨g.nodeAt k, List.mem_of_getElem? hnode, (inCycle_iff hids hnames hnode).mpr hcycle,
      (reaches_iff hids hnode hi).mp hreaches⟩

theorem heldNodes_sublist (g : DependencyGraph) : g.heldNodes.Sublist g.nodes := by
  rw [← g.map_nodeAt_nodes]
  exact List.filter_sublist.map g.nodeAt

include hids hnames in
/-- **Listed last are the nodes that are held back.** -/
theorem mem_heldNodes_iff : n ∈ g.heldNodes ↔ n ∈ g.nodes ∧ g.IsHeld n := by
  rw [heldNodes, List.mem_map]
  constructor
  · rintro ⟨i, hi, rfl⟩
    obtain ⟨hsize, hnot⟩ := Digraph.mem_rest_iff.mp hi
    have hnode := getElem?_eq_nodeAt (g := g) hsize
    exact ⟨List.mem_of_getElem? hnode, (isHeld_iff hids hnames hnode).mpr hnot⟩
  · rintro ⟨hn, hheld⟩
    obtain ⟨i, hi⟩ := List.getElem?_of_mem hn
    exact ⟨i, Digraph.mem_rest_iff.mpr ⟨(List.getElem?_eq_some_iff.mp hi).1,
      (isHeld_iff hids hnames hi).mp hheld⟩, nodeAt_eq hi⟩

include hids hnames in
theorem mem_freedNodes_of_not_isHeld (hn : n ∈ g.nodes) (h : ¬ g.IsHeld n) : n ∈ g.freedNodes := by
  obtain ⟨i, hi⟩ := List.getElem?_of_mem hn
  rw [isHeld_iff hids hnames hi, not_not] at h
  exact List.mem_map.mpr ⟨i, h, nodeAt_eq hi⟩

include hids hnames in
/-- The order respects the edges to nodes that are not held back. -/
theorem precedes_of_not_isHeld (hlink : g.Links a b) (h : ¬ g.IsHeld b) : Precedes g.orderedNodes b a := by
  obtain ⟨i, j, he, hi, hj⟩ := hlink.exists_edge hids
  rw [isHeld_iff hids hnames hj, not_not] at h
  rw [← nodeAt_eq hi, ← nodeAt_eq hj]
  exact precedes_of_mem_popOrder hids he h

include hids hnames in
/-- A node that is held back stands behind one that is not. -/
theorem precedes_of_isHeld (ha : a ∈ g.nodes) (hb : b ∈ g.nodes) (hfree : ¬ g.IsHeld a)
    (hheld : g.IsHeld b) : Precedes g.orderedNodes a b := by
  rw [orderedNodes_eq]
  exact Precedes.append (List.mem_reverse.mpr (mem_freedNodes_of_not_isHeld hids hnames ha hfree))
    ((mem_heldNodes_iff hids hnames).mpr ⟨hb, hheld⟩)

include hids in
/-- Two nodes that are held back keep the order of the nodes. -/
theorem precedes_of_mem_heldNodes (ha : a ∈ g.heldNodes) (hb : b ∈ g.heldNodes)
    (h : Precedes g.nodes a b) : Precedes g.orderedNodes a b := by
  have hkept := h.of_sublist (List.Nodup.of_map _ hids) g.heldNodes_sublist ha hb
  rw [orderedNodes_eq]
  exact hkept.mono (List.sublist_append_right ..)

include hids hnames in
/-- **Which edges the order respects**: those to a node that is not held back, and between two that are
    those along the order of the nodes. -/
theorem precedes_orderedNodes_iff (hlink : g.Links a b) :
    Precedes g.orderedNodes b a ↔ ¬ g.IsHeld b ∨ (g.IsHeld a ∧ Precedes g.nodes b a) := by
  have hnodup := nodup_orderedNodes hids
  constructor
  · intro h
    by_cases hb : g.IsHeld b
    · have hheld : g.IsHeld a := by
        by_contra ha
        exact h.asymm hnodup (precedes_of_isHeld hids hnames hlink.1 hlink.2.1 ha hb)
      refine Or.inr ⟨hheld, (Precedes.total hlink.2.1 hlink.1 (h.ne hnodup)).resolve_right ?_⟩
      intro hback
      refine h.asymm hnodup (precedes_of_mem_heldNodes hids ?_ ?_ hback)
      · exact (mem_heldNodes_iff hids hnames).mpr ⟨hlink.1, hheld⟩
      · exact (mem_heldNodes_iff hids hnames).mpr ⟨hlink.2.1, hb⟩
    · exact Or.inl hb
  · rintro (hb | ⟨ha, h⟩)
    · exact precedes_of_not_isHeld hids hnames hlink hb
    · refine precedes_of_mem_heldNodes hids ?_ ?_ h
      · exact (mem_heldNodes_iff hids hnames).mpr ⟨hlink.2.1, ha.of_links hlink⟩
      · exact (mem_heldNodes_iff hids hnames).mpr ⟨hlink.1, ha⟩

include hids hnames in
/-- Only nodes of cycles are held back where no cycle depends on another node. -/
theorem heldNodes_eq_cycles_iff : (∀ n ∈ g.nodes, n ∈ g.heldNodes ↔ g.InCycle n) ↔
    ∀ a b, g.InCycle a → g.Links a b → g.InCycle b := by
  constructor
  · intro h a b ha hlink
    refine (h b hlink.2.1).mp ((mem_heldNodes_iff hids hnames).mpr ⟨hlink.2.1, ?_⟩)
    exact (ha.isHeld hlink.1).of_links hlink
  · intro h n hn
    rw [mem_heldNodes_iff hids hnames, and_iff_right hn]
    constructor
    · rintro ⟨m, -, hcycle, hpath⟩
      induction hpath with
      | refl => exact hcycle
      | tail _ hlink ih => exact h _ _ (ih hlink.1) hlink
    · exact InCycle.isHeld hn

end Held

/-- **Held back is what a cycle needs.** The names listed last are those of the nodes that a node of a cycle
    depends on, in node order; these are the nodes of the cycles only where no cycle depends on another
    node. And of two nodes with an edge the needed one stands first exactly if no cycle depends on it, or
    if cycles depend on both and it stands first among the nodes. -/
theorem heldNodes_exact (g : DependencyGraph) (hids : g.HasDistinctIds) (hnames : g.HasDistinctNames) :
    g.topologicalOrder = (g.freedNodes.reverse ++ g.heldNodes).map GraphNode.name ∧
    g.heldNodes.Sublist g.nodes ∧ (∀ n, n ∈ g.heldNodes ↔ n ∈ g.nodes ∧ g.IsHeld n) ∧
    ((∀ n ∈ g.nodes, n ∈ g.heldNodes ↔ g.InCycle n) ↔
      ∀ a b, g.InCycle a → g.Links a b → g.InCycle b) ∧
    ∀ a b, g.Links a b →
      (Precedes g.orderedNodes b a ↔ ¬ g.IsHeld b ∨ (g.IsHeld a ∧ Precedes g.nodes b a)) := by
  refine ⟨?_, g.heldNodes_sublist, fun _ => mem_heldNodes_iff hids hnames,
    heldNodes_eq_cycles_iff hids hnames, fun _ _ => precedes_orderedNodes_iff hids hnames⟩
  rw [topologicalOrder_eq, orderedNodes_eq]

/-- A unit that calls itself, and another one that needs the same function as the first. -/
def sharedGraph : DependencyGraph :=
  let node (name : String) : GraphNode := ⟨name, name, .program⟩
  let edge (source target : String) : GraphEdge := ⟨source, target, .dependsOn⟩
  { nodes := [node "Main", node "Scale", node "Loop"]
    edges := [edge "Main" "Scale", edge "Loop" "Loop", edge "Loop" "Scale"] }

theorem hasDistinctIds_sharedGraph : sharedGraph.HasDistinctIds := by
  rw [HasDistinctIds]
  decide

theorem hasDistinctNames_sharedGraph : sharedGraph.HasDistinctNames := by
  rw [HasDistinctNames]
  decide

/-- In this graph the function is held back with the unit that calls itself. -/
theorem heldNodes_exact_sharedGraph :
    sharedGraph.HasDistinctIds ∧ sharedGraph.HasDistinctNames ∧
    sharedGraph.heldNodes.map GraphNode.name = ["Scale", "Loop"] ∧
    (∀ n, n ∈ sharedGraph.heldNodes ↔ n ∈ sharedGraph.nodes ∧ sharedGraph.IsHeld n) ∧
    ∀ a b, sharedGraph.Links a b →
      (Precedes sharedGraph.orderedNodes b a ↔
        ¬ sharedGraph.IsHeld b ∨ (sharedGraph.IsHeld a ∧ Precedes sharedGraph.nodes b a)) := by
  obtain ⟨-, -, hheld, -, hedges⟩ :=
    heldNodes_exact sharedGraph hasDistinctIds_sharedGraph hasDistinctNames_sharedGraph
  exact ⟨hasDistinctIds_sharedGraph, hasDistinctNames_sharedGraph, by cbv, hheld, hedges⟩

/-- **A dependent may stand before its dependency** though neither of them lies on a cycle, since a cycle
    holds the dependency back. -/
theorem exists_dependent_first : sharedGraph.HasDistinctIds ∧ sharedGraph.HasDistinctNames ∧
    sharedGraph.cycles = [["Loop"]] ∧ sharedGraph.topologicalOrder = ["Main", "Scale", "Loop"] ∧
    ∃ a b, sharedGraph.Links a b ∧ ¬ sharedGraph.InCycle a ∧ ¬ sharedGraph.InCycle b ∧
      b ∈ sharedGraph.heldNodes ∧ ¬ Precedes sharedGraph.orderedNodes b a := by
  have hcycles : sharedGraph.cycles = [["Loop"]] := by cbv
  have hordered : sharedGraph.orderedNodes = sharedGraph.nodes := by cbv
  have hheld : sharedGraph.heldNodes = sharedGraph.nodes.drop 1 := by cbv
  refine ⟨hasDistinctIds_sharedGraph, hasDistinctNames_sharedGraph, hcycles, by cbv,
    ⟨"Main", "Main", .program⟩, ⟨"Scale", "Scale", .program⟩, ?_, ?_, ?_, ?_, ?_⟩
  · exact ⟨by decide, by decide, ⟨"Main", "Scale", .dependsOn⟩, by decide, rfl, rfl⟩
  · rw [InCycle, hcycles]
    decide
  · rw [InCycle, hcycles]
    decide
  · rw [hheld]
    decide
  · rw [Precedes, hordered]
    decide

end StLint.DependencyGraph

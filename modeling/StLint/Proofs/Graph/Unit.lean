import StLint.Proofs.Check.Owner
import StLint.Proofs.Collection.Distinct
import StLint.Proofs.Graph.Cycle

/-!
# The graph of the units of a project

A name is looked up among the units, made into an id, and compared once more where dependencies are
checked. **All three agree up to case**, whatever the units are called and whatever they depend on: also
where several units have one name, or a name outside the project is spelled in several ways.

* `SameName`, `unitId_eq_iff` — names up to case, and their ids.
* `unitNamed?_eq_none_iff` — the names that no unit has.
* `DependencyGraph.IsUnitGraph` — what the graph of some units has to be.
* `DependencyGraph.isUnitGraph_ofUnits` — it is, and the nodes outside the project are the dependencies
  that are reported.
-/

namespace StLint

open Text

/-! ## Names -/

/-- Two names are one up to the case of their ASCII letters. -/
def SameName (a b : String) : Prop := eqIgnoreCase a.toList b.toList = true

section SameName

variable {a b c : String}

theorem sameName_iff : SameName a b ↔ lower a.toList = lower b.toList := beq_iff_eq

theorem SameName.refl (a : String) : SameName a a := sameName_iff.mpr rfl

theorem SameName.symm (h : SameName a b) : SameName b a := sameName_iff.mpr (sameName_iff.mp h).symm

theorem SameName.trans (hab : SameName a b) (hbc : SameName b c) : SameName a c :=
  sameName_iff.mpr ((sameName_iff.mp hab).trans (sameName_iff.mp hbc))

/-- **An id tells names apart up to case.** -/
theorem unitId_eq_iff : unitId a = unitId b ↔ SameName a b := by
  rw [unitId, unitId, sameName_iff, String.append_right_inj, String.ofList_inj]

end SameName

section Lookup

variable {units : List Pou} {name : String}

theorem unitNamed?_eq_none_iff : unitNamed? units name = none ↔ ∀ u ∈ units, ¬ SameName u.name name :=
  List.find?_eq_none

/-- What is looked up has the name. -/
theorem sameName_of_unitNamed? {u : Pou} (h : unitNamed? units name = some u) : SameName u.name name := by
  have hname := List.find?_some h
  exact hname

theorem mem_of_unitNamed? {u : Pou} (h : unitNamed? units name = some u) : u ∈ units :=
  List.mem_of_find?_eq_some h

theorem mem_dependencyPairs {u : Pou} {d : String} :
    (u, d) ∈ dependencyPairs units ↔ u ∈ units ∧ d ∈ u.dependencies := by
  rw [dependencyPairs, List.mem_flatMap]
  constructor
  · rintro ⟨v, hv, hpair⟩
    obtain ⟨d', hd, heq⟩ := List.mem_map.mp hpair
    obtain ⟨rfl, rfl⟩ := Prod.mk.inj heq
    exact ⟨hv, hd⟩
  · rintro ⟨hu, hd⟩
    exact ⟨u, hu, List.mem_map_of_mem hd⟩

end Lookup

namespace DependencyGraph

/-! ## Nodes -/

variable (units : List Pou)

/-- The nodes of the units. -/
def insideNodes : List GraphNode := firstBy GraphNode.id (units.map unitNode)

/-- The nodes of the names that no unit has. -/
def outsideNodes : List GraphNode :=
  firstBy GraphNode.id
    (((dependencyPairs units).filter fun p => (unitNamed? units p.2).isNone).map fun p =>
      externalNode p.2)

theorem nodes_ofUnits : (ofUnits units).nodes = insideNodes units ++ outsideNodes units := rfl

variable {units} {n : GraphNode}

theorem exists_of_mem_insideNodes (h : n ∈ insideNodes units) : ∃ u ∈ units, n = unitNode u := by
  obtain ⟨u, hu, rfl⟩ := List.mem_map.mp ((firstBy_sublist GraphNode.id _).subset h)
  exact ⟨u, hu, rfl⟩

theorem exists_of_mem_outsideNodes (h : n ∈ outsideNodes units) :
    ∃ u ∈ units, ∃ d ∈ u.dependencies, unitNamed? units d = none ∧ n = externalNode d := by
  obtain ⟨⟨u, d⟩, hpair, rfl⟩ := List.mem_map.mp ((firstBy_sublist GraphNode.id _).subset h)
  obtain ⟨hmem, hnone⟩ := List.mem_filter.mp hpair
  obtain ⟨hu, hd⟩ := mem_dependencyPairs.mp hmem
  exact ⟨u, hu, d, hd, Option.isNone_iff_eq_none.mp hnone, rfl⟩

theorem kind_unitNode_ne (u : Pou) : (unitNode u).kind ≠ .external := by
  rw [unitNode]
  cases u.kind <;> exact nofun

/-- **A node is inside the project or outside**, as its kind says. -/
theorem mem_insideNodes_iff (h : n ∈ (ofUnits units).nodes) :
    n ∈ insideNodes units ↔ n.kind ≠ .external := by
  constructor
  · intro hin
    obtain ⟨u, -, rfl⟩ := exists_of_mem_insideNodes hin
    exact kind_unitNode_ne u
  · intro hkind
    refine (List.mem_append.mp h).resolve_right ?_
    intro hout
    obtain ⟨u, -, d, -, -, rfl⟩ := exists_of_mem_outsideNodes hout
    exact hkind rfl

theorem mem_outsideNodes_iff (h : n ∈ (ofUnits units).nodes) :
    n ∈ outsideNodes units ↔ n.kind = .external := by
  constructor
  · intro hout
    obtain ⟨u, -, d, -, -, rfl⟩ := exists_of_mem_outsideNodes hout
    rfl
  · intro hkind
    refine (List.mem_append.mp h).resolve_left ?_
    intro hin
    exact (mem_insideNodes_iff h).mp hin hkind

theorem id_eq_unitId (h : n ∈ (ofUnits units).nodes) : n.id = unitId n.name := by
  rcases List.mem_append.mp h with hin | hout
  · obtain ⟨u, -, rfl⟩ := exists_of_mem_insideNodes hin
    rfl
  · obtain ⟨u, -, d, -, -, rfl⟩ := exists_of_mem_outsideNodes hout
    rfl

/-- Each unit has a node, that of the first unit with its name. -/
theorem exists_insideNode {u : Pou} (h : u ∈ units) : ∃ n ∈ insideNodes units, n.id = unitId u.name :=
  exists_mem_firstBy GraphNode.id (List.mem_map_of_mem h)

/-- Each dependency that no unit has the name of has a node. -/
theorem exists_outsideNode {u : Pou} {d : String} (hu : u ∈ units) (hd : d ∈ u.dependencies)
    (hnone : unitNamed? units d = none) : ∃ n ∈ outsideNodes units, n.id = unitId d := by
  have hpair : (u, d) ∈ (dependencyPairs units).filter fun p => (unitNamed? units p.2).isNone := by
    refine List.mem_filter.mpr ⟨mem_dependencyPairs.mpr ⟨hu, hd⟩, ?_⟩
    exact Option.isNone_iff_eq_none.mpr hnone
  have hnode : externalNode d ∈ ((dependencyPairs units).filter fun p =>
      (unitNamed? units p.2).isNone).map fun p => externalNode p.2 :=
    List.mem_map.mpr ⟨(u, d), hpair, rfl⟩
  exact exists_mem_firstBy GraphNode.id hnode

/-- **No node outside the project has the name of a unit.** -/
theorem not_sameName_of_mem_outsideNodes (h : n ∈ outsideNodes units) {u : Pou} (hu : u ∈ units) :
    ¬ SameName u.name n.name := by
  obtain ⟨v, -, d, -, hnone, rfl⟩ := exists_of_mem_outsideNodes h
  exact unitNamed?_eq_none_iff.mp hnone u hu

/-- **No id is that of two nodes.** -/
theorem hasDistinctIds_ofUnits (units : List Pou) : (ofUnits units).HasDistinctIds := by
  rw [HasDistinctIds, nodes_ofUnits, List.map_append, List.nodup_append]
  refine ⟨List.pairwise_map.mpr (pairwise_firstBy GraphNode.id _),
    List.pairwise_map.mpr (pairwise_firstBy GraphNode.id _), ?_⟩
  intro i hi j hj hij
  obtain ⟨n, hn, rfl⟩ := List.mem_map.mp hi
  obtain ⟨m, hm, rfl⟩ := List.mem_map.mp hj
  obtain ⟨u, hu, rfl⟩ := exists_of_mem_insideNodes hn
  refine not_sameName_of_mem_outsideNodes hm hu (unitId_eq_iff.mp ?_)
  rw [← id_eq_unitId (List.mem_append_right _ hm)]
  exact hij

theorem HasDistinctIds.eq_of_id_eq {g : DependencyGraph} (hids : g.HasDistinctIds) {a b : GraphNode}
    (ha : a ∈ g.nodes) (hb : b ∈ g.nodes) (h : a.id = b.id) : a = b :=
  List.inj_on_of_nodup_map hids ha hb h

/-! ## Edges -/

theorem exists_of_mem_edges {e : GraphEdge} (h : e ∈ (ofUnits units).edges) :
    ∃ u ∈ units, ∃ d ∈ u.dependencies, e = ⟨unitId u.name, unitId d, edgeKind units u d⟩ := by
  obtain ⟨⟨u, d⟩, hpair, rfl⟩ := List.mem_map.mp h
  obtain ⟨hu, hd⟩ := mem_dependencyPairs.mp hpair
  exact ⟨u, hu, d, hd, rfl⟩

theorem mem_edges_ofUnits {u : Pou} {d : String} (hu : u ∈ units) (hd : d ∈ u.dependencies) :
    ⟨unitId u.name, unitId d, edgeKind units u d⟩ ∈ (ofUnits units).edges :=
  List.mem_map.mpr ⟨(u, d), mem_dependencyPairs.mpr ⟨hu, hd⟩, rfl⟩

/-- A dependency is the name of a node. -/
theorem exists_node_of_dependency {u : Pou} {d : String} (hu : u ∈ units) (hd : d ∈ u.dependencies) :
    ∃ n ∈ (ofUnits units).nodes, n.id = unitId d := by
  cases hfind : unitNamed? units d with
  | none =>
      obtain ⟨n, hn, hid⟩ := exists_outsideNode hu hd hfind
      exact ⟨n, List.mem_append_right _ hn, hid⟩
  | some v =>
      obtain ⟨n, hn, hid⟩ := exists_insideNode (mem_of_unitNamed? hfind)
      exact ⟨n, List.mem_append_left _ hn, hid.trans (unitId_eq_iff.mpr (sameName_of_unitNamed? hfind))⟩

/-! ## The whole graph -/

/-- A graph is that of some units. -/
structure IsUnitGraph (units : List Pou) (g : DependencyGraph) : Prop where
  distinctIds : g.HasDistinctIds
  ids : ∀ n ∈ g.nodes, n.id = unitId n.name
  /-- Each name of a unit has exactly one node inside the project. -/
  inside : ∀ u ∈ units, ∃! n, n ∈ g.nodes ∧ n.kind ≠ .external ∧ SameName n.name u.name
  /-- Each node inside the project has the name of a unit. -/
  named : ∀ n ∈ g.nodes, n.kind ≠ .external → ∃ u ∈ units, SameName n.name u.name
  ends : ∀ e ∈ g.edges, (∃ n ∈ g.nodes, n.id = e.source) ∧ ∃ n ∈ g.nodes, n.id = e.target
  /-- The edges are the units with their dependencies, in this order. -/
  edges : List.Forall₂ (fun e p => e.source = unitId p.1.name ∧ e.target = unitId p.2) g.edges
    (dependencyPairs units)
  /-- What is outside the project depends on nothing. -/
  leaves : ∀ n ∈ g.nodes, n.kind = .external → ∀ e ∈ g.edges, e.source ≠ n.id

/-- **The graph of some units is well formed.** -/
theorem isUnitGraph (units : List Pou) : (ofUnits units).IsUnitGraph units where
  distinctIds := hasDistinctIds_ofUnits units
  ids := fun n => id_eq_unitId
  inside := by
    intro u hu
    obtain ⟨n, hin, hid⟩ := exists_insideNode hu
    have hn : n ∈ (ofUnits units).nodes := List.mem_append_left _ hin
    have hname : SameName n.name u.name := by
      rw [← unitId_eq_iff, ← id_eq_unitId hn, hid]
    refine ⟨n, ⟨hn, (mem_insideNodes_iff hn).mp hin, hname⟩, ?_⟩
    rintro m ⟨hm, -, hmname⟩
    refine (hasDistinctIds_ofUnits units).eq_of_id_eq hm hn ?_
    rw [id_eq_unitId hm, id_eq_unitId hn, unitId_eq_iff]
    exact hmname.trans hname.symm
  named := by
    intro n hn hkind
    obtain ⟨u, hu, rfl⟩ := exists_of_mem_insideNodes ((mem_insideNodes_iff hn).mpr hkind)
    exact ⟨u, hu, SameName.refl _⟩
  ends := by
    intro e he
    obtain ⟨u, hu, d, hd, rfl⟩ := exists_of_mem_edges he
    obtain ⟨n, hn, hid⟩ := exists_insideNode hu
    exact ⟨⟨n, List.mem_append_left _ hn, hid⟩, exists_node_of_dependency hu hd⟩
  edges := by
    rw [ofUnits, List.forall₂_map_left_iff]
    refine List.forall₂_same.mpr ?_
    intro p _
    exact ⟨rfl, rfl⟩
  leaves := by
    intro n hn hkind e he hsource
    obtain ⟨u, hu, d, -, rfl⟩ := exists_of_mem_edges he
    refine not_sameName_of_mem_outsideNodes ((mem_outsideNodes_iff hn).mpr hkind) hu
      (unitId_eq_iff.mp ?_)
    rw [← id_eq_unitId hn]
    exact hsource

/-- **The nodes outside the project are the dependencies that are reported.** Whatever the units are,
    their graph is well formed, and a name has a node outside the project if and only if a dependency
    with this name, in any case, is reported as one that is not part of the project. -/
theorem isUnitGraph_ofUnits (units : List Pou) (log : Option RuntimeLog) (t : Thresholds) :
    (ofUnits units).IsUnitGraph units ∧
    ∀ d, (∃ n ∈ (ofUnits units).nodes, n.kind = .external ∧ SameName n.name d) ↔
      ∃ u ∈ units, ∃ d', SameName d' d ∧ Check.orphan u d' ∈ Check.coupling (.of units log t) := by
  refine ⟨isUnitGraph units, ?_⟩
  intro d
  constructor
  · rintro ⟨n, hn, hkind, hname⟩
    obtain ⟨u, hu, d', hd', hnone, rfl⟩ := exists_of_mem_outsideNodes ((mem_outsideNodes_iff hn).mpr hkind)
    exact ⟨u, hu, d', hname, Check.orphan_mem_coupling_iff.mpr ⟨u, hu, rfl, hd', hnone⟩⟩
  · rintro ⟨u, -, d', hname, hreport⟩
    obtain ⟨v, hv, -, hd', hnone⟩ := Check.orphan_mem_coupling_iff.mp hreport
    obtain ⟨n, hout, hid⟩ := exists_outsideNode hv hd' hnone
    have hn : n ∈ (ofUnits units).nodes := List.mem_append_right _ hout
    rw [id_eq_unitId hn, unitId_eq_iff] at hid
    exact ⟨n, hn, (mem_outsideNodes_iff hn).mp hout, hid.trans hname⟩

end DependencyGraph

end StLint

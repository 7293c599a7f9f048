import Mathlib.Data.Multiset.ZeroCons
import StLint.Proofs.Graph.File

/-!
# Units in another order

Where no two units have one name, the order of the units decides in which order nodes and edges stand, and
how a name outside the project is spelled, but not **which units depend on each other in a circle**.

* `DependencyGraph.OnCircle` — two nodes are on one circle; a list of cycles is read off it.
* `DependencyGraph.ListsCycles.rel` — graphs with the same circles have the same cycles, but for the order.
* `DependencyGraph.cycles_perm` — the cycles of units in another order.
-/

namespace StLint

/-! ## Names -/

section Names

variable {units units' : List Pou}

theorem DistinctNames.perm (h : DistinctNames units) (hperm : units.Perm units') :
    DistinctNames units' :=
  (hperm.pairwise_iff fun huv hvu => huv hvu.symm).mp h

/-- **A name finds the same unit** in every order of the units. -/
theorem unitNamed?_perm (h : DistinctNames units) (hperm : units.Perm units') (name : String) :
    unitNamed? units name = unitNamed? units' name := by
  refine find?_eq_of_perm hperm ?_
  intro u hu v hv hun hvn
  exact h.eq_of_sameName hu hv (SameName.trans hun (SameName.symm hvn))

end Names

namespace DependencyGraph

variable {g g' : DependencyGraph} {a b : GraphNode} {cs cs' : List (List GraphNode)}
  {c : List GraphNode}

/-! ## Circles -/

/-- Two nodes are on one circle: a path of at least one edge leads from each to the other. -/
def OnCircle (g : DependencyGraph) (a b : GraphNode) : Prop :=
  Relation.TransGen g.Links a b ∧ Relation.TransGen g.Links b a

theorem OnCircle.mem_nodes (h : g.OnCircle a b) : a ∈ g.nodes ∧ b ∈ g.nodes := by
  obtain ⟨_, hab, -⟩ := Relation.TransGen.head'_iff.mp h.1
  obtain ⟨_, hba, -⟩ := Relation.TransGen.head'_iff.mp h.2
  exact ⟨hab.1, hba.1⟩

theorem OnCircle.self (h : g.OnCircle a b) : g.OnCircle a a := ⟨h.1.trans h.2, h.1.trans h.2⟩

/-- Different nodes that depend on each other are on one circle. -/
theorem mutual_iff_onCircle (hab : a ≠ b) : g.Mutual a b ↔ g.OnCircle a b :=
  and_congr (Relation.reflTransGen_iff_eq_or_transGen.trans (or_iff_right (Ne.symm hab)))
    (Relation.reflTransGen_iff_eq_or_transGen.trans (or_iff_right hab))

theorem HasDistinctIds.nodup (hids : g.HasDistinctIds) : g.nodes.Nodup := List.Nodup.of_map _ hids

namespace ListsCycles

variable (h : g.ListsCycles cs)

include h

theorem mem_nodes (hc : c ∈ cs) (ha : a ∈ c) : a ∈ g.nodes := (h.membersInOrder c hc).subset ha

/-- A node is in one cycle only. -/
theorem eq_of_mem (hc : c ∈ cs) {d : List GraphNode} (hd : d ∈ cs) (hac : a ∈ c) (had : a ∈ d) : c = d := by
  have hback : cs.Pairwise fun c d => a ∈ d → a ∈ c → d = c :=
    h.disjoint.imp fun hdisjoint hd hc => absurd hd (hdisjoint hc)
  have happart : cs.Pairwise fun c d => a ∈ c → a ∈ d → c = d :=
    h.disjoint.imp fun hdisjoint hc hd => absurd hd (hdisjoint hc)
  exact happart.forall_of_forall_of_flip (fun _ _ _ _ => rfl) hback hc hd hac had

theorem onCircle_self (hids : g.HasDistinctIds) (hc : c ∈ cs) (ha : a ∈ c) : g.OnCircle a a := by
  have hnode := h.mem_nodes hc ha
  by_cases hother : ∃ b ∈ c, b ≠ a
  · obtain ⟨b, hb, hba⟩ := hother
    have hmutual := (h.together a hnode b (h.mem_nodes hc hb) (Ne.symm hba)).mp ⟨c, hc, ha, hb⟩
    exact ((mutual_iff_onCircle (Ne.symm hba)).mp hmutual).self
  · -- a cycle without another member is a node with an edge to itself
    push Not at hother
    have hnodup : c.Nodup := (h.membersInOrder c hc).nodup hids.nodup
    have hsingle : c = [a] := by
      refine List.perm_singleton.mp
        ((List.perm_ext_iff_of_nodup hnodup (List.nodup_singleton a)).mpr ?_)
      intro b
      rw [List.mem_singleton]
      exact ⟨hother b, fun hba => hba ▸ ha⟩
    have hlink := ((h.alone a hnode).mp (hsingle ▸ hc)).1
    exact ⟨.single hlink, .single hlink⟩

/-- **The members of a cycle** are on one circle with each of them, and no other node is. -/
theorem mem_iff (hids : g.HasDistinctIds) (hc : c ∈ cs) (ha : a ∈ c) : b ∈ c ↔ g.OnCircle a b := by
  by_cases hab : a = b
  · subst hab
    exact iff_of_true ha (h.onCircle_self hids hc ha)
  · have hnode := h.mem_nodes hc ha
    constructor
    · intro hb
      rw [← mutual_iff_onCircle hab, ← h.together a hnode b (h.mem_nodes hc hb) hab]
      exact ⟨c, hc, ha, hb⟩
    · intro hcircle
      have hmutual := (mutual_iff_onCircle hab).mpr hcircle
      obtain ⟨d, hd, had, hbd⟩ := (h.together a hnode b hcircle.mem_nodes.2 hab).mpr hmutual
      rwa [h.eq_of_mem hc hd ha had]

/-- **Every node on a circle is in a cycle.** -/
theorem exists_mem (hcircle : g.OnCircle a a) : ∃ c ∈ cs, a ∈ c := by
  have hnode := hcircle.mem_nodes.1
  by_cases hother : ∃ b, b ≠ a ∧ g.Mutual a b
  · obtain ⟨b, hba, hmutual⟩ := hother
    obtain ⟨c, hc, hac, -⟩ := (h.together a hnode b (hmutual.mem_nodes hba) (Ne.symm hba)).mpr hmutual
    exact ⟨c, hc, hac⟩
  · push Not at hother
    obtain ⟨b, hlink, hpath⟩ := Relation.TransGen.head'_iff.mp hcircle.1
    by_cases hba : b = a
    · subst hba
      exact ⟨[b], (h.alone b hnode).mpr ⟨hlink, hother⟩, List.mem_singleton_self b⟩
    · exact absurd ⟨.single hlink, hpath⟩ (hother b hba)

end ListsCycles

/-! ## Graphs with the same circles -/

/-- A cycle of one graph is a cycle of the other one, with its members in some order. -/
theorem ListsCycles.exists_perm (h : g.ListsCycles cs) (h' : g'.ListsCycles cs')
    (hids : g.HasDistinctIds) (hids' : g'.HasDistinctIds)
    (hsame : ∀ a b, g.OnCircle a b ↔ g'.OnCircle a b) (hc : c ∈ cs) : ∃ c' ∈ cs', c.Perm c' := by
  obtain ⟨a, ha⟩ := List.exists_mem_of_ne_nil c (h.notEmpty c hc)
  obtain ⟨c', hc', ha'⟩ := h'.exists_mem ((hsame a a).mp (h.onCircle_self hids hc ha))
  refine ⟨c', hc', (List.perm_ext_iff_of_nodup ?_ ?_).mpr ?_⟩
  · exact (h.membersInOrder c hc).nodup hids.nodup
  · exact (h'.membersInOrder c' hc').nodup hids'.nodup
  · intro b
    rw [h.mem_iff hids hc ha, h'.mem_iff hids' hc' ha']
    exact hsame a b

/-- No cycle is listed twice, in whatever order. -/
theorem ListsCycles.nodup_coe (h : g.ListsCycles cs) :
    (cs.map Multiset.ofList).Nodup := by
  refine List.pairwise_map.mpr (h.disjoint.imp_of_mem ?_)
  intro c d hc _ hdisjoint heq
  obtain ⟨a, ha⟩ := List.exists_mem_of_ne_nil c (h.notEmpty c hc)
  exact hdisjoint ha ((Multiset.coe_eq_coe.mp heq).mem_iff.mp ha)

/-- **Graphs with the same circles have the same cycles**, in some order and each with its members in some
    order. -/
theorem ListsCycles.rel (h : g.ListsCycles cs) (h' : g'.ListsCycles cs') (hids : g.HasDistinctIds)
    (hids' : g'.HasDistinctIds) (hsame : ∀ a b, g.OnCircle a b ↔ g'.OnCircle a b) :
    Multiset.Rel List.Perm (cs : Multiset (List GraphNode)) cs' := by
  have hperm : (cs.map Multiset.ofList).Perm (cs'.map Multiset.ofList) := by
    refine (List.perm_ext_iff_of_nodup h.nodup_coe h'.nodup_coe).mpr ?_
    intro m
    rw [List.mem_map, List.mem_map]
    constructor
    · rintro ⟨c, hc, rfl⟩
      obtain ⟨c', hc', hcc⟩ := h.exists_perm h' hids hids' hsame hc
      exact ⟨c', hc', (Multiset.coe_eq_coe.mpr hcc).symm⟩
    · rintro ⟨c, hc, rfl⟩
      obtain ⟨c', hc', hcc⟩ := h'.exists_perm h hids' hids (fun a b => (hsame a b).symm) hc
      exact ⟨c', hc', (Multiset.coe_eq_coe.mpr hcc).symm⟩
  have heq : Multiset.map Multiset.ofList (cs : Multiset (List GraphNode))
      = Multiset.map Multiset.ofList (cs' : Multiset (List GraphNode)) := by
    rw [Multiset.map_coe, Multiset.map_coe]
    exact Multiset.coe_eq_coe.mpr hperm
  refine (Multiset.rel_map.mp (Multiset.rel_eq.mpr heq)).mono ?_
  intro c _ c' _ hcc
  exact Multiset.coe_eq_coe.mp hcc

/-! ## The graph of some units -/

section Units

variable {units units' : List Pou}

/-- A unit depends on a unit, said of their nodes. -/
def LinksInside (units : List Pou) (m n : GraphNode) : Prop :=
  ∃ u ∈ units, ∃ v ∈ units, m = unitNode u ∧ n = unitNode v ∧ ∃ d ∈ u.dependencies, SameName d v.name

theorem LinksInside.perm (hperm : units.Perm units') {m n : GraphNode} (h : LinksInside units m n) :
    LinksInside units' m n := by
  obtain ⟨u, hu, v, hv, hm, hn, hd⟩ := h
  exact ⟨u, hperm.mem_iff.mp hu, v, hperm.mem_iff.mp hv, hm, hn, hd⟩

/-- Where no two units have one name, a node inside the project is that of a unit. -/
theorem exists_unitNode {n : GraphNode} (hn : n ∈ (ofUnits units).nodes) (hkind : n.kind ≠ .external) :
    ∃ u ∈ units, n = unitNode u :=
  exists_of_mem_insideNodes ((mem_insideNodes_iff hn).mpr hkind)

theorem linksInside_iff (h : DistinctNames units) {m n : GraphNode} :
    LinksInside units m n ↔ (ofUnits units).Links m n ∧ n.kind ≠ .external := by
  constructor
  · rintro ⟨u, hu, v, hv, rfl, rfl, d, hd, hname⟩
    exact ⟨⟨unitNode_mem_nodes h hu, unitNode_mem_nodes h hv, _, mem_edges_ofUnits hu hd, rfl,
      unitId_eq_iff.mpr hname⟩, kind_unitNode_ne v⟩
  · rintro ⟨⟨hm, hn, e, he, hsource, htarget⟩, hkind⟩
    obtain ⟨u, hu, d, hd, rfl⟩ := exists_of_mem_edges he
    obtain ⟨v, hv, rfl⟩ := exists_unitNode hn hkind
    have hmu : m = unitNode u :=
      (hasDistinctIds_ofUnits units).eq_of_id_eq hm (unitNode_mem_nodes h hu) hsource.symm
    exact ⟨u, hu, v, hv, hmu, rfl, d, hd, unitId_eq_iff.mp htarget⟩

/-- What depends on something is inside the project. -/
theorem kind_ne_of_links {m n : GraphNode} (h : (ofUnits units).Links m n) : m.kind ≠ .external := by
  intro hkind
  obtain ⟨hm, -, e, he, hsource, -⟩ := h
  exact (isUnitGraph units).leaves m hm hkind e he hsource

/-- A path that goes on stays inside the project. -/
theorem transGen_linksInside (h : DistinctNames units) {m n o : GraphNode}
    (hpath : Relation.TransGen (ofUnits units).Links m n) (hnext : (ofUnits units).Links n o) :
    Relation.TransGen (LinksInside units) m n := by
  induction hpath generalizing o with
  | single hlink => exact .single ((linksInside_iff h).mpr ⟨hlink, kind_ne_of_links hnext⟩)
  | tail _ hlink ih =>
      exact (ih hlink).tail ((linksInside_iff h).mpr ⟨hlink, kind_ne_of_links hnext⟩)

theorem onCircle_ofUnits_iff (h : DistinctNames units) {m n : GraphNode} :
    (ofUnits units).OnCircle m n ↔
      Relation.TransGen (LinksInside units) m n ∧ Relation.TransGen (LinksInside units) n m := by
  constructor
  · rintro ⟨hmn, hnm⟩
    obtain ⟨_, hm, -⟩ := Relation.TransGen.head'_iff.mp hmn
    obtain ⟨_, hn, -⟩ := Relation.TransGen.head'_iff.mp hnm
    exact ⟨transGen_linksInside h hmn hn, transGen_linksInside h hnm hm⟩
  · rintro ⟨hmn, hnm⟩
    have hlinks : ∀ a b, LinksInside units a b → (ofUnits units).Links a b :=
      fun _ _ hlink => ((linksInside_iff h).mp hlink).1
    exact ⟨Relation.TransGen.mono hlinks _ _ hmn, Relation.TransGen.mono hlinks _ _ hnm⟩

/-- **The circles do not depend on the order** of the units. -/
theorem onCircle_perm (h : DistinctNames units) (hperm : units.Perm units') (m n : GraphNode) :
    (ofUnits units).OnCircle m n ↔ (ofUnits units').OnCircle m n := by
  have hlinks : LinksInside units = LinksInside units' := by
    funext m n
    exact propext ⟨LinksInside.perm hperm, LinksInside.perm hperm.symm⟩
  rw [onCircle_ofUnits_iff h, onCircle_ofUnits_iff (h.perm hperm), hlinks]

/-- **The cycles of units in another order** are the same, in some order and each with its members in some
    order. -/
theorem cycles_perm (h : DistinctNames units) (hperm : units.Perm units') :
    Multiset.Rel List.Perm ((ofUnits units).cycles : Multiset (List String)) (ofUnits units').cycles := by
  have hids := hasDistinctIds_ofUnits units
  have hids' := hasDistinctIds_ofUnits units'
  have hrel := (listsCycles hids).rel (listsCycles hids') hids hids' (onCircle_perm h hperm)
  have hnames := hrel.mono fun c _ c' _ hcc => List.Perm.map GraphNode.name hcc
  rw [← Multiset.rel_map, Multiset.map_coe, Multiset.map_coe] at hnames
  rw [cycles_eq_map_name, cycles_eq_map_name]
  exact hnames

/-- **No cycle of units is listed twice.** -/
theorem nodup_cycles (units : List Pou) : (ofUnits units).cycles.Nodup := by
  have hids := hasDistinctIds_ofUnits units
  have hlists := listsCycles hids
  rw [cycles_eq_map_name]
  refine List.pairwise_map.mpr (hlists.disjoint.imp_of_mem ?_)
  intro c d hc hd hdisjoint heq
  obtain ⟨a, ha⟩ := List.exists_mem_of_ne_nil c (hlists.notEmpty c hc)
  obtain ⟨b, hb, hname⟩ := List.mem_map.mp (heq ▸ List.mem_map_of_mem ha)
  have hna := hlists.mem_nodes hc ha
  have hnb := hlists.mem_nodes hd hb
  -- nodes with one name have one id
  have hab : a = b := by
    refine hids.eq_of_id_eq hna hnb ?_
    rw [id_eq_unitId hna, id_eq_unitId hnb, hname]
  exact hdisjoint ha (hab ▸ hb)

end Units

end DependencyGraph

end StLint

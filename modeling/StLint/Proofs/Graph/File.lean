import Mathlib.Data.String.Basic
import StLint.Proofs.Collection.Keyed
import StLint.Proofs.Graph.Unit

/-!
# The graph of the files of a project

The graph of the files is read from the dependencies of the units once more, and names outside the
project, repeated dependencies and dependencies within a file are passed over on the way. Where no two
units have one name **it is the graph of the units with the units of each file made one**.

* `DistinctNames` — no two units have one name, in any case.
* `DependencyGraph.IsOfFile` — a node stands for a unit of a file.
* `DependencyGraph.IsQuotient` — one graph is another one with the units of each file made one.
* `DependencyGraph.isQuotient_ofFiles` — the graph of the files is.
-/

namespace StLint

/-! ## Units with names of their own -/

/-- No two units have one name, in any case. -/
def DistinctNames (units : List Pou) : Prop := units.Pairwise fun u v => ¬ SameName u.name v.name

instance decidableDistinctNames (units : List Pou) : Decidable (DistinctNames units) :=
  inferInstanceAs (Decidable (units.Pairwise fun u v =>
    ¬ Text.eqIgnoreCase u.name.toList v.name.toList = true))

section DistinctNames

variable {units : List Pou} {u v : Pou} {name : String}

theorem DistinctNames.eq_of_sameName (h : DistinctNames units) (hu : u ∈ units) (hv : v ∈ units)
    (huv : SameName u.name v.name) : u = v := by
  have hback : units.Pairwise fun u v => SameName v.name u.name → v = u :=
    h.imp fun hne hvu => absurd hvu.symm hne
  exact (h.imp fun hne hab => absurd hab hne).forall_of_forall_of_flip (fun _ _ _ => rfl) hback hu hv huv

/-- **A name finds the unit that has it.** -/
theorem DistinctNames.unitNamed?_eq_some (h : DistinctNames units) (hu : u ∈ units)
    (hname : SameName u.name name) : unitNamed? units name = some u := by
  cases hfind : unitNamed? units name with
  | none => exact absurd hname (unitNamed?_eq_none_iff.mp hfind u hu)
  | some v =>
      have hv : SameName v.name name := sameName_of_unitNamed? hfind
      rw [h.eq_of_sameName (mem_of_unitNamed? hfind) hu (hv.trans hname.symm)]

end DistinctNames

theorem fileId_inj {a b : String} : fileId a = fileId b ↔ a = b := String.append_right_inj _

namespace DependencyGraph

variable {units : List Pou}

/-- Every unit has its own node. -/
theorem unitNode_mem_nodes (h : DistinctNames units) {u : Pou} (hu : u ∈ units) :
    unitNode u ∈ (ofUnits units).nodes := by
  have hids : (units.map unitNode).Pairwise fun m n => m.id ≠ n.id := by
    refine List.pairwise_map.mpr (h.imp ?_)
    intro u v huv heq
    exact huv (unitId_eq_iff.mp heq)
  refine List.mem_append_left _ ?_
  rw [firstBy_eq_self GraphNode.id hids]
  exact List.mem_map_of_mem hu

/-! ## Pairs of files -/

theorem isKeyOrder_pairBefore : IsKeyOrder pairBefore :=
  IsKeyOrder.pairs IsKeyOrder.ofLinearOrder IsKeyOrder.ofLinearOrder

theorem filePair?_eq_some_iff {u : Pou} {d : String} {a b : String} :
    filePair? units u d = some (a, b) ↔
      a ≠ b ∧ u.file = a ∧ ∃ t, unitNamed? units d = some t ∧ t.file = b := by
  rw [filePair?, Option.bind_eq_some_iff]
  constructor
  · rintro ⟨t, ht, hpair⟩
    by_cases hfile : t.file = u.file
    · rw [if_pos hfile] at hpair
      exact nomatch hpair
    · rw [if_neg hfile] at hpair
      obtain ⟨rfl, rfl⟩ := Prod.mk.inj (Option.some.inj hpair)
      exact ⟨Ne.symm hfile, rfl, t, ht, rfl⟩
  · rintro ⟨hab, rfl, t, ht, rfl⟩
    exact ⟨t, ht, if_neg (Ne.symm hab)⟩

/-- The files that depend on each other, in order. -/
def filePairs (units : List Pou) : List (String × String) :=
  sortOnce pairBefore ((dependencyPairs units).filterMap fun (u, d) => filePair? units u d)

theorem mem_filePairs_iff {a b : String} :
    (a, b) ∈ filePairs units ↔
      a ≠ b ∧ ∃ u ∈ units, ∃ d ∈ u.dependencies, u.file = a ∧
        ∃ t, unitNamed? units d = some t ∧ t.file = b := by
  rw [filePairs, mem_sortOnce, List.mem_filterMap]
  constructor
  · rintro ⟨⟨u, d⟩, hmem, hpair⟩
    obtain ⟨hu, hd⟩ := mem_dependencyPairs.mp hmem
    obtain ⟨hab, ha, ht⟩ := filePair?_eq_some_iff.mp hpair
    exact ⟨hab, u, hu, d, hd, ha, ht⟩
  · rintro ⟨hab, u, hu, d, hd, ha, ht⟩
    exact ⟨(u, d), mem_dependencyPairs.mpr ⟨hu, hd⟩, filePair?_eq_some_iff.mpr ⟨hab, ha, ht⟩⟩

theorem edges_ofFiles (units : List Pou) :
    (ofFiles units).edges = (filePairs units).map fun p => ⟨fileId p.1, fileId p.2, .dependsOn⟩ :=
  rfl

/-! ## Units of one file made one -/

/-- A node stands for a unit of a file. -/
def IsOfFile (units : List Pou) (n : GraphNode) (file : String) : Prop :=
  n.kind ≠ .external ∧ ∃ u ∈ units, SameName u.name n.name ∧ u.file = file

/-- Two files depend on each other where they differ and a unit of one depends on a unit of the other. -/
theorem mem_filePairs_iff_links (h : DistinctNames units) {a b : String} :
    (a, b) ∈ filePairs units ↔
      a ≠ b ∧ ∃ m n, (ofUnits units).Links m n ∧ IsOfFile units m a ∧ IsOfFile units n b := by
  rw [mem_filePairs_iff]
  refine and_congr_right ?_
  intro _
  constructor
  · rintro ⟨u, hu, d, hd, rfl, t, ht, rfl⟩
    have htu : t ∈ units := mem_of_unitNamed? ht
    have hname : unitId d = unitId t.name := unitId_eq_iff.mpr (sameName_of_unitNamed? ht).symm
    refine ⟨unitNode u, unitNode t, ?_, ?_, ?_⟩
    · exact ⟨unitNode_mem_nodes h hu, unitNode_mem_nodes h htu, _, mem_edges_ofUnits hu hd, rfl, hname⟩
    · exact ⟨kind_unitNode_ne u, u, hu, SameName.refl _, rfl⟩
    · exact ⟨kind_unitNode_ne t, t, htu, SameName.refl _, rfl⟩
  · rintro ⟨m, n, ⟨hm, hn, e, he, hsource, htarget⟩, ⟨-, u, hu, hum, rfl⟩, -, t, ht, htn, rfl⟩
    obtain ⟨v, hv, d, hd, rfl⟩ := exists_of_mem_edges he
    rw [id_eq_unitId hm, unitId_eq_iff] at hsource
    rw [id_eq_unitId hn, unitId_eq_iff] at htarget
    -- an id stands for one unit only
    obtain rfl := h.eq_of_sameName hu hv (hum.trans hsource.symm)
    exact ⟨u, hu, d, hd, rfl, t, h.unitNamed?_eq_some ht (htn.trans htarget.symm), rfl⟩

/-- A graph is that of some units with the units of each file made one. -/
structure IsQuotient (units : List Pou) (g q : DependencyGraph) : Prop where
  /-- The nodes are the files in the order in which the units first name them. -/
  nodes : q.nodes = (firstBy id (units.map Pou.file)).map fun f => ⟨fileId f, f, .file⟩
  distinctIds : q.HasDistinctIds
  edge_iff : ∀ a b, ⟨fileId a, fileId b, .dependsOn⟩ ∈ q.edges ↔
    a ≠ b ∧ ∃ m n, g.Links m n ∧ IsOfFile units m a ∧ IsOfFile units n b
  /-- No two edges have the same ends. -/
  single : (q.edges.map fun e => (e.source, e.target)).Nodup
  /-- There is no other edge. -/
  edges : ∀ e ∈ q.edges, ∃ a ∈ units.map Pou.file, ∃ b ∈ units.map Pou.file,
    e = ⟨fileId a, fileId b, .dependsOn⟩

/-- A file is kept where its id is. -/
theorem firstBy_map_fileNode (units : List Pou) :
    firstBy GraphNode.id (units.map fileNode)
      = (firstBy id (units.map Pou.file)).map fun f => ⟨fileId f, f, .file⟩ := by
  induction units with
  | nil => rfl
  | cons u units ih =>
      rw [List.map_cons, List.map_cons, firstBy, firstBy, ih, List.map_cons, List.filter_map]
      refine congrArg (List.cons _) (congrArg (List.map _) (List.filter_congr ?_))
      intro f _
      refine decide_eq_decide.mpr (not_congr ?_)
      exact fileId_inj

/-- **The graph of the files is the graph of the units with the units of each file made one**, where no
    two units have one name: its nodes are the files in the order in which they first appear, and there is
    an edge between two different files, and then exactly one, if and only if a unit of the first depends
    on a unit of the second. -/
theorem isQuotient_ofFiles (units : List Pou) (h : DistinctNames units) :
    IsQuotient units (ofUnits units) (ofFiles units) where
  nodes := firstBy_map_fileNode units
  distinctIds := List.pairwise_map.mpr (pairwise_firstBy GraphNode.id _)
  edge_iff := by
    intro a b
    rw [← mem_filePairs_iff_links h, edges_ofFiles, List.mem_map]
    constructor
    · rintro ⟨⟨a', b'⟩, hmem, heq⟩
      injection heq with hsource htarget
      obtain rfl := fileId_inj.mp hsource
      obtain rfl := fileId_inj.mp htarget
      exact hmem
    · intro hmem
      exact ⟨(a, b), hmem, rfl⟩
  single := by
    rw [edges_ofFiles, List.map_map]
    refine (nodup_sortOnce isKeyOrder_pairBefore _).map ?_
    rintro ⟨a, b⟩ ⟨a', b'⟩ heq
    obtain ⟨hsource, htarget⟩ := Prod.mk.inj heq
    exact Prod.ext (fileId_inj.mp hsource) (fileId_inj.mp htarget)
  edges := by
    intro e he
    obtain ⟨⟨a, b⟩, hmem, rfl⟩ := List.mem_map.mp he
    obtain ⟨-, u, hu, d, -, rfl, t, ht, rfl⟩ := mem_filePairs_iff.mp hmem
    exact ⟨u.file, List.mem_map_of_mem hu, t.file, List.mem_map_of_mem (mem_of_unitNamed? ht), rfl⟩

/-- Two files that depend on each other, with a name in two spellings, one outside the project and a
    dependency within a file; and a unit that no file is known of. -/
def twoFiles : List Pou :=
  let unit (name : String) (dependencies : List String) (origin : Option String) : Pou :=
    { (default : Pou) with name, dependencies, origin }
  [unit "Main" ["Pump", "SCALE", "Vendor", "pump"] (some "main.st"),
    unit "Pump" ["Scale", "main"] (some "pump.st"), unit "Scale" ["Vendor"] (some "pump.st"),
    unit "Valve" ["Pump"] none]

/-- The graph of these files. -/
theorem isQuotient_ofFiles_twoFiles : DistinctNames twoFiles ∧
    (ofFiles twoFiles).edges.map (fun e => (e.source, e.target))
      = [("file:Valve", "file:pump.st"), ("file:main.st", "file:pump.st"),
        ("file:pump.st", "file:main.st")] ∧
    IsQuotient twoFiles (ofUnits twoFiles) (ofFiles twoFiles) := by
  have hdistinct : DistinctNames twoFiles := by decide
  refine ⟨hdistinct, ?_, isQuotient_ofFiles twoFiles hdistinct⟩
  decide

end DependencyGraph

end StLint

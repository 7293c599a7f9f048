import StLint.Check.All
import StLint.Proofs.Check.Indexing
import StLint.Proofs.Collection.Distinct
import StLint.Proofs.Expression.Quoted
import StLint.Proofs.Pou.File
import StLint.Proofs.Pou.Traversal
import StLint.Proofs.Pou.WellFormed
import StLint.Suggestion.Rules

/-!
# Readers of a body

The called units, the findings about statements and the suggestions are all read off one walk over the
body. A reader looks at the texts of a node and not at what stands below it, so **what it finds in a
body is what it finds at each node alone**, one after the other in the order of the walk. No node is
passed over but the root, where names are looked for, and none is met twice.

* `Node.own` — a node alone; `Node.read_walk` for whatever reads single nodes.
* `Node.IsWalked` — the walk is the recursive traversal, by node and by address.
* `Pou.IsReadAlong` — what every reader of a unit makes of a list of nodes.
* `Pou.IsRead.pairwise_line_walk` — the nodes of a unit that is read stand in the order of their lines.
* `Node.walk_exact` — all of this, for every tree and every unit.
-/

namespace StLint

open Check Source Text

namespace Node

/-! ## One node -/

/-- A node without what stands below it. -/
def own (n : Node) : Node := { n with children := [] }

theorem walk_own (n : Node) : n.own.walk = [n.own] := by
  rw [walk_eq_preorder, preorder_eq]
  rfl

/-- **Whatever reads single nodes** reads a tree node by node. -/
theorem read_walk {α : Type} {f : List Node → List α} (happend : ∀ ms ns, f (ms ++ ns) = f ms ++ f ns)
    (hown : ∀ m, f [m.own] = f [m]) (n : Node) :
    f n.walk = n.preorder.flatMap fun m => f m.own.walk := by
  rw [walk_eq_preorder]
  induction n.preorder with
  | nil => exact (List.append_cancel_right (happend [] [])).symm
  | cons m ms ih => rw [List.flatMap_cons, walk_own, hown, ← ih, ← happend, List.singleton_append]

/-- A call of a tree is a call of one of its nodes. -/
theorem exists_callee_iff {vars : List Variable} {n : Node} {P : Callee → Prop} :
    (∃ c ∈ n.callees vars, P c) ↔ ∃ m ∈ n.preorder, ∃ c ∈ m.own.callees vars, P c := by
  have hwalk : ∀ m : Node, m.callees vars = m.walk.filterMap (Callee.resolve? vars) := by
    intro m
    rw [callees, walk_eq_preorder]
  have hcallees : n.callees vars = n.preorder.flatMap fun m => m.own.callees vars := by
    simp only [hwalk]
    exact n.read_walk (fun _ _ => List.filterMap_append) fun _ => rfl
  rw [hcallees]
  constructor
  · rintro ⟨c, hc, hP⟩
    obtain ⟨m, hm, hc⟩ := List.mem_flatMap.mp hc
    exact ⟨m, hm, c, hc, hP⟩
  · rintro ⟨m, hm, c, hc, hP⟩
    exact ⟨c, List.mem_flatMap.mpr ⟨m, hm, hc⟩, hP⟩

/-! ## The walk -/

/-- **The walk is the recursive traversal.** -/
structure IsWalked (n : Node) : Prop where
  /-- The iterator answers with the nodes of the recursive traversal and ends behind the last one. -/
  yields : ∀ ns, Yields Walk.next? (Walk.start n) ns ↔ ns = n.preorder
  walk : n.walk = n.preorder
  /-- There are as many steps as nodes. -/
  length : n.preorder.length = n.size
  /-- By reference it comes to each address in the tree once, in the order of the source. -/
  references : ∀ ps, Yields n.pop? [[]] ps ↔ n.IsItinerary ps
  /-- At these addresses stand the nodes of the traversal, one after the other. -/
  itinerary : ∃ ps, n.IsItinerary ps ∧ ps.map n.at? = n.preorder.map some
  findAll : ∀ kind, n.findAll kind = n.preorder.filter fun m => m.kind = kind

theorem isWalked (n : Node) : n.IsWalked where
  yields ns := by rw [Walk.yields_iff, Walk.start, preorderAll_singleton]
  walk := n.walk_eq_preorder
  length := n.length_preorder
  references _ := yields_pop?_iff
  itinerary := by
    obtain ⟨ps, hps, hnodes⟩ := n.exists_yields_pop?
    exact ⟨ps, isItinerary_of_yields hps, hnodes⟩
  findAll kind := by rw [findAll, walk_eq_preorder]

end Node

/-! ## The readers of a unit -/

namespace Pou

/-- A unit with a single node for its body. -/
def atNode (u : Pou) (m : Node) : Pou := { u with body := m.own }

/-- **A unit is read along some nodes**: whatever is found in its body is found at one of these nodes, had
    it nothing below it, and the findings follow each other as the nodes do. Names, dependencies and logs
    are checked without a look at the body. -/
structure IsReadAlong (u : Pou) (ns : List Node) : Prop where
  units : ∀ vars name, name ∈ (Dependencies.ofBody vars u.body).units ↔
    ∃ m ∈ ns, name ∈ (Dependencies.ofBody vars m.own).units
  instances : ∀ vars b, b ∈ (Dependencies.ofBody vars u.body).instances ↔
    ∃ m ∈ ns, b ∈ (Dependencies.ofBody vars m.own).instances
  loops : loops u = ns.flatMap fun m => Check.loops (u.atNode m)
  divisions : divisions u = ns.flatMap fun m => Check.divisions (u.atNode m)
  /-- Of the accesses to one array the first counts, unless a line checks the array. -/
  indexing : indexing u = ((firstBy (fun s => lower s.access.name)
    (ns.flatMap fun m => Indexing.sites (u.atNode m))).filter fun s => !u.isChecked s.access.name).map
      (Indexing.ofSite u)
  nestedLoops : Rules.nestedLoops u = ns.flatMap fun m => Rules.nestedLoops (u.atNode m)
  /-- Where a name is looked for the root is passed over. -/
  isReferenced : ∀ name, Rules.isReferenced u.body name
    = ns.tail.any fun m => Rules.isReferenced { u.body with children := [m.own] } name
  /-- A condition is all that stands below its statement. -/
  conditionNumbers : Rules.conditionNumbers u = ns.flatMap fun m =>
    if Rules.hasCondition m then (Rules.magicNumbers m).map (Rules.magicNumber u m) else []

theorem loops_eq_flatMap (u : Pou) :
    Check.loops u = u.body.preorder.flatMap fun m => Check.loops (u.atNode m) :=
  u.body.read_walk (fun _ _ => List.filterMap_append) fun _ => rfl

theorem nestedLoops_eq_flatMap (u : Pou) :
    Rules.nestedLoops u = u.body.preorder.flatMap fun m => Rules.nestedLoops (u.atNode m) := by
  refine u.body.read_walk (f := fun ms => (ms.filter _).map (Rules.nestedLoop u)) ?_ ?_
  · intro ms ns
    rw [List.filter_append, List.map_append]
  · intro m
    simp only [List.filter_cons, List.filter_nil, apply_ite (List.map (Rules.nestedLoop u)), List.map_cons,
      List.map_nil]
    rfl

/-- A guard silences all divisions of a unit or none. -/
theorem divisions_eq_flatMap (u : Pou) :
    Check.divisions u = u.body.preorder.flatMap fun m => Check.divisions (u.atNode m) := by
  have hlines : ∀ m, (u.atNode m).sourceLines = u.sourceLines := fun _ => rfl
  by_cases hguard : u.sourceLines.any Division.isGuard = true
  · simp only [Check.divisions, hlines, if_pos hguard]
    exact (List.flatMap_eq_nil_iff.mpr fun _ _ => rfl).symm
  · simp only [Check.divisions, hlines, if_neg hguard]
    exact u.body.read_walk (fun _ _ => List.filterMap_append) fun _ => rfl

theorem sites_eq_firstBy (u : Pou) :
    Indexing.sites u = firstBy (fun s => lower s.access.name)
      (u.body.preorder.flatMap fun m => Indexing.sites (u.atNode m)) := by
  have hsites : u.body.walk.flatMap Indexing.sitesOfNode = u.body.preorder.flatMap fun m =>
      m.own.walk.flatMap Indexing.sitesOfNode :=
    u.body.read_walk (fun _ _ => List.flatMap_append) fun _ => rfl
  rw [Indexing.sites, hsites]
  exact (firstBy_flatMap_firstBy _ _ _).symm

theorem isReferenced_eq_any (body : Node) (name : String) :
    Rules.isReferenced body name
      = body.preorder.tail.any fun m => Rules.isReferenced { body with children := [m.own] } name := by
  rw [Rules.isReferenced, Rules.bodyTexts, Node.walk_eq_preorder, List.drop_one, List.any_flatMap]
  congr 1
  funext m
  have hown : m.own.preorder = [m.own] := by rw [← Node.walk_eq_preorder, Node.walk_own]
  rw [Rules.isReferenced, Rules.bodyTexts, Node.drop_one_walk, Node.preorderAll_singleton, hown,
    List.flatMap_singleton]
  rfl

theorem conditionNumbers_eq_flatMap (u : Pou) :
    Rules.conditionNumbers u = u.body.preorder.flatMap fun m =>
      if Rules.hasCondition m then (Rules.magicNumbers m).map (Rules.magicNumber u m) else [] := by
  rw [Rules.conditionNumbers, Node.walk_eq_preorder]
  induction u.body.preorder with
  | nil => rfl
  | cons m ms ih =>
      rw [List.filter_cons, List.flatMap_cons, ← ih]
      cases Rules.hasCondition m <;> simp

/-- **The readers of a unit go along the recursive traversal** of its body. -/
theorem isReadAlong (u : Pou) : u.IsReadAlong u.body.preorder where
  units vars name := by
    simp only [Dependencies.mem_units_ofBody]
    exact Node.exists_callee_iff
  instances vars b := by
    simp only [Dependencies.mem_instances_ofBody]
    exact Node.exists_callee_iff
  loops := u.loops_eq_flatMap
  divisions := u.divisions_eq_flatMap
  indexing := by
    rw [Check.indexing, sites_eq_firstBy]
    rfl
  nestedLoops := u.nestedLoops_eq_flatMap
  isReferenced := isReferenced_eq_any u.body
  conditionNumbers := u.conditionNumbers_eq_flatMap

end Pou

/-! ## Lines -/

/-- The nodes of a body stand in the order of their lines, if its statements do. -/
theorem Node.pairwise_line_preorder {n : Node} (hroot : n.line = 0)
    (hstatements : ∀ c ∈ n.children, c.IsStatement)
    (hordered : n.children.Pairwise fun c d => c.line ≤ d.line) :
    n.preorder.Pairwise fun a b => a.line ≤ b.line := by
  have hline : ∀ c ∈ n.children, ∀ m ∈ c.preorder, m.line = c.line :=
    fun c hc m hm => ((hstatements c hc).carries m hm).1
  rw [preorder_eq, List.pairwise_cons, preorderAll_eq_flatMap, List.pairwise_flatMap]
  refine ⟨fun m _ => hroot ▸ Nat.zero_le m.line, ?_, ?_⟩
  · intro c hc
    refine List.pairwise_of_forall_mem_list ?_
    intro a ha b hb
    rw [hline c hc a ha, hline c hc b hb]
  · refine hordered.imp_of_mem ?_
    intro c d hc hd hcd a ha b hb
    rwa [hline c hc a ha, hline d hd b hb]

namespace Pou

variable {u : Pou}

theorem pairwise_line_of_parse {label : String} {source : List Char} (h : parse label source = .ok u) :
    u.body.walk.Pairwise fun a b => a.line ≤ b.line := by
  obtain ⟨index, d, -, rfl⟩ := exists_ofDeclaration_of_parse h
  have hnumbers : (codeLines (normalizeLineEndings source)).Pairwise fun l m => l.number < m.number :=
    pairwise_number_collapse false 1 _
  have hlines : ∀ l ∈ linesAt (codeLines (normalizeLineEndings source)) index d, True := fun _ _ => trivial
  obtain ⟨hstatements, hordered, -⟩ :=
    stands_bodyAt (P := fun _ => True) (normalizeLineEndings source) hlines hnumbers
  rw [Node.walk_eq_preorder, body_ofDeclaration]
  exact Node.pairwise_line_preorder rfl (fun c hc => (hstatements c hc).2) hordered

/-- A move keeps the order of lines. -/
theorem pairwise_line_shift (n : Nat) (h : u.body.walk.Pairwise fun a b => a.line ≤ b.line) :
    (u.shift n).body.walk.Pairwise fun a b => a.line ≤ b.line := by
  by_cases hn : n = 0
  · rwa [shift, if_pos hn]
  · rw [shift, if_neg hn]
    show (u.body.shift n).walk.Pairwise _
    rw [Node.walk_shift, List.pairwise_map]
    refine h.imp ?_
    intro a b hab
    rw [Node.line_shift, Node.line_shift]
    split <;> split <;> omega

/-- **The nodes of a unit that is read** stand in the order of their lines. -/
theorem IsRead.pairwise_line_walk (h : u.IsRead) : u.body.walk.Pairwise fun a b => a.line ≤ b.line :=
  h.induction (motive := fun u => u.body.walk.Pairwise fun a b => a.line ≤ b.line)
    (fun _ _ _ => pairwise_line_of_parse) fun n _ => pairwise_line_shift n

end Pou

/-! ## Every tree and every unit -/

/-- **The walk over a tree is its recursive traversal, and whatever is found in a body is found along it.**
    It comes to every place of the tree once, in the order of the source, and takes as many steps as there
    are nodes. In a unit that is read the lines come in their order too. -/
theorem Node.walk_exact (n : Node) :
    n.IsWalked ∧ ∀ u : Pou, u.body = n →
      u.IsReadAlong n.preorder ∧ (u.IsRead → n.preorder.Pairwise fun a b => a.line ≤ b.line) := by
  refine ⟨n.isWalked, ?_⟩
  rintro u rfl
  refine ⟨u.isReadAlong, ?_⟩
  intro hread
  rw [← Node.walk_eq_preorder]
  exact hread.pairwise_line_walk

/-- A loop over a division, with a call among the operands. -/
def drainSource : List Char :=
  "PROGRAM A\nWHILE b > 5 DO\nc := F(d) / e;\nEND_WHILE".toList

/-- The walk comes to the condition of the loop before the statement inside it, and to the call before its
    argument. -/
theorem Node.walk_exact_drainSource :
    ∃ u : Pou, u.IsRead ∧ u.body.preorder.map (fun m => (m.kind, m.line))
        = [(.root, 0), (.whileLoop, 2), (.binaryExpression, 2), (.variable, 2), (.literal, 2),
            (.assignment, 3), (.binaryExpression, 3), (.functionCall, 3), (.variable, 3), (.variable, 3)] ∧
      Yields Walk.next? (Walk.start u.body) u.body.preorder ∧ u.IsReadAlong u.body.preorder ∧
      u.body.preorder.Pairwise fun a b => a.line ≤ b.line := by
  obtain ⟨u, hu, hnodes⟩ : ∃ u, Pou.parse "main.st" drainSource = .ok u ∧
      u.body.preorder.map (fun m => (m.kind, m.line))
        = [(.root, 0), (.whileLoop, 2), (.binaryExpression, 2), (.variable, 2), (.literal, 2),
            (.assignment, 3), (.binaryExpression, 3), (.functionCall, 3), (.variable, 3), (.variable, 3)] :=
    Pou.exists_ok_of_any (by decide +kernel)
  have hread : u.IsRead := ⟨"main.st", drainSource, Or.inl hu⟩
  obtain ⟨hwalked, hunits⟩ := walk_exact u.body
  obtain ⟨halong, hlines⟩ := hunits u rfl
  exact ⟨u, hread, hnodes, (hwalked.yields _).mpr rfl, halong, hlines hread⟩

end StLint

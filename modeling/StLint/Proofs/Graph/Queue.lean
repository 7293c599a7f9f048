import Mathlib.Data.Set.Finite.Basic
import Mathlib.Order.WellFounded
import StLint.Proofs.Collection.Distinct
import StLint.Proofs.Collection.Sorted
import StLint.Proofs.Graph.Component

/-!
# The queue of free nodes

A node is popped when all nodes that point to it were popped before. Its counter stands at **the number of
edges from nodes that were not popped yet**, so it is never lowered below zero, and the nodes that are
never popped are those below a cycle.

* `Queued` — what the counters and the queue hold while nodes are popped.
* `Queued.step`, `Queued.run` — one pop keeps it, and so does the whole loop.
* `Lowers` — a counter is lowered in the loop, and `Queued.pos_of_lowers`.
* `mem_popOrder_iff`, `precedes_popOrder` — what is popped, and in which order.
* `not_mem_popOrder_iff` — what is never popped.
* `order_perm` — the order lists every node once.
-/

namespace StLint.Digraph

variable {g : Digraph} {i j : Nat} {popped degrees queue : List Nat}

/-! ## Counters -/

/-- The number of edges to a node from nodes that were not popped. -/
def waiting (g : Digraph) (popped : List Nat) (j : Nat) : Nat :=
  g.edges.countP fun e => e.2 = j ∧ e.1 ∉ popped

theorem waiting_nil (g : Digraph) (j : Nat) : g.waiting [] j = g.inDegree j := by
  rw [waiting, inDegree]
  refine List.countP_congr ?_
  intro e _
  simp

theorem waiting_eq_zero_iff : g.waiting popped j = 0 ↔ ∀ i, (i, j) ∈ g.edges → i ∈ popped := by
  rw [waiting, List.countP_eq_zero]
  simp only [decide_eq_true_eq, not_and, not_not]
  exact ⟨fun h i he => h (i, j) he rfl, fun h ⟨i, k⟩ he hk => h i (hk ▸ he)⟩

/-- A node that is popped counts for the nodes that it points to. -/
theorem waiting_cons (g : Digraph) (hi : i ∉ popped) (j : Nat) :
    g.waiting (i :: popped) j + g.edges.count (i, j) = g.waiting popped j := by
  rw [waiting, waiting]
  induction g.edges with
  | nil => rfl
  | cons e es ih =>
      rw [List.countP_cons, List.countP_cons, List.count_cons, ← ih]
      -- an edge counted either comes from the node or still counts without it
      have hedge : (if decide (e.2 = j ∧ e.1 ∉ i :: popped) = true then 1 else 0)
          + (if (e == (i, j)) = true then 1 else 0)
          = if decide (e.2 = j ∧ e.1 ∉ popped) = true then 1 else 0 := by
        obtain ⟨k, l⟩ := e
        by_cases hl : l = j
        · by_cases hk : k = i
          · simp [hl, hk, hi]
          · simp [hl, hk]
        · simp [hl]
      omega

theorem waiting_cons_eq (hedges : g.edges.Nodup) (hi : i ∉ popped) (j : Nat) :
    g.waiting (i :: popped) j
      = if (i, j) ∈ g.edges then g.waiting popped j - 1 else g.waiting popped j := by
  have hcount := waiting_cons g hi j
  split
  case isTrue he =>
    rw [List.count_eq_one_of_mem hedges he] at hcount
    omega
  case isFalse he =>
    rwa [List.count_eq_zero_of_not_mem he] at hcount

/-- A counter that is not zero is one less after it is lowered. -/
theorem lower_of_pos {j d : Nat} {ds : List Nat} (h : ds[j]? = some (d + 1)) :
    lower j ds = (ds.set j d, decide (d = 0)) := by
  induction j generalizing ds with
  | zero =>
      cases ds with
      | nil => exact nomatch h
      | cons c ds =>
          obtain rfl := Option.some.inj h
          rfl
  | succ j ih =>
      cases ds with
      | nil => exact nomatch h
      | cons c ds =>
          rw [lower, ih h]
          rfl

/-- **Nodes are released one after the other**: each counter is one less, and those that stood at one are
    queued. -/
theorem release_eq {n : Nat} {count : Nat → Nat} {js : List Nat} (hnodup : js.Nodup)
    (hpos : ∀ j ∈ js, j < n ∧ 0 < count j) :
    release ((List.range n).map count) queue js
      = ((List.range n).map fun j => if j ∈ js then count j - 1 else count j,
        queue ++ js.filter fun j => count j = 1) := by
  induction js generalizing count queue with
  | nil => simp [release]
  | cons j js ih =>
      obtain ⟨hj, hnodup⟩ := List.nodup_cons.mp hnodup
      obtain ⟨hlt, hcount⟩ := hpos j (List.mem_cons_self ..)
      -- the other counters stay as they are
      have hother : ∀ k, k ≠ j → Function.update count j (count j - 1) k = count k := fun k hk =>
        Function.update_of_ne hk ..
      have hset : ((List.range n).map count).set j (count j - 1)
          = (List.range n).map (Function.update count j (count j - 1)) := by
        refine List.ext_getElem (by simp) ?_
        intro k hk _
        rw [List.getElem_set]
        split
        case isTrue hjk => simp [← hjk]
        case isFalse hjk => simp [hother k (Ne.symm hjk)]
      have hlower : lower j ((List.range n).map count)
          = ((List.range n).map (Function.update count j (count j - 1)), decide (count j - 1 = 0)) := by
        rw [← hset]
        refine lower_of_pos ?_
        rw [List.getElem?_map, List.getElem?_range hlt, Option.map_some, Nat.sub_add_cancel hcount]
      have hne : ∀ k ∈ js, k ≠ j := fun k hk hkj => hj (hkj ▸ hk)
      rw [release, hlower, ih hnodup ?_, Prod.mk.injEq]
      · constructor
        · refine List.map_congr_left ?_
          intro k _
          by_cases hk : k = j
          · subst hk
            simp [hj]
          · simp [hk]
        · have hfilter : (js.filter fun k => Function.update count j (count j - 1) k = 1)
              = js.filter fun k => count k = 1 :=
            List.filter_congr fun k hk => by rw [hother k (hne k hk)]
          rw [hfilter]
          by_cases hone : count j = 1
          · simp [hone]
          · have hnot : ¬ count j - 1 = 0 := by omega
            simp [hone, hnot]
      · intro k hk
        rw [hother k (hne k hk)]
        exact hpos k (List.mem_cons_of_mem j hk)

/-! ## The loop -/

/-- **What the counters and the queue hold** while nodes are popped, the latest one first. -/
structure Queued (g : Digraph) (popped degrees queue : List Nat) : Prop where
  degrees_eq : degrees = g.nodes.map (g.waiting popped)
  nodup : (popped ++ queue).Nodup
  /-- Popped or queued are the nodes to which every edge comes from a popped node. -/
  mem_iff : ∀ j, j ∈ popped ++ queue ↔ j < g.size ∧ g.waiting popped j = 0
  /-- A node is popped after those that point to it. -/
  precedes : ∀ i j, (i, j) ∈ g.edges → j ∈ popped → Precedes popped j i

/-- In the loop that starts with these counters and this queue the counter of a node is lowered, at a time
    when the counters stand as given last. -/
inductive Lowers (g : Digraph) : List Nat → List Nat → Nat → List Nat → Prop
  | now {degrees queue : List Nat} {i j : Nat} {before after : List Nat}
      (hsuccessors : g.successors i = before ++ j :: after) :
      Lowers g degrees (i :: queue) j (release degrees queue before).1
  | later {degrees queue : List Nat} {i j : Nat} {counters : List Nat}
      (h : Lowers g (release degrees queue (g.successors i)).1
        (release degrees queue (g.successors i)).2 j counters) :
      Lowers g degrees (i :: queue) j counters

section Loop

variable (hg : g.Closed) (hedges : g.edges.Nodup)

include hedges in
theorem nodup_successors (i : Nat) : (g.successors i).Nodup := by
  rw [successors, List.nodup_reverse]
  refine (hedges.filter _).map_on ?_
  rintro ⟨a, b⟩ ha ⟨a', b'⟩ ha' rfl
  have hi := of_decide_eq_true (List.mem_filter.mp ha).2
  have hi' := of_decide_eq_true (List.mem_filter.mp ha').2
  rw [show a = i from hi, show a' = i from hi']

namespace Queued

/-- The loop starts with the nodes without incoming edges. -/
theorem start (g : Digraph) :
    g.Queued [] (g.nodes.map g.inDegree) (g.nodes.filter fun i => g.inDegree i = 0) where
  degrees_eq := List.map_congr_left fun j _ => (waiting_nil g j).symm
  nodup := List.nodup_range.filter _
  mem_iff j := by
    rw [List.nil_append, List.mem_filter, nodes, List.mem_range, decide_eq_true_eq, waiting_nil]
  precedes _ _ _ hj := absurd hj List.not_mem_nil

theorem not_mem (h : g.Queued popped degrees (i :: queue)) : i ∉ popped :=
  fun hi => (List.nodup_append.mp h.nodup).2.2 i hi i (List.mem_cons_self ..) rfl

/-- An edge from the node that is popped still counts. -/
theorem waiting_pos (h : g.Queued popped degrees (i :: queue)) (he : (i, j) ∈ g.edges) :
    0 < g.waiting popped j := by
  refine Nat.pos_of_ne_zero ?_
  intro hzero
  exact h.not_mem (waiting_eq_zero_iff.mp hzero i he)

include hg hedges in
/-- **The counters while a node is popped**, when it has released some of its successors. -/
theorem release_eq_of_sublist (h : g.Queued popped degrees (i :: queue)) {js : List Nat}
    (hjs : js.Sublist (g.successors i)) :
    release degrees queue js
      = (g.nodes.map fun j => if j ∈ js then g.waiting popped j - 1 else g.waiting popped j,
        queue ++ js.filter fun j => g.waiting popped j = 1) := by
  rw [h.degrees_eq]
  refine release_eq ((nodup_successors hedges i).sublist hjs) ?_
  intro j hj
  have he := mem_successors.mp (hjs.subset hj)
  exact ⟨(hg _ he).2, h.waiting_pos he⟩

include hg hedges in
/-- **One pop keeps what the counters and the queue hold.** -/
theorem step (h : g.Queued popped degrees (i :: queue)) :
    g.Queued (i :: popped) (release degrees queue (g.successors i)).1
      (release degrees queue (g.successors i)).2 := by
  have hwaiting := waiting_cons_eq hedges h.not_mem
  have hmem : ∀ j, j ∈ i :: popped ↔ j = i ∨ j ∈ popped := fun j => List.mem_cons
  have hi := (h.mem_iff i).mp (List.mem_append_right _ (List.mem_cons_self ..))
  rw [release_eq_of_sublist hg hedges h (List.Sublist.refl _)]
  constructor
  case degrees_eq =>
    refine List.map_congr_left ?_
    intro j _
    rw [hwaiting j]
    simp only [mem_successors]
  case nodup =>
    have hmoved : (i :: popped ++ queue).Perm (popped ++ i :: queue) := List.perm_middle.symm
    rw [← List.append_assoc]
    refine List.Nodup.append (hmoved.nodup_iff.mpr h.nodup) ((nodup_successors hedges i).filter _) ?_
    -- what is queued now had an edge that still counted
    intro j hold hnew
    obtain ⟨-, hone⟩ := List.mem_filter.mp hnew
    have hzero := ((h.mem_iff j).mp (hmoved.mem_iff.mp hold)).2
    rw [of_decide_eq_true hone] at hzero
    exact Nat.one_ne_zero hzero
  case mem_iff =>
    intro j
    have hold : j ∈ i :: popped ++ queue ↔ j < g.size ∧ g.waiting popped j = 0 :=
      List.perm_middle.symm.mem_iff.trans (h.mem_iff j)
    rw [← List.append_assoc, List.mem_append, hold, List.mem_filter, mem_successors, decide_eq_true_eq,
      hwaiting j]
    by_cases he : (i, j) ∈ g.edges
    · have hpos := h.waiting_pos he
      have hlt := (hg _ he).2
      simp only [he, if_true, true_and]
      omega
    · simp [he]
  case precedes =>
    intro k j he hj
    rcases List.mem_cons.mp hj with rfl | hj
    · exact precedes_cons.mpr (Or.inl ⟨rfl, waiting_eq_zero_iff.mp hi.2 k he⟩)
    · exact precedes_cons.mpr (Or.inr (h.precedes k j he hj))

include hg hedges in
/-- **The loop keeps it to the end**, when the queue is empty. -/
theorem run (h : g.Queued popped degrees queue) :
    ∃ last, g.Queued ((g.popFrom degrees queue).reverse ++ popped) last [] := by
  induction degrees, queue using popFrom.induct g generalizing popped with
  | case1 degrees =>
      rw [popFrom, List.reverse_nil, List.nil_append]
      exact ⟨degrees, h⟩
  | case2 degrees i queue ih =>
      rw [popFrom, List.reverse_cons, List.append_assoc]
      exact ih (step hg hedges h)

include hg hedges in
/-- **No counter is lowered below zero.** -/
theorem pos_of_lowers {counters : List Nat} (hlowers : g.Lowers degrees queue j counters)
    (h : g.Queued popped degrees queue) : ∃ d, counters[j]? = some d ∧ 0 < d := by
  induction hlowers generalizing popped with
  | @now degrees queue i j before after hsuccessors =>
      have hj : (i, j) ∈ g.edges := by
        rw [← mem_successors, hsuccessors]
        exact List.mem_append_right _ (List.mem_cons_self ..)
      have hbefore : before.Sublist (g.successors i) := by
        rw [hsuccessors]
        exact List.sublist_append_left ..
      -- the node was not released before, since no successor is repeated
      have hnot : j ∉ before := by
        have hnodup := nodup_successors hedges i
        rw [hsuccessors] at hnodup
        exact fun hmem => (List.nodup_append.mp hnodup).2.2 j hmem j (List.mem_cons_self ..) rfl
      refine ⟨g.waiting popped j, ?_, h.waiting_pos hj⟩
      rw [release_eq_of_sublist hg hedges h hbefore, List.getElem?_map, nodes,
        List.getElem?_range (hg _ hj).2, Option.map_some, if_neg hnot]
  | later _ ih => exact ih (step hg hedges h)

end Queued

/-! ## What is popped -/

include hg hedges in
theorem queued_popOrder : ∃ last, g.Queued g.popOrder.reverse last [] := by
  have hrun := Queued.run hg hedges (Queued.start g)
  rwa [List.append_nil] at hrun

include hg hedges in
theorem nodup_popOrder : g.popOrder.Nodup := by
  obtain ⟨_, hqueued⟩ := queued_popOrder hg hedges
  have hnodup := hqueued.nodup
  rwa [List.append_nil, List.nodup_reverse] at hnodup

include hg hedges in
/-- **A node is popped** if and only if all nodes that point to it are. -/
theorem mem_popOrder_iff : j ∈ g.popOrder ↔ j < g.size ∧ ∀ i, (i, j) ∈ g.edges → i ∈ g.popOrder := by
  obtain ⟨_, hqueued⟩ := queued_popOrder hg hedges
  have hmem := hqueued.mem_iff j
  rw [List.append_nil, List.mem_reverse, waiting_eq_zero_iff] at hmem
  simpa only [List.mem_reverse] using hmem

include hg hedges in
/-- **A node is popped after those that point to it.** -/
theorem precedes_popOrder (he : (i, j) ∈ g.edges) (hj : j ∈ g.popOrder) : Precedes g.popOrder.reverse j i := by
  obtain ⟨_, hqueued⟩ := queued_popOrder hg hedges
  exact hqueued.precedes i j he (List.mem_reverse.mpr hj)

include hg hedges in
/-- What reaches a popped node was popped before it. -/
theorem Reaches.precedes_popOrder (h : g.Reaches i j) (hj : j ∈ g.popOrder) :
    i ∈ g.popOrder ∧ (i = j ∨ Precedes g.popOrder.reverse j i) := by
  induction h with
  | refl => exact ⟨hj, Or.inl rfl⟩
  | @step i k j he _ ih =>
      obtain ⟨hk, hkj⟩ := ih hj
      have hki := Digraph.precedes_popOrder hg hedges he hk
      refine ⟨List.mem_reverse.mp hki.right_mem, Or.inr ?_⟩
      rcases hkj with rfl | hjk
      · exact hki
      · exact hjk.trans (List.nodup_reverse.mpr (nodup_popOrder hg hedges)) hki

include hg hedges in
/-- **No node on a cycle is popped.** -/
theorem not_mem_popOrder_of_onCycle (h : g.OnCycle i) : i ∉ g.popOrder := by
  have hnodup := List.nodup_reverse.mpr (nodup_popOrder hg hedges)
  intro hi
  rcases h with ⟨j, hji, hij, hback⟩ | hself
  · obtain ⟨hj, hbefore⟩ := hback.precedes_popOrder hg hedges hi
    obtain ⟨-, hafter⟩ := hij.precedes_popOrder hg hedges hj
    exact (hbefore.resolve_left hji).asymm hnodup (hafter.resolve_left (Ne.symm hji))
  · exact (Digraph.precedes_popOrder hg hedges hself hi).ne hnodup rfl

/-- A node on a circular path lies on a cycle. -/
theorem onCycle_of_edge (he : (i, j) ∈ g.edges) (h : g.Reaches j i) : g.OnCycle i := by
  by_cases hij : j = i
  · exact Or.inr (hij ▸ he)
  · exact Or.inl ⟨j, hij, .edge he, h⟩

/-- **Nodes that are pointed to from among themselves hold a cycle**: a path back along the edges comes to
    one of them again. -/
theorem exists_onCycle {p : Nat → Prop} (hsize : ∀ j, p j → j < g.size)
    (hp : ∀ j, p j → ∃ i, (i, j) ∈ g.edges ∧ p i) (hj : p j) : ∃ i, p i ∧ g.OnCycle i ∧ g.Reaches i j := by
  -- otherwise longer and longer paths to the node would not end
  by_contra hnone
  push Not at hnone
  let before : { i // p i ∧ g.Reaches i j } → { i // p i ∧ g.Reaches i j } → Prop := fun a b =>
    ∃ k, (a.1, k) ∈ g.edges ∧ g.Reaches k b.1
  have hfinite : Finite { i // p i ∧ g.Reaches i j } :=
    ((Set.finite_lt_nat g.size).subset fun i hi => hsize i hi.1).to_subtype
  have htrans : IsTrans _ before := by
    refine ⟨?_⟩
    rintro a b c ⟨k, hk, hkb⟩ ⟨l, hl, hlc⟩
    exact ⟨k, hk, hkb.trans (.step hl hlc)⟩
  have hirrefl : Std.Irrefl before := by
    refine ⟨?_⟩
    rintro ⟨i, hi, hij⟩ ⟨k, hk, hki⟩
    exact hnone i hi (onCycle_of_edge hk hki) hij
  obtain ⟨⟨m, hm, hmj⟩, -, hleast⟩ :=
    (Finite.wellFounded_of_trans_of_irrefl before).has_min Set.univ ⟨⟨j, hj, .refl j⟩, trivial⟩
  obtain ⟨i, he, hi⟩ := hp m hm
  exact hleast ⟨i, hi, .step he hmj⟩ trivial ⟨m, he, .refl m⟩

include hg hedges in
/-- **Never popped are the nodes that a node on a cycle reaches.** -/
theorem not_mem_popOrder_iff (hj : j < g.size) :
    j ∉ g.popOrder ↔ ∃ i, i < g.size ∧ g.OnCycle i ∧ g.Reaches i j := by
  constructor
  · intro hnot
    have hpredecessor : ∀ j, (j < g.size ∧ j ∉ g.popOrder) →
        ∃ i, (i, j) ∈ g.edges ∧ i < g.size ∧ i ∉ g.popOrder := by
      rintro k ⟨hk, hknot⟩
      rw [mem_popOrder_iff hg hedges] at hknot
      push Not at hknot
      obtain ⟨i, he, hi⟩ := hknot hk
      exact ⟨i, he, (hg _ he).1, hi⟩
    obtain ⟨i, ⟨hi, -⟩, hcycle, hreaches⟩ := exists_onCycle (fun _ h => h.1) hpredecessor ⟨hj, hnot⟩
    exact ⟨i, hi, hcycle, hreaches⟩
  · rintro ⟨i, -, hcycle, hreaches⟩ hpopped
    exact not_mem_popOrder_of_onCycle hg hedges hcycle (hreaches.precedes_popOrder hg hedges hpopped).1

/-- The nodes that are never popped, in node order. -/
def rest (g : Digraph) : List Nat := g.nodes.filter fun i => !g.popOrder.contains i

theorem order_eq (g : Digraph) : g.order = g.popOrder.reverse ++ g.rest := rfl

theorem mem_rest_iff : i ∈ g.rest ↔ i < g.size ∧ i ∉ g.popOrder := by
  rw [rest, List.mem_filter, nodes, List.mem_range, Bool.not_eq_true', ← Bool.not_eq_true,
    List.contains_iff_mem]

include hg hedges in
/-- **The order lists every node once.** -/
theorem order_perm : g.order.Perm g.nodes := by
  have hrest : g.rest.Nodup := List.nodup_range.filter _
  have hnodup : g.order.Nodup := by
    refine List.Nodup.append (List.nodup_reverse.mpr (nodup_popOrder hg hedges)) hrest ?_
    intro i hi hirest
    exact (mem_rest_iff.mp hirest).2 (List.mem_reverse.mp hi)
  refine (List.perm_ext_iff_of_nodup hnodup List.nodup_range).mpr ?_
  intro i
  rw [order_eq, List.mem_append, List.mem_reverse, mem_rest_iff, List.mem_range]
  constructor
  · rintro (hi | hi)
    · exact ((mem_popOrder_iff hg hedges).mp hi).1
    · exact hi.1
  · intro hi
    by_cases hpopped : i ∈ g.popOrder
    · exact Or.inl hpopped
    · exact Or.inr ⟨hi, hpopped⟩

end Loop

end StLint.Digraph

import StLint.Collection.Basic

/-!
# Directed graphs on numbered nodes

The nodes are the numbers below `size`; edges are kept once each, in the order of their first
occurrence.

* `Reaches` — a path along edges; `explore` computes the nodes that one node reaches.
* `components` — the strongly connected components.
* `cyclesOf`, `cycles` — those that hold a cycle, sorted; the order in which the components were
  listed does not count.
* `popOrder` — the nodes in the order in which they become free of incoming edges; reversed, it puts
  every node **after those it points to**, and `order` adds the nodes that never become free.
-/

namespace StLint

/-- A directed graph on the numbers below `size`. -/
structure Digraph where
  size : Nat
  edges : List (Nat × Nat)
  deriving DecidableEq, Repr

namespace Digraph

/-- The graph of edges that may repeat. -/
def ofEdges (size : Nat) (edges : List (Nat × Nat)) : Digraph := ⟨size, firstBy id edges⟩

/-- The nodes of a graph. -/
def nodes (g : Digraph) : List Nat := List.range g.size

/-- The nodes that a node points to, the latest edge first. -/
def successors (g : Digraph) (i : Nat) : List Nat :=
  ((g.edges.filter (·.1 = i)).map Prod.snd).reverse

/-- The number of edges that point to a node. -/
def inDegree (g : Digraph) (i : Nat) : Nat := g.edges.countP (·.2 = i)

/-! ## Reachability -/

/-- A path of edges, possibly empty. -/
inductive Reaches (g : Digraph) : Nat → Nat → Prop where
  | refl (i : Nat) : Reaches g i i
  | step {i j k : Nat} : (i, j) ∈ g.edges → Reaches g j k → Reaches g i k

/-- The nodes of `unseen` that are met from the nodes of `work`. -/
def exploreFrom (g : Digraph) (unseen : List Nat) : List Nat → List Nat
  | [] => []
  | i :: work =>
    if _h : i ∈ unseen then i :: exploreFrom g (unseen.erase i) (g.successors i ++ work)
    else exploreFrom g unseen work
termination_by work => (unseen.length, work.length)
decreasing_by
  · have hp := List.length_pos_of_mem _h
    have he := List.length_erase_of_mem _h
    exact Prod.Lex.left _ _ (by omega)
  · exact Prod.Lex.right _ (by simp)

/-- The nodes that a node reaches. -/
def explore (g : Digraph) (i : Nat) : List Nat := g.exploreFrom g.nodes [i]

/-! ## Cycles -/

/-- Whether `i` and `j` reach each other, given what each node reaches. -/
def mutual? (reached : List (List Nat)) (i j : Nat) : Bool :=
  ((reached[i]?).getD []).contains j && ((reached[j]?).getD []).contains i

/-- The strongly connected components: of each node that is the first one of its component, the
    nodes that it reaches and that reach it. -/
def components (g : Digraph) : List (List Nat) :=
  let reached := g.nodes.map g.explore
  g.nodes.filterMap fun i =>
    let members := g.nodes.filter (mutual? reached i)
    if members.head? = some i then some members else none

/-- A component holds a cycle: it has more than one node, or a node with an edge to itself. -/
def holdsCycle (g : Digraph) (c : List Nat) : Bool :=
  1 < c.length || c.any fun i => g.edges.contains (i, i)

/-- The components that hold a cycle, from a list of all components: each is sorted, and then they
    are sorted by their members, first to last. -/
def cyclesOf (g : Digraph) (components : List (List Nat)) : List (List Nat) :=
  ((components.filter g.holdsCycle).map fun c => c.mergeSort fun i j => i ≤ j).mergeSort
    fun c d => !d.lex c

/-- The components that hold a cycle. -/
def cycles (g : Digraph) : List (List Nat) := g.cyclesOf g.components

/-! ## Order -/

/-- One less at a position, unless it is zero already; and whether it became zero. -/
def lower : Nat → List Nat → List Nat × Bool
  | _, [] => ([], false)
  | 0, 0 :: ds => (0 :: ds, false)
  | 0, (d + 1) :: ds => (d :: ds, d = 0)
  | i + 1, d :: ds => (d :: (lower i ds).1, (lower i ds).2)

/-- Lowers the counters of nodes in turn and queues each node whose counter becomes zero. -/
def release (degrees queue : List Nat) : List Nat → List Nat × List Nat
  | [] => (degrees, queue)
  | j :: js =>
    release (lower j degrees).1 (if (lower j degrees).2 then queue ++ [j] else queue) js

theorem total_lower (i : Nat) (ds : List Nat) :
    total (lower i ds).1 + (if (lower i ds).2 then 1 else 0) ≤ total ds := by
  induction i, ds using lower.induct with
  | case1 => simp [lower]
  | case2 => simp [lower]
  | case3 d ds =>
      simp only [lower, total_cons, decide_eq_true_eq]
      by_cases hd : d = 0
      · rw [if_pos hd]; omega
      · rw [if_neg hd]; omega
  | case4 i d ds ih => simp only [lower, total_cons]; omega

theorem total_release (degrees queue js : List Nat) :
    total (release degrees queue js).1 + (release degrees queue js).2.length ≤
      total degrees + queue.length := by
  induction js generalizing degrees queue with
  | nil => exact Nat.le_refl _
  | cons j js ih =>
      simp only [release]
      refine Nat.le_trans (ih _ _) ?_
      have h := total_lower j degrees
      split at h
      · rename_i hz
        simp only [hz, if_true, List.length_append, List.length_singleton]
        omega
      · rename_i hz
        simp only [hz, Bool.false_eq_true, if_false]
        omega

/-- The nodes in the order in which they leave the queue. -/
def popFrom (g : Digraph) (degrees : List Nat) : List Nat → List Nat
  | [] => []
  | i :: queue =>
    i :: popFrom g (release degrees queue (g.successors i)).1
      (release degrees queue (g.successors i)).2
termination_by queue => total degrees + queue.length
decreasing_by
  have h := total_release degrees queue (g.successors i)
  simp only [List.length_cons]
  omega

/-- The nodes without incoming edges, then those freed by them, and so on. -/
def popOrder (g : Digraph) : List Nat :=
  let degrees := g.nodes.map g.inDegree
  g.popFrom degrees (g.nodes.filter fun i => g.inDegree i = 0)

/-- The popped nodes last to first, then the nodes that were never popped. -/
def order (g : Digraph) : List Nat :=
  let popped := g.popOrder
  popped.reverse ++ g.nodes.filter fun i => !popped.contains i

end Digraph

end StLint

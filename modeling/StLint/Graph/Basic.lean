import StLint.Graph.Digraph
import StLint.Pou.Kind

/-!
# Dependency graphs

Nodes and edges are named by ids; **an edge points from a unit to what it depends on**. An id that
several nodes share stands for the last of them, and an edge with an unknown end is passed over by
the queries on cycles and order.
-/

namespace StLint

/-- What a node of a graph stands for. -/
inductive GraphNodeKind where
  | program
  | functionBlock
  | function
  | file
  /-- A dependency outside the project. -/
  | external
  deriving DecidableEq, Repr, Inhabited

/-- The kind of node that a unit is. -/
def GraphNodeKind.ofUnit : UnitKind → GraphNodeKind
  | .program => .program
  | .functionBlock => .functionBlock
  | .function => .function

/-- How a unit depends on another. -/
inductive EdgeKind where
  | dependsOn
  /-- Through an instance of a function block. -/
  | instanceOf
  /-- By a call of a function. -/
  | calls
  deriving DecidableEq, Repr, Inhabited

/-- A node. -/
structure GraphNode where
  id : String
  name : String
  kind : GraphNodeKind
  deriving DecidableEq, Repr, Inhabited

/-- An edge. -/
structure GraphEdge where
  source : String
  target : String
  kind : EdgeKind
  deriving DecidableEq, Repr, Inhabited

/-- Who depends on whom. -/
structure DependencyGraph where
  nodes : List GraphNode
  edges : List GraphEdge
  deriving DecidableEq, Repr, Inhabited

namespace DependencyGraph

/-- The first node with an id. -/
def node? (g : DependencyGraph) (id : String) : Option GraphNode := g.nodes.find? (·.id = id)

/-- The ids that a node depends on, an edge at a time. -/
def dependencies (g : DependencyGraph) (id : String) : List String :=
  (g.edges.filter (·.source = id)).map (·.target)

/-- The ids that depend on a node, an edge at a time. -/
def dependents (g : DependencyGraph) (id : String) : List String :=
  (g.edges.filter (·.target = id)).map (·.source)

/-- The position of the last element that satisfies a test. -/
def lastIndex? (p : α → Bool) : List α → Option Nat
  | [] => none
  | a :: as => match lastIndex? p as with
    | some i => some (i + 1)
    | none => if p a then some 0 else none

/-- The position of the node that an id stands for. -/
def position? (g : DependencyGraph) (id : String) : Option Nat :=
  lastIndex? (fun n => n.id = id) g.nodes

/-- An edge between positions, if both its ends are known. -/
def edgePositions? (g : DependencyGraph) (e : GraphEdge) : Option (Nat × Nat) :=
  match g.position? e.source, g.position? e.target with
  | some i, some j => some (i, j)
  | _, _ => none

/-- The graph on the positions of the nodes. -/
def digraph (g : DependencyGraph) : Digraph :=
  .ofEdges g.nodes.length (g.edges.filterMap g.edgePositions?)

/-- The name of the node at a position. -/
def nameAt (g : DependencyGraph) (i : Nat) : String := (g.nodes[i]?.map GraphNode.name).getD ""

/-- The names of the nodes of each cycle, from a list of the components between positions. -/
def cyclesOf (g : DependencyGraph) (components : List (List Nat)) : List (List String) :=
  (g.digraph.cyclesOf components).map (·.map g.nameAt)

/-- The names of the nodes of each cycle. -/
def cycles (g : DependencyGraph) : List (List String) := g.cyclesOf g.digraph.components

/-- The graph has a cycle. -/
def hasCycles (g : DependencyGraph) : Bool := !g.cycles.isEmpty

/-- The names of the nodes, what a node depends on before it. The nodes that wait for a cycle come
    last. -/
def topologicalOrder (g : DependencyGraph) : List String := g.digraph.order.map g.nameAt

end DependencyGraph

end StLint

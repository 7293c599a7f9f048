import StLint.Graph.Basic
import StLint.Json.Decode

/-!
# Dependency graphs as data
-/

namespace StLint

open Json

namespace GraphNodeKind

/-- Names in data. -/
def names : List (String × GraphNodeKind) :=
  [("Program", program), ("FunctionBlock", functionBlock), ("Function", function), ("File", file),
    ("External", external)]

/-- The name of a kind in data. -/
def name (k : GraphNodeKind) : String := ((names.find? fun n => n.2 = k).map Prod.fst).getD ""

end GraphNodeKind

namespace EdgeKind

/-- Names in data. -/
def names : List (String × EdgeKind) :=
  [("DependsOn", dependsOn), ("InstanceOf", instanceOf), ("Calls", calls)]

/-- The name of a kind in data. -/
def name (k : EdgeKind) : String := ((names.find? fun n => n.2 = k).map Prod.fst).getD ""

end EdgeKind

namespace GraphNode

/-- Writes a node. -/
def toJson (n : GraphNode) : Json :=
  .obj [("id", .str n.id), ("name", .str n.name), ("kind", .str n.kind.name)]

/-- Reads a node. -/
def ofJson? (v : Json) : Option GraphNode := do
  let r ← record? ["id", "name", "kind"] v
  return {
    id := ← (r "id").required string?
    name := ← (r "name").required string?
    kind := ← (r "kind").required (variant? GraphNodeKind.names) }

end GraphNode

namespace GraphEdge

/-- Writes an edge. -/
def toJson (e : GraphEdge) : Json :=
  .obj [("source", .str e.source), ("target", .str e.target), ("kind", .str e.kind.name)]

/-- Reads an edge. -/
def ofJson? (v : Json) : Option GraphEdge := do
  let r ← record? ["source", "target", "kind"] v
  return {
    source := ← (r "source").required string?
    target := ← (r "target").required string?
    kind := ← (r "kind").required (variant? EdgeKind.names) }

end GraphEdge

namespace DependencyGraph

/-- Writes a graph. -/
def toJson (g : DependencyGraph) : Json :=
  .obj [("nodes", .ofList GraphNode.toJson g.nodes), ("edges", .ofList GraphEdge.toJson g.edges)]

/-- Reads a graph. -/
def ofJson? (v : Json) : Option DependencyGraph := do
  let r ← record? ["nodes", "edges"] v
  return {
    nodes := ← (r "nodes").required (list? GraphNode.ofJson?)
    edges := ← (r "edges").required (list? GraphEdge.ofJson?) }

end DependencyGraph

end StLint

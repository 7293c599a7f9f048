import StLint.Graph.Basic
import StLint.Pou.Dependencies

/-!
# Building the graph of a project

Units are named without regard to case; of several units with one name the first counts.

* `DependencyGraph.ofUnits` — a node for each unit, and one for each name that no unit has.
* `DependencyGraph.ofFiles` — a node for each file, with an edge where a unit of one file depends
  on a unit of another.
-/

namespace StLint

open Text

/-- What the nodes of a graph stand for. -/
inductive Granularity where
  | unit
  | file
  deriving DecidableEq, Repr, Inhabited

/-- The id of a unit or of a name outside the project. -/
def unitId (name : String) : String := "unit:" ++ String.ofList (lower name.toList)

/-- The id of a file. -/
def fileId (name : String) : String := "file:" ++ name

/-- The unit of a project with a name, in any case. -/
def unitNamed? (units : List Pou) (name : String) : Option Pou :=
  units.find? fun u => eqIgnoreCase u.name.toList name.toList

/-- The file that a unit came from; a unit without one stands for itself. -/
def Pou.file (u : Pou) : String := u.origin.getD u.name

/-- Each unit of a project with each of its dependencies. -/
def dependencyPairs (units : List Pou) : List (Pou × String) :=
  units.flatMap fun u => u.dependencies.map fun d => (u, d)

/-- How a unit depends on a name. -/
def edgeKind (units : List Pou) (u : Pou) (dependency : String) : EdgeKind :=
  match (unitNamed? units dependency).map Pou.kind with
  | some .function => .calls
  | some .functionBlock =>
    if u.instances.any fun b => eqIgnoreCase b.typeName.toList dependency.toList then .instanceOf
    else .dependsOn
  | _ => .dependsOn

namespace DependencyGraph

/-- The node of a unit. -/
def unitNode (u : Pou) : GraphNode := ⟨unitId u.name, u.name, .ofUnit u.kind⟩

/-- The node of a name that no unit has. -/
def externalNode (name : String) : GraphNode := ⟨unitId name, name, .external⟩

/-- The graph of the units of a project. -/
def ofUnits (units : List Pou) : DependencyGraph where
  nodes :=
    firstBy GraphNode.id (units.map unitNode) ++
    firstBy GraphNode.id
      (((dependencyPairs units).filter fun p => (unitNamed? units p.2).isNone).map fun p =>
        externalNode p.2)
  edges := (dependencyPairs units).map fun (u, d) => ⟨unitId u.name, unitId d, edgeKind units u d⟩

/-- The node of the file of a unit. -/
def fileNode (u : Pou) : GraphNode := ⟨fileId u.file, u.file, .file⟩

/-- The files of a unit and of what it depends on, where these differ. -/
def filePair? (units : List Pou) (u : Pou) (dependency : String) : Option (String × String) :=
  (unitNamed? units dependency).bind fun t =>
    if t.file = u.file then none else some (u.file, t.file)

/-- Pairs of files are sorted by the first, then by the second. -/
def pairBefore (a b : String × String) : Bool := a.1 < b.1 || (a.1 = b.1 && a.2 < b.2)

/-- The graph of the files of a project. -/
def ofFiles (units : List Pou) : DependencyGraph where
  nodes := firstBy GraphNode.id (units.map fileNode)
  edges :=
    (sortOnce pairBefore ((dependencyPairs units).filterMap fun (u, d) => filePair? units u d)).map
      fun (a, b) => ⟨fileId a, fileId b, .dependsOn⟩

/-- The graph of a project. -/
def build (units : List Pou) : Granularity → DependencyGraph
  | .unit => ofUnits units
  | .file => ofFiles units

end DependencyGraph

end StLint

/-!
# The statement tree

A body is a tree of nodes: a root, under it the statements in source order, and under each
statement its expression. Blocks are **not nested** in the tree; where a statement stands is in
its scope label (`Main/FOR@5/IF@7`).

* `Node.preorder` — the traversal, by recursion.
* `Node.Walk` — the same traversal as an iterator over a stack of pending nodes.
-/

namespace StLint

/-- What a node stands for. -/
inductive NodeKind where
  | root
  | assignment
  | ifStatement
  | forLoop
  | whileLoop
  | repeatLoop
  | caseStatement
  | functionCall
  | variable
  | literal
  | binaryExpression
  | returnStatement
  deriving DecidableEq, Repr, Inhabited

namespace NodeKind

/-- A loop statement. -/
def isLoop : NodeKind → Bool
  | forLoop | whileLoop | repeatLoop => true
  | _ => false

end NodeKind

/-- A node of the tree. -/
structure Node where
  kind : NodeKind
  name : Option String
  /-- The source text that the node was built from: a condition, bounds, an operator. -/
  value : Option String
  children : List Node
  /-- Line of the source, counted from 1; the root has 0. -/
  line : Nat
  scope : String
  deriving Repr, Inhabited

namespace Node

/-- A node without name, value and children. -/
def leaf (kind : NodeKind) (line : Nat) (scope : String) : Node :=
  { kind, name := none, value := none, children := [], line, scope }

mutual

/-- The number of nodes of a tree. -/
def size : Node → Nat
  | ⟨_, _, _, children, _, _⟩ => sizeAll children + 1

/-- The number of nodes of several trees. -/
def sizeAll : List Node → Nat
  | [] => 0
  | n :: ns => size n + sizeAll ns

end

mutual

/-- A node, then the traversal of each of its children in order. -/
def preorder : Node → List Node
  | n@⟨_, _, _, children, _, _⟩ => n :: preorderAll children

/-- The traversals of several trees, one after the other. -/
def preorderAll : List Node → List Node
  | [] => []
  | n :: ns => preorder n ++ preorderAll ns

end

theorem size_eq (n : Node) : n.size = sizeAll n.children + 1 := by
  obtain ⟨_, _, _, _, _, _⟩ := n
  simp [size]

theorem sizeAll_append (ns ms : List Node) : sizeAll (ns ++ ms) = sizeAll ns + sizeAll ms := by
  induction ns with
  | nil => simp [sizeAll]
  | cons n ns ih => simp [sizeAll, ih, Nat.add_assoc]

/-- A traversal under way: the nodes that are still to be visited with all below them, next
    first. -/
structure Walk where
  pending : List Node

namespace Walk

/-- The traversal of one tree. -/
def start (n : Node) : Walk := ⟨[n]⟩

/-- The next node, after which its children come first. -/
def next? : Walk → Option (Node × Walk)
  | ⟨[]⟩ => none
  | ⟨n :: rest⟩ => some (n, ⟨n.children ++ rest⟩)

/-- All nodes of the traversal. -/
def toList : Walk → List Node
  | ⟨[]⟩ => []
  | ⟨n :: rest⟩ => n :: toList ⟨n.children ++ rest⟩
termination_by w => sizeAll w.pending
decreasing_by
  simp only [sizeAll_append, sizeAll, size_eq]
  omega

end Walk

/-- The nodes of a tree in source order. -/
def walk (n : Node) : List Node := (Walk.start n).toList

/-- The nodes of one kind in source order. -/
def findAll (n : Node) (kind : NodeKind) : List Node := n.walk.filter (·.kind = kind)

/-- The number of blocks that the scope label names below the unit. -/
def nestingDepth (n : Node) : Nat := n.scope.toList.count '/'

end Node

end StLint

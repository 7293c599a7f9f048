import StLint.Proofs.Expression.Form
import StLint.Proofs.Pou.Tree

/-!
# The shape of a tree

The checks look at the children of a node by its kind: the two sides of an operator, what is
assigned, the condition of a branch. **Every node has the children that its kind promises**, so none
of these is ever missing.

* `Node.HasShape` — what the kind of a node says about its children and its value.
* `Node.Shaped` — every node of a tree has its shape.
* `shaped_parseAt`, `shaped_call` — the trees of expressions.
-/

namespace StLint

namespace Node

/-- The children that the kind of a node promises, and the operator of an operator node. A root
    stands in no other tree. -/
def HasShape (n : Node) : Prop :=
  match n.kind with
  | .root => False
  | .variable | .literal | .returnStatement => n.children = []
  | .binaryExpression =>
    n.children.length = 2 ∧ ∃ op ∈ Expression.binaryOperators, n.value = some op
  | .assignment => n.children.length = 1
  | .functionCall => True
  | .ifStatement | .forLoop | .whileLoop | .repeatLoop | .caseStatement => n.children.length ≤ 1

/-- Every node of a tree has its shape. -/
def Shaped (n : Node) : Prop := ∀ m ∈ n.preorder, m.HasShape

/-- A node is shaped if it has its shape and its children are shaped. -/
theorem shaped_of_children {n : Node} (hn : n.HasShape) (hc : ∀ c ∈ n.children, c.Shaped) :
    n.Shaped := forall_mem_preorder hn hc

/-- Without children only the node itself counts. -/
theorem shaped_of_leaf {n : Node} (hn : n.HasShape) (hc : n.children = []) : n.Shaped := by
  refine shaped_of_children hn ?_
  intro c hcn
  rw [hc] at hcn
  exact nomatch hcn

/-- With one child that is shaped. -/
theorem shaped_of_child {n c : Node} (hn : n.HasShape) (hc : n.children = [c]) (hshaped : c.Shaped) :
    n.Shaped := by
  refine shaped_of_children hn ?_
  intro d hd
  rw [hc] at hd
  rw [List.mem_singleton.mp hd]
  exact hshaped

end Node

namespace Expression

open Text

namespace Place

/-- What is assigned is the one child of an assignment. -/
theorem shaped_assignment (p : Place) (name value : List Char) {child : Node}
    (h : child.Shaped) : (p.assignment name value child).Shaped :=
  Node.shaped_of_child rfl rfl h

theorem shaped_argument {p : Place} {parse : List Char → Node} (h : ∀ s, (parse s).Shaped)
    (arg : List Char) : (p.argument parse arg).Shaped :=
  argument_cases (fun param text t => shaped_assignment p param text (h t))
    (fun param t => shaped_assignment p param t (Node.shaped_of_leaf rfl rfl)) h arg

theorem shaped_call {p : Place} {parse : List Char → Node} (h : ∀ s, (parse s).Shaped)
    (name args : List Char) : (p.call parse name args).Shaped :=
  Node.shaped_of_children trivial (forall_mem_call (shaped_argument h) name args)

theorem shaped_binary {p : Place} {op : String} {l r : Node} (hop : op ∈ binaryOperators)
    (hl : l.Shaped) (hr : r.Shaped) : (p.binary op l r).Shaped :=
  Node.shaped_of_children ⟨rfl, op, hop, rfl⟩ (forall_mem_binary hl hr op)

end Place

/-- **The tree of an expression has its shape** at every node. -/
theorem shaped_parseAt (p : Place) (levels : Nat) (s : List Char) : (parseAt p levels s).Shaped := by
  refine parseAt_induction (motive := fun _ n => n.Shaped) p ?literal ?name ?whole ?call ?binary
    levels s
  case literal => exact fun _ _ => Node.shaped_of_leaf rfl rfl
  case name => exact fun _ _ => Node.shaped_of_leaf rfl rfl
  case whole => exact fun _ => Node.shaped_of_leaf rfl rfl
  case call => exact fun _ name args _ _ h => Place.shaped_call h name args
  case binary =>
    intro s op left right l r hcut hl hr
    exact Place.shaped_binary (splitBinary?_eq_some hcut).1 hl hr

theorem shaped_parse (p : Place) (s : List Char) : (parse p s).Shaped := shaped_parseAt p maxDepth s

theorem shaped_call (p : Place) (name args : List Char) : (call p name args).Shaped :=
  Place.shaped_call (shaped_parseAt p (maxDepth - 1)) name args

end Expression

end StLint

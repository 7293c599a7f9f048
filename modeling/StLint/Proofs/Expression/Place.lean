import StLint.Proofs.Expression.Form
import StLint.Proofs.Pou.Tree

/-!
# Expressions and their place

The tree of an expression is built from its text alone; the line and the label are **copied into
every node**. So an expression that stands further down has the same tree, moved down.

* `Place.shift` — a place, moved down.
* `carries_parseAt`, `carries_call` — every node carries the place of the expression.
* `shift_parseAt`, `shift_call` — the tree of a moved expression is the moved tree.
-/

namespace StLint.Expression

open Text

namespace Place

/-- A place, moved down by `n` lines. -/
def shift (n : Nat) (p : Place) : Place := ⟨p.line + n, Node.shiftLabelText n p.scope⟩

variable {p : Place} {n : Nat}

/-- A node at a place moves with the place; only a root has no line. -/
theorem shift_node_mk (hp : 0 < p.line) (kind : NodeKind) (name value : Option String)
    (children : List Node) :
    Node.shift n { p.node kind with name := name, value := value, children := children }
      = { (p.shift n).node kind with
          name := name, value := value, children := children.map (Node.shift n) } := by
  show Node.shift n ⟨kind, name, value, children, p.line, p.scope⟩ = _
  rw [Node.shift_mk, if_neg (Nat.ne_of_gt hp)]
  rfl

theorem shift_node (hp : 0 < p.line) (kind : NodeKind) :
    Node.shift n (p.node kind) = (p.shift n).node kind :=
  shift_node_mk hp kind none none []

/-! ## Arguments and calls -/

/-- An argument moves with its place, if what it is made of does. -/
theorem shift_argument (hp : 0 < p.line) {parse parse' : List Char → Node}
    (h : ∀ s, Node.shift n (parse s) = parse' s) (arg : List Char) :
    Node.shift n (p.argument parse arg) = (p.shift n).argument parse' arg := by
  rw [argument, argument]
  cases cutTopLevel? ":=" arg with
  | some cut =>
      show Node.shift n (p.assignment _ _ (parse (trim cut.2))) = _
      rw [assignment, shift_node_mk hp, List.map_cons, h]
      rfl
  | none =>
      cases cutTopLevel? "=>" arg with
      | some cut =>
          show Node.shift n (p.assignment _ _ (p.nameNode (trim cut.2))) = _
          rw [assignment, shift_node_mk hp, List.map_cons, nameNode, shift_node_mk hp]
          rfl
      | none => exact h arg

theorem shift_call (hp : 0 < p.line) {parse parse' : List Char → Node}
    (h : ∀ s, Node.shift n (parse s) = parse' s) (name args : List Char) :
    Node.shift n (p.call parse name args) = (p.shift n).call parse' name args := by
  rw [call, call, shift_node_mk hp, List.map_map]
  rw [show Node.shift n ∘ p.argument parse = (p.shift n).argument parse' from
    funext fun arg => shift_argument hp h arg]

/-- An argument carries its place, if what it is made of does. -/
theorem carries_argument {parse : List Char → Node} (h : ∀ s, (parse s).Carries p.line p.scope)
    (arg : List Char) : (p.argument parse arg).Carries p.line p.scope := by
  have hassign : ∀ (name value : List Char) {child : Node}, child.Carries p.line p.scope →
      (p.assignment name value child).Carries p.line p.scope := by
    intro name value child hc
    exact Node.carries_of_children ⟨rfl, rfl⟩ (forall_mem_assignment hc name value)
  have htarget : ∀ t, (p.nameNode t).Carries p.line p.scope := by
    intro t
    exact Node.carries_of_children ⟨rfl, rfl⟩ fun c hc => nomatch hc
  exact argument_cases (fun param text t => hassign param text (h t))
    (fun param t => hassign param t (htarget t)) h arg

theorem carries_call {parse : List Char → Node} (h : ∀ s, (parse s).Carries p.line p.scope)
    (name args : List Char) : (p.call parse name args).Carries p.line p.scope :=
  Node.carries_of_children ⟨rfl, rfl⟩ (forall_mem_call (carries_argument h) name args)

end Place

/-! ## Expressions -/

/-- **What the tree of an expression can be**, the same at every place: one node, a call, or an
    operator between two expressions with one level less. -/
theorem parseAt_cases (levels : Nat) (s : List Char) :
    (∃ kind name value, ∀ p : Place,
      parseAt p levels s = { p.node kind with name := name, value := value }) ∨
    (∃ below name args, levels = below + 1 ∧ ∀ p : Place,
      parseAt p levels s = p.call (parseAt p below) name args) ∨
    (∃ below op left right, levels = below + 1 ∧ ∀ p : Place,
      parseAt p levels s = p.binary op (parseAt p below left) (parseAt p below right)) := by
  by_cases hl : Literal.isLiteral (trim s) = true
  · refine Or.inl ⟨.literal, none, some (String.ofList (trim s)), ?_⟩
    intro p
    rw [parseAt.eq_def]
    show (if Literal.isLiteral (trim s) = true then _ else _) = _
    rw [if_pos hl]
    rfl
  by_cases hq : isQualified (trim s) = true
  · refine Or.inl ⟨.variable, some (String.ofList (trim s)), none, ?_⟩
    intro p
    rw [parseAt.eq_def]
    show (if Literal.isLiteral (trim s) = true then _ else if isQualified (trim s) = true then _
      else _) = _
    rw [if_neg hl, if_pos hq]
    rfl
  let whole := some (String.ofList (trim s))
  cases levels with
  | zero =>
      refine Or.inl ⟨.variable, whole, whole, ?_⟩
      intro p
      rw [parseAt, if_neg hl, if_neg hq]
      rfl
  | succ below =>
      cases hc : splitUnitCall? (trim s) with
      | some call =>
          refine Or.inr (Or.inl ⟨below, call.1, call.2, rfl, ?_⟩)
          intro p
          rw [parseAt, if_neg hl, if_neg hq, hc]
      | none =>
          cases hb : splitBinary? (trim s) with
          | some cut =>
              refine Or.inr (Or.inr ⟨below, cut.1, cut.2.1, cut.2.2, rfl, ?_⟩)
              intro p
              rw [parseAt, if_neg hl, if_neg hq, hc, hb]
          | none =>
              refine Or.inl ⟨.variable, whole, whole, ?_⟩
              intro p
              rw [parseAt, if_neg hl, if_neg hq, hc, hb]
              rfl

variable {p : Place} {n : Nat}

/-- **The tree of a moved expression is the moved tree**, by induction on the levels left. -/
theorem shift_parseAt (hp : 0 < p.line) (levels : Nat) (s : List Char) :
    Node.shift n (parseAt p levels s) = parseAt (p.shift n) levels s := by
  -- a call and an operator leave one level less for what they are made of
  induction levels using Nat.strongRecOn generalizing s with
  | ind levels ih =>
      rcases parseAt_cases levels s with ⟨kind, name, value, h⟩ | ⟨below, name, args, rfl, h⟩ |
        ⟨below, op, left, right, rfl, h⟩
      · rw [h, h]
        exact Place.shift_node_mk hp kind name value []
      · rw [h, h]
        exact Place.shift_call hp (ih below (Nat.lt_succ_self below)) name args
      · have hb := ih below (Nat.lt_succ_self below)
        rw [h, h, Place.binary, Place.shift_node_mk hp, List.map_cons, List.map_cons, hb, hb]
        rfl

theorem shift_parse (hp : 0 < p.line) (s : List Char) :
    Node.shift n (parse p s) = parse (p.shift n) s :=
  shift_parseAt hp maxDepth s

theorem shift_call (hp : 0 < p.line) (name args : List Char) :
    Node.shift n (call p name args) = call (p.shift n) name args :=
  Place.shift_call hp (shift_parseAt hp (maxDepth - 1)) name args

/-- **Every node of an expression carries its place**, by induction over its forms. -/
theorem carries_parseAt (p : Place) (levels : Nat) (s : List Char) :
    (parseAt p levels s).Carries p.line p.scope := by
  have hleaf : ∀ n : Node, n.line = p.line ∧ n.scope = p.scope → n.children = [] →
      n.Carries p.line p.scope := by
    intro n hn hc
    refine Node.carries_of_children hn ?_
    intro c hm
    rw [hc] at hm
    exact nomatch hm
  refine parseAt_induction (motive := fun _ n => n.Carries p.line p.scope) p ?literal ?name ?whole
    ?call ?binary levels s
  case literal => exact fun _ _ => hleaf _ ⟨rfl, rfl⟩ rfl
  case name => exact fun _ _ => hleaf _ ⟨rfl, rfl⟩ rfl
  case whole => exact fun _ => hleaf _ ⟨rfl, rfl⟩ rfl
  case call => exact fun _ name args _ _ h => Place.carries_call h name args
  case binary =>
    intro s op left right l r _ hl hr
    refine Node.carries_of_children ⟨rfl, rfl⟩ ?_
    intro c hm
    rcases List.mem_cons.mp hm with rfl | hm
    · exact hl
    · rw [List.mem_singleton.mp hm]
      exact hr

theorem carries_parse (p : Place) (s : List Char) : (parse p s).Carries p.line p.scope :=
  carries_parseAt p maxDepth s

theorem carries_call (p : Place) (name args : List Char) :
    (call p name args).Carries p.line p.scope :=
  Place.carries_call (carries_parseAt p (maxDepth - 1)) name args

end StLint.Expression

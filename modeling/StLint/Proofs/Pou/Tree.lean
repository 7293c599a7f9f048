import Mathlib.Data.List.Basic
import StLint.Pou.Dependencies
import StLint.Pou.Segment
import StLint.Proofs.Pou.Label

/-!
# Trees, moved down

Moving a tree changes lines and labels and nothing else. So whatever is read off the kinds, names
and values of a tree is the same before and after, and **what a unit calls does not depend on where
it stands**.

* `Node.mem_preorder` — the nodes of a tree are the node itself and those below its children.
* `Node.Carries` — every node of a tree has one line and one label, as in an expression.
* `Node.shift_mk` — a move rewrites the line and the label of a node, and goes on below it.
* `Dependencies.ofBody_shift` — the dependencies of a moved body.
-/

namespace StLint

open Text

namespace Node

/-! ## The nodes of a tree -/

theorem preorder_eq (n : Node) : n.preorder = n :: preorderAll n.children := by
  obtain ⟨_, _, _, _, _, _⟩ := n
  rw [preorder]

theorem preorderAll_eq_flatMap (ns : List Node) : preorderAll ns = ns.flatMap preorder := by
  induction ns with
  | nil => rw [preorderAll, List.flatMap_nil]
  | cons n ns ih => rw [preorderAll, ih, List.flatMap_cons]

theorem mem_preorderAll {m : Node} {ns : List Node} :
    m ∈ preorderAll ns ↔ ∃ n ∈ ns, m ∈ n.preorder := by
  rw [preorderAll_eq_flatMap, List.mem_flatMap]

/-- The nodes of a tree are the node itself and those below its children. -/
theorem mem_preorder {m n : Node} : m ∈ n.preorder ↔ m = n ∨ ∃ c ∈ n.children, m ∈ c.preorder := by
  rw [preorder_eq, List.mem_cons, mem_preorderAll]

/-- What holds of a node and of all nodes below its children holds of its tree. -/
theorem forall_mem_preorder {P : Node → Prop} {n : Node} (hn : P n)
    (hc : ∀ c ∈ n.children, ∀ m ∈ c.preorder, P m) : ∀ m ∈ n.preorder, P m := by
  intro m hm
  rcases mem_preorder.mp hm with rfl | ⟨c, hcn, hm⟩
  · exact hn
  · exact hc c hcn m hm

theorem preorderAll_append (ns ms : List Node) :
    preorderAll (ns ++ ms) = preorderAll ns ++ preorderAll ms := by
  simp only [preorderAll_eq_flatMap, List.flatMap_append]

theorem preorderAll_singleton (n : Node) : preorderAll [n] = n.preorder := by
  rw [preorderAll_eq_flatMap, List.flatMap_singleton]

/-- A traversal under way visits the trees that are pending. -/
theorem Walk.toList_eq_preorderAll (w : Walk) : w.toList = preorderAll w.pending := by
  fun_induction Walk.toList w with
  | case1 => rw [preorderAll]
  | case2 n rest ih => rw [ih, preorderAll_append, preorderAll, preorder_eq, List.cons_append]

theorem walk_eq_preorder (n : Node) : n.walk = n.preorder := by
  rw [walk, Walk.toList_eq_preorderAll, Walk.start, preorderAll_singleton]

/-- Behind the root a traversal visits the trees below it. -/
theorem drop_one_walk (n : Node) : n.walk.drop 1 = preorderAll n.children := by
  rw [walk_eq_preorder, preorder_eq, List.drop_one, List.tail_cons]

/-- Every node of a tree has the same line and label. -/
def Carries (line : Nat) (scope : String) (n : Node) : Prop :=
  ∀ m ∈ n.preorder, m.line = line ∧ m.scope = scope

/-- A node carries a place if it has it and its children carry it. -/
theorem carries_of_children {line : Nat} {scope : String} {n : Node}
    (hn : n.line = line ∧ n.scope = scope) (hc : ∀ c ∈ n.children, c.Carries line scope) :
    n.Carries line scope := forall_mem_preorder hn hc

/-! ## Moving -/

/-- The label of a node, moved down by `n` lines. -/
def shiftLabelText (n : Nat) (scope : String) : String :=
  if scope.toList.contains '@' then String.ofList (shiftScope n scope.toList) else scope

theorem shiftAll_eq_map (n : Nat) (ns : List Node) : shiftAll n ns = ns.map (shift n) := by
  induction ns with
  | nil => rfl
  | cons m ns ih => rw [shiftAll, ih, List.map_cons]

/-- A move rewrites the line and the label of a node, and goes on below it. -/
theorem shift_mk (n : Nat) (kind : NodeKind) (name value : Option String) (children : List Node)
    (line : Nat) (scope : String) :
    shift n ⟨kind, name, value, children, line, scope⟩
      = ⟨kind, name, value, children.map (shift n), if line = 0 then 0 else line + n,
          shiftLabelText n scope⟩ := by
  rw [shift, shiftAll_eq_map]
  rfl

theorem kind_shift (n : Nat) (m : Node) : (m.shift n).kind = m.kind := by
  obtain ⟨_, _, _, _, _, _⟩ := m
  rw [shift_mk]

theorem name_shift (n : Nat) (m : Node) : (m.shift n).name = m.name := by
  obtain ⟨_, _, _, _, _, _⟩ := m
  rw [shift_mk]

theorem children_shift (n : Nat) (m : Node) : (m.shift n).children = m.children.map (shift n) := by
  obtain ⟨_, _, _, _, _, _⟩ := m
  rw [shift_mk]

theorem line_shift (n : Nat) (m : Node) :
    (m.shift n).line = if m.line = 0 then 0 else m.line + n := by
  obtain ⟨_, _, _, _, _, _⟩ := m
  rw [shift_mk]

theorem scope_shift (n : Nat) (m : Node) : (m.shift n).scope = shiftLabelText n m.scope := by
  obtain ⟨_, _, _, _, _, _⟩ := m
  rw [shift_mk]

/-- The label of a stack moves with the stack. -/
theorem shiftLabelText_path (n : Nat) {s : BlockStack} (hu : IsLabelName s.unit)
    (hb : ∀ b ∈ s.blocks, b.line < limit64) : shiftLabelText n s.path = (s.shift n).path := by
  by_cases hat : s.path.toList.contains '@' = true
  · rw [shiftLabelText, if_pos hat, BlockStack.shiftScope_path n hu hb, String.ofList_toList]
  · have hnil := BlockStack.blocks_eq_nil_of_not_mem (s := s) (by simpa using hat)
    rw [shiftLabelText, if_neg hat, BlockStack.shift, hnil]
    show s.path = (⟨s.unit, []⟩ : BlockStack).path
    rw [← hnil]

/-! ## What a body calls -/

/-- A traversal under way visits the moved nodes in the same order. -/
theorem toList_map_shift (n : Nat) (w : Walk) :
    (⟨w.pending.map (shift n)⟩ : Walk).toList = w.toList.map (shift n) := by
  fun_induction Walk.toList w with
  | case1 => rw [List.map_nil, Walk.toList]
  | case2 m rest ih =>
      rw [List.map_append] at ih
      rw [List.map_cons, Walk.toList, children_shift, ih, List.map_cons]

theorem walk_shift (n : Nat) (m : Node) : (m.shift n).walk = m.walk.map (shift n) :=
  toList_map_shift n (Walk.start m)

end Node

/-- A diagnostic, moved down by `n` lines. -/
def Diagnostic.shift (n : Nat) (d : Diagnostic) : Diagnostic := { d with line := d.line + n }

/-- A variable, moved down by `n` lines. -/
def Variable.shift (n : Nat) (v : Variable) : Variable := { v with line := v.line + n }

/-- A change of variables that keeps what they are looked up by. -/
structure Variable.Keeps (f : Variable → Variable) : Prop where
  name : ∀ v, (f v).name = v.name
  dataType : ∀ v, (f v).dataType = v.dataType
  scope : ∀ v, (f v).scope = v.scope

theorem Variable.keeps_shift (n : Nat) : Variable.Keeps (Variable.shift n) :=
  ⟨fun _ => rfl, fun _ => rfl, fun _ => rfl⟩

theorem Callee.instance?_map {f : Variable → Variable} (hf : Variable.Keeps f)
    (vars : List Variable) (call : List Char) :
    Callee.instance? (vars.map f) call = (Callee.instance? vars call).map f := by
  have hnamed : (fun v : Variable => v.isNamed (firstComponent call)) ∘ f
      = fun v => v.isNamed (firstComponent call) := by
    funext v
    simp [Variable.isNamed, hf.name]
  have htype : (fun v : Variable => Language.isInstanceType v.baseType) ∘ f
      = fun v => Language.isInstanceType v.baseType := by
    funext v
    simp [Variable.baseType, hf.dataType]
  rw [Callee.instance?, Callee.instance?, List.find?_map, Option.filter_map, hnamed, htype]

/-- What a node calls depends on the names and types of the variables alone. -/
theorem Callee.resolve?_map {f : Variable → Variable} (hf : Variable.Keeps f)
    (vars : List Variable) (m : Node) :
    Callee.resolve? (vars.map f) m = Callee.resolve? vars m := by
  rw [Callee.resolve?, Callee.resolve?]
  by_cases hk : m.kind = .functionCall
  · rw [if_pos hk, if_pos hk]
    refine Option.map_congr ?_
    intro name _
    rw [Callee.instance?_map hf]
    cases Callee.instance? vars name.toList with
    | none => rfl
    | some v => simp [hf.name, hf.dataType]
  · rw [if_neg hk, if_neg hk]

/-- **The dependencies of a body** depend on the names and types of the variables alone. -/
theorem Dependencies.ofBody_map {f : Variable → Variable} (hf : Variable.Keeps f)
    (vars : List Variable) (body : Node) :
    Dependencies.ofBody (vars.map f) body = Dependencies.ofBody vars body := by
  rw [Dependencies.ofBody, Dependencies.ofBody, funext (Callee.resolve?_map hf vars)]

/-- What a node calls depends on its name, not on its place. -/
theorem Callee.resolve?_shift (n : Nat) (vars : List Variable) (m : Node) :
    Callee.resolve? vars (m.shift n) = Callee.resolve? vars m := by
  rw [Callee.resolve?, Callee.resolve?, Node.kind_shift, Node.name_shift]

/-- **The dependencies of a moved body** are those of the body. -/
theorem Dependencies.ofBody_shift (n : Nat) (vars : List Variable) (body : Node) :
    Dependencies.ofBody (vars.map (Variable.shift n)) (body.shift n)
      = Dependencies.ofBody vars body := by
  have hcallees : (body.shift n).walk.filterMap (Callee.resolve? vars)
      = body.walk.filterMap (Callee.resolve? vars) := by
    rw [Node.walk_shift, List.filterMap_map]
    exact List.filterMap_congr fun m _ => Callee.resolve?_shift n vars m
  rw [Dependencies.ofBody_map (Variable.keeps_shift n), Dependencies.ofBody, Dependencies.ofBody,
    hcallees]

end StLint

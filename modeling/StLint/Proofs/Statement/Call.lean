import StLint.Proofs.Expression.Quoted
import StLint.Proofs.Pou.Callee
import StLint.Proofs.Statement.Part

/-!
# The calls of a body

A text is read as a call only where a name stands before its brackets, be it a statement, an operand or an
argument. So **whatever a body calls is called by a dotted name**, with no white space and no bracket in it.

* `Node.CallsNames` — every call of a tree has a dotted name.
* `Expression.callsNames_parse`, `Expression.callsNames_call` — the trees of expressions.
* `forall_mem_readStatement` — what holds of every node that the reader makes.
* `Body.callsNames_ofSegments` — a whole body.
-/

namespace StLint

open Text

namespace Node

/-- A node that is a call has a dotted name. -/
def IsNamedCall (n : Node) : Prop :=
  n.kind = .functionCall → ∃ name, n.name = some (String.ofList name) ∧ isQualified name = true

/-- Every call of a tree has a dotted name. -/
def CallsNames (n : Node) : Prop := ∀ m ∈ n.preorder, m.IsNamedCall

/-- A node that is no call calls what its children do. -/
theorem callsNames_of_children {n : Node} (hkind : n.kind ≠ .functionCall)
    (hc : ∀ c ∈ n.children, c.CallsNames) : n.CallsNames :=
  forall_mem_preorder (fun h => absurd h hkind) hc

theorem callsNames_of_leaf {n : Node} (hkind : n.kind ≠ .functionCall) (hc : n.children = []) :
    n.CallsNames :=
  Expression.forall_mem_of_leaf (fun h => absurd h hkind) hc

theorem CallsNames.isQualified {n : Node} (h : n.CallsNames) {name : String} (hcall : n.Calls name) :
    isQualified name.toList = true := by
  obtain ⟨m, hm, hkind, hname⟩ := hcall
  obtain ⟨text, htext, hqualified⟩ := h m hm.mem_preorder hkind
  rw [hname] at htext
  rw [Option.some.inj htext, String.toList_ofList]
  exact hqualified

/-- A move keeps the names of calls. -/
theorem CallsNames.shift {n : Node} (h : n.CallsNames) (k : Nat) : (n.shift k).CallsNames := by
  intro m hm hkind
  rw [← walk_eq_preorder, walk_shift, walk_eq_preorder, List.mem_map] at hm
  obtain ⟨m, hm, rfl⟩ := hm
  rw [kind_shift] at hkind
  rw [name_shift]
  exact h m hm hkind

end Node

/-! ## Expressions -/

namespace Expression

variable {p : Place}

theorem isNamedCall_call {name : List Char} (hname : isQualified name = true) (args : List Char)
    (parse : List Char → Node) : (p.call parse name args).IsNamedCall :=
  fun _ => ⟨name, rfl, hname⟩

theorem callsNames_parseAt (p : Place) (levels : Nat) (s : List Char) :
    (parseAt p levels s).CallsNames := by
  refine forall_mem_parseAt p ?_ ?_ ?_ levels s
  · exact fun _ _ => NodeKind.noConfusion
  · exact fun name args parse hname => isNamedCall_call hname args parse
  · exact fun n _ hkind h => absurd h hkind

/-- **The calls of an expression** have dotted names. -/
theorem callsNames_parse (p : Place) (s : List Char) : (parse p s).CallsNames :=
  callsNames_parseAt p maxDepth s

theorem callsNames_call (p : Place) {name : List Char} (hname : isQualified name = true)
    (args : List Char) : (call p name args).CallsNames :=
  Node.forall_mem_preorder (isNamedCall_call hname args _)
    (forall_mem_children_call (fun _ _ hkind h => absurd h hkind)
      (callsNames_parseAt p (maxDepth - 1)) name args)

end Expression

/-! ## Statements -/

namespace Statement

open Expression (Place)

variable {later : List Segment} {line : Nat} {stack : BlockStack} {s : List Char}

theorem callsNames_headerNode {kind : NodeKind} (hkind : kind ≠ .functionCall) (p : Place)
    (header : List Char) : (headerNode p kind header).CallsNames := by
  refine Node.callsNames_of_children hkind ?_
  intro c hc
  rw [headerNode] at hc
  by_cases hempty : header.isEmpty = true
  · rw [if_pos hempty] at hc
    cases hc
  · rw [if_neg hempty] at hc
    rw [List.mem_singleton.mp hc]
    exact Expression.callsNames_parse p header

theorem callsNames_openBlock (later : List Segment) (p : Place) (kind : BlockKind) (t : List Char) :
    (openBlock later p kind t).1.CallsNames := by
  cases kind with
  | ifBlock | whileBlock | caseBlock => exact callsNames_headerNode NodeKind.noConfusion p _
  | forBlock =>
      rw [openBlock, forNode]
      cases ForHeader.read? (t.drop (leadingWord t).length) with
      | some h =>
          refine Node.callsNames_of_children NodeKind.noConfusion ?_
          exact List.forall_mem_singleton.mpr (Expression.callsNames_parse p h.counter)
      | none => exact Node.callsNames_of_leaf NodeKind.noConfusion rfl
  | repeatBlock =>
      rw [openBlock]
      cases untilCondition? 0 later with
      | some condition => exact callsNames_headerNode NodeKind.noConfusion p condition
      | none => exact Node.callsNames_of_leaf NodeKind.noConfusion rfl

theorem callsNames_readPlain (p : Place) (t : List Char) :
    ∀ n ∈ (readPlain p t).nodes, n.CallsNames := by
  intro n hn
  rw [readPlain] at hn
  cases hcut : cutTopLevel? ":=" t with
  | some sides =>
      rw [hcut] at hn
      rw [List.mem_singleton.mp hn]
      exact Node.callsNames_of_children NodeKind.noConfusion
        (Place.forall_mem_assignment (Expression.callsNames_parse p _) _ _)
  | none =>
      rw [hcut] at hn
      dsimp only at hn
      cases hcall : Expression.splitUnitCall? (stripStatementEnd t) with
      | none =>
          rw [hcall] at hn
          cases hn
      | some c =>
          rw [hcall] at hn
          rw [List.mem_singleton.mp hn]
          exact Expression.callsNames_call p (Expression.isQualified_of_splitUnitCall? hcall) c.2

/-- **What holds of every node that the reader makes** holds of the nodes of a statement, by induction on
    the text that is left. -/
theorem forall_mem_readStatement {P : Node → Prop}
    (hopens : ∀ p kind t, P (openBlock later p kind t).1)
    (hreturns : ∀ p : Place, P (p.node .returnStatement))
    (hplain : ∀ p t, ∀ n ∈ (readPlain p t).nodes, P n) (line : Nat) (stack : BlockStack)
    (s : List Char) : ∀ n ∈ (readStatement later line stack s).1.nodes, P n := by
  intro n hn
  induction stack, s using readStatement.induct later line with
  | case1 stack s hblank =>
      rw [readStatement_blank (List.isEmpty_iff.mp hblank)] at hn
      cases hn
  | case2 stack s _ _ _ kind hlead _ _ _ ih =>
      rw [readStatement_opens hlead] at hn
      rcases List.mem_cons.mp hn with rfl | hn
      · exact hopens _ kind _
      · exact ih hn
  | case3 stack s _ _ hlead ih =>
      rw [readStatement_branch hlead] at hn
      exact ih hn
  | case4 stack s _ _ hlead ih =>
      rw [readStatement_otherwise hlead] at hn
      exact ih hn
  | case5 stack s _ _ kind hlead =>
      rw [readStatement_closes hlead] at hn
      cases hn
  | case6 stack s _ _ hlead =>
      rw [readStatement_returns hlead] at hn
      rw [List.mem_singleton.mp hn]
      exact hreturns _
  | case7 stack s _ _ hlead =>
      rw [readStatement_jumps hlead] at hn
      cases hn
  | case8 stack s hne _ hlead =>
      rw [readStatement_plain (by simpa using hne) hlead] at hn
      exact hplain _ _ n hn

/-- **The calls of a body** have dotted names. -/
theorem Body.callsNames_ofSegments (unit : String) (ss : List Segment) :
    (ofSegments unit ss).root.CallsNames := by
  refine Node.callsNames_of_children NodeKind.noConfusion ?_
  intro n hn
  obtain ⟨before, s, later, -, hn⟩ := exists_readStatement_of_mem (.start unit) hn
  refine forall_mem_readStatement (callsNames_openBlock later) ?_ callsNames_readPlain s.line _ s.text n hn
  exact fun p => Node.callsNames_of_leaf NodeKind.noConfusion rfl

end Statement

end StLint

import StLint.Proofs.Expression.Shape
import StLint.Proofs.Statement.Shift

/-!
# Statements in source order

The reader takes the segments of a body one by one and stamps everything it adds with the line of
the segment at hand. So a statement and all nodes below it stand on **one line of the body**, a block
that is still open was opened on one, and the statements follow each other as their lines do.

* `Node.IsStatement` — a tree with one line and one label, in which every node has its shape.
* `Stands` — what is added stands on certain lines; one statement, then a run of segments.
* `pairwise_line_readSegments` — the statements are in the order of their lines.
* `Body.stands_ofSegments`, `Body.pairwise_line_ofSegments` — a whole body.
-/

namespace StLint

open Text Source

/-- A statement: all nodes of its tree have its line and its label, and their shape. -/
structure Node.IsStatement (n : Node) : Prop where
  carries : n.Carries n.line n.scope
  shaped : n.Shaped

namespace Statement

open Expression (Place)

variable {later : List Segment} {line : Nat} {stack : BlockStack} {s : List Char}

/-! ## The shape of a statement -/

/-- The header of a block is its only child, where the kind allows one child at most. -/
theorem shaped_headerNode {kind : NodeKind}
    (hkind : ∀ n : Node, n.kind = kind → n.children.length ≤ 1 → n.HasShape) (p : Place)
    (header : List Char) : (headerNode p kind header).Shaped := by
  by_cases hh : header.isEmpty = true
  · have hchildren : (headerNode p kind header).children = [] := if_pos hh
    refine Node.shaped_of_leaf (hkind _ rfl ?_) hchildren
    rw [hchildren]
    exact Nat.zero_le 1
  · have hchildren : (headerNode p kind header).children = [Expression.parse p header] := if_neg hh
    refine Node.shaped_of_child (hkind _ rfl ?_) hchildren (Expression.shaped_parse p header)
    rw [hchildren]
    exact Nat.le_refl 1

theorem shaped_forNode (p : Place) (rest afterKeyword : List Char) :
    (forNode p rest afterKeyword).1.Shaped := by
  rw [forNode]
  cases ForHeader.read? afterKeyword with
  | some h => exact Node.shaped_of_child (Nat.le_refl 1) rfl (Expression.shaped_parse p h.counter)
  | none => exact Node.shaped_of_leaf (Nat.zero_le 1) rfl

theorem shaped_openBlock (later : List Segment) (p : Place) (kind : BlockKind) (t : List Char) :
    (openBlock later p kind t).1.Shaped := by
  cases kind with
  | ifBlock | whileBlock | caseBlock =>
      refine shaped_headerNode ?_ p _
      rintro ⟨_, _, _, _, _, _⟩ rfl h
      exact h
  | forBlock => exact shaped_forNode p _ _
  | repeatBlock =>
      simp only [openBlock]
      cases untilCondition? 0 later with
      | some condition =>
          refine shaped_headerNode ?_ p _
          rintro ⟨_, _, _, _, _, _⟩ rfl h
          exact h
      | none => exact Node.shaped_of_leaf (Nat.zero_le 1) rfl

theorem shaped_readPlain (p : Place) (t : List Char) : ∀ n ∈ (readPlain p t).nodes, n.Shaped := by
  intro n hn
  rw [readPlain] at hn
  cases hc : cutTopLevel? ":=" t with
  | some cut =>
      rw [hc] at hn
      rw [List.mem_singleton.mp hn]
      exact Place.shaped_assignment p _ _ (Expression.shaped_parse p _)
  | none =>
      rw [hc] at hn
      cases hs : Expression.splitUnitCall? (stripStatementEnd t) with
      | some call =>
          rw [hs] at hn
          rw [List.mem_singleton.mp hn]
          exact Expression.shaped_call p _ _
      | none =>
          rw [hs] at hn
          cases hn

/-- What is not recognized is reported where it stands. -/
theorem line_of_mem_diagnostics_readPlain (p : Place) (t : List Char) :
    ∀ d ∈ (readPlain p t).diagnostics, d.line = p.line := by
  intro d hd
  rw [readPlain] at hd
  cases hc : cutTopLevel? ":=" t with
  | some cut =>
      rw [hc] at hd
      cases hd
  | none =>
      rw [hc] at hd
      cases hs : Expression.splitUnitCall? (stripStatementEnd t) with
      | some call =>
          rw [hs] at hd
          cases hd
      | none =>
          rw [hs] at hd
          rw [List.mem_singleton.mp hd]

/-! ## One statement -/

/-- A node that carries a place is a statement on its line, if it has its shape. -/
theorem isStatement_of_carries {n : Node} {p : Place} (hc : n.Carries p.line p.scope)
    (hs : n.Shaped) : n.line = p.line ∧ n.IsStatement := by
  obtain ⟨hline, hscope⟩ := hc n (Node.mem_preorder.mpr (Or.inl rfl))
  refine ⟨hline, ?_, hs⟩
  rw [hline, hscope]
  exact hc

/-- What the reader adds stands on lines of which `P` holds, and so do the blocks that it leaves open
    beyond those that were open. -/
structure Stands (P : Nat → Prop) (stack : BlockStack) (r : Output × BlockStack) : Prop where
  nodes : ∀ n ∈ r.1.nodes, P n.line ∧ n.IsStatement
  diagnostics : ∀ d ∈ r.1.diagnostics, P d.line
  blocks : ∀ b ∈ r.2.blocks, b ∈ stack.blocks ∨ P b.line

theorem Stands.none (P : Nat → Prop) (stack : BlockStack) : Stands P stack (.none, stack) :=
  ⟨fun _ hn => (nomatch hn), fun _ hd => (nomatch hd), fun _ hb => Or.inl hb⟩

/-- A node in front of what follows it. -/
theorem Stands.cons {P : Nat → Prop} {n : Node} {r : Output × BlockStack} (hn : P n.line)
    (hs : n.IsStatement) (h : Stands P stack r) : Stands P stack (.node n ++ r.1, r.2) := by
  refine ⟨?_, h.diagnostics, h.blocks⟩
  intro m hm
  rcases List.mem_cons.mp hm with rfl | hm
  · exact ⟨hn, hs⟩
  · exact h.nodes m hm

/-- **One statement stands on its line**, with all that follows its header, by induction on the text
    that is left. -/
theorem stands_readStatement (later : List Segment) (line : Nat) (stack : BlockStack)
    (s : List Char) : Stands (· = line) stack (readStatement later line stack s) := by
  induction stack, s using readStatement.induct later line with
  | case1 stack s hblank =>
      rw [readStatement_blank (List.isEmpty_iff.mp hblank)]
      exact Stands.none _ stack
  | case2 stack s _ _ _ kind hlead _ _ _ ih =>
      rw [readStatement_opens hlead]
      obtain ⟨hline, hstatement⟩ := isStatement_of_carries (carries_openBlock later _ kind _)
        (shaped_openBlock later ⟨line, stack.path⟩ kind (statementText stack s))
      refine Stands.cons (r := (_, _)) hline hstatement ⟨ih.nodes, ih.diagnostics, ?_⟩
      -- the block that the header opens is the one that was not open before
      intro b hb
      rcases ih.blocks b hb with hb | hb
      · rcases List.mem_cons.mp hb with rfl | hb
        · exact Or.inr rfl
        · exact Or.inl hb
      · exact Or.inr hb
  | case3 stack s _ _ hlead ih =>
      rw [readStatement_branch hlead]
      exact ih
  | case4 stack s _ _ hlead ih =>
      rw [readStatement_otherwise hlead]
      exact ih
  | case5 stack s _ _ kind hlead =>
      rw [readStatement_closes hlead]
      refine ⟨fun _ hn => absurd hn List.not_mem_nil, fun _ hd => absurd hd List.not_mem_nil, ?_⟩
      intro b hb
      exact Or.inl (stack.subset_close kind hb)
  | case6 stack s _ _ hlead =>
      rw [readStatement_returns hlead]
      obtain ⟨hline, hstatement⟩ := isStatement_of_carries
        (carries_node ⟨line, stack.path⟩ .returnStatement) (Node.shaped_of_leaf rfl rfl)
      refine ⟨?_, fun _ hd => absurd hd List.not_mem_nil, fun _ hb => Or.inl hb⟩
      intro n hn
      rw [List.mem_singleton.mp hn]
      exact ⟨hline, hstatement⟩
  | case7 stack s _ _ hlead =>
      rw [readStatement_jumps hlead]
      exact Stands.none _ stack
  | case8 stack s hne _ hlead =>
      rw [readStatement_plain (by simpa using hne) hlead]
      refine ⟨?_, line_of_mem_diagnostics_readPlain _ _, fun _ hb => Or.inl hb⟩
      intro n hn
      exact isStatement_of_carries (carries_readPlain _ _ n hn) (shaped_readPlain _ _ n hn)

/-! ## A run of segments -/

/-- **What a run of segments adds stands on their lines.** -/
theorem stands_readSegments (stack : BlockStack) (ss : List Segment) :
    Stands (fun k => ∃ s ∈ ss, k = s.line) stack (readSegments stack ss) := by
  induction ss generalizing stack with
  | nil => exact Stands.none _ stack
  | cons s later ih =>
      have hs := stands_readStatement later s.line stack s.text
      have hlater := ih (readStatement later s.line stack s.text).2
      have hhere : ∀ {k}, k = s.line → ∃ t ∈ s :: later, k = t.line :=
        fun hk => ⟨s, List.mem_cons_self .., hk⟩
      have hthere : ∀ {k}, (∃ t ∈ later, k = t.line) → ∃ t ∈ s :: later, k = t.line :=
        fun ⟨t, ht, hk⟩ => ⟨t, List.mem_cons_of_mem s ht, hk⟩
      rw [readSegments_cons]
      constructor
      · intro n hn
        rcases List.mem_append.mp hn with hn | hn
        · exact ⟨hhere (hs.nodes n hn).1, (hs.nodes n hn).2⟩
        · exact ⟨hthere (hlater.nodes n hn).1, (hlater.nodes n hn).2⟩
      · intro d hd
        rcases List.mem_append.mp hd with hd | hd
        · exact hhere (hs.diagnostics d hd)
        · exact hthere (hlater.diagnostics d hd)
      · intro b hb
        rcases hlater.blocks b hb with hb | hb
        · exact (hs.blocks b hb).imp_right hhere
        · exact Or.inr (hthere hb)

/-- **The statements are in the order of their lines**, if the segments are. -/
theorem pairwise_line_readSegments (stack : BlockStack) {ss : List Segment}
    (hss : ss.Pairwise fun s t => s.line ≤ t.line) :
    (readSegments stack ss).1.nodes.Pairwise fun m n => m.line ≤ n.line := by
  induction hss generalizing stack with
  | nil => exact List.Pairwise.nil
  | @cons s later hle _ ih =>
      rw [readSegments_cons]
      have hs := stands_readStatement later s.line stack s.text
      have hlater := stands_readSegments (readStatement later s.line stack s.text).2 later
      refine List.pairwise_append.mpr ⟨?_, ih _, ?_⟩
      · -- the statements of one segment all stand on its line
        refine List.pairwise_of_forall_mem_list ?_
        intro m hm n hn
        exact Nat.le_of_eq ((hs.nodes m hm).1.trans (hs.nodes n hn).1.symm)
      · intro m hm n hn
        obtain ⟨t, ht, hline⟩ := (hlater.nodes n hn).1
        rw [(hs.nodes m hm).1, hline]
        exact hle t ht

/-! ## A body -/

/-- The segments of lines follow each other as the lines do. -/
theorem pairwise_line_segments {ls : List CodeLine}
    (hls : ls.Pairwise fun l m => l.number ≤ m.number) :
    (segments ls).Pairwise fun s t => s.line ≤ t.line := by
  rw [segments, List.pairwise_flatMap]
  constructor
  · intro l _
    refine List.pairwise_map.mpr (List.pairwise_of_forall ?_)
    exact fun _ _ => Nat.le_refl _
  · refine hls.imp ?_
    intro l m hlm s hs t ht
    obtain ⟨_, -, rfl⟩ := List.mem_map.mp hs
    obtain ⟨_, -, rfl⟩ := List.mem_map.mp ht
    exact hlm

namespace Body

/-- The statements and the diagnostics of a body stand on the lines of its segments. -/
theorem stands_ofSegments (unit : String) (ss : List Segment) :
    (∀ n ∈ (ofSegments unit ss).root.children, (∃ s ∈ ss, n.line = s.line) ∧ n.IsStatement) ∧
      ∀ d ∈ (ofSegments unit ss).diagnostics, ∃ s ∈ ss, d.line = s.line := by
  have hread := stands_readSegments (.start unit) ss
  refine ⟨hread.nodes, ?_⟩
  intro d hd
  rcases List.mem_append.mp hd with hd | hd
  · exact hread.diagnostics d hd
  · -- a block that is never closed is reported where it was opened
    obtain ⟨b, hb, rfl⟩ := List.mem_map.mp hd
    exact (hread.blocks b (List.mem_reverse.mp hb)).resolve_left fun h => nomatch h

theorem pairwise_line_ofSegments (unit : String) {ss : List Segment}
    (hss : ss.Pairwise fun s t => s.line ≤ t.line) :
    (ofSegments unit ss).root.children.Pairwise fun m n => m.line ≤ n.line :=
  pairwise_line_readSegments (.start unit) hss

end Body

end Statement

end StLint

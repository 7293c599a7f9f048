import StLint.Proofs.Expression.Place
import StLint.Proofs.Source.Line
import StLint.Proofs.Statement.Step

/-!
# Bodies, moved down

The reader of statements looks at the texts of its segments and at the kinds of the open blocks, and
it only copies their lines. So **reading commutes with moving**: segments that stand further down
give the same nodes and diagnostics, moved down.

* `BlockStack.Fits` — a stack whose label can be read back; every stack the reader meets is one.
* `readStatement_kept`, `readSegments_kept` — the reader stays in its unit and labels its nodes by
  stacks that fit.
* `readStatement_shift`, `readSegments_shift` — one statement, and a run of them.
* `Body.ofSegments_shift` — a whole body.
-/

namespace StLint

open Text Source

/-! ## Stacks -/

namespace BlockStack

/-- The label of a stack can be read back: its name holds no mark of a label, and its lines fit in
    64 bits. -/
def Fits (s : BlockStack) : Prop := IsLabelName s.unit ∧ ∀ b ∈ s.blocks, b.line < limit64

theorem fits_start {unit : String} (h : IsLabelName unit) : (start unit).Fits :=
  ⟨h, fun _ hb => nomatch hb⟩

theorem Fits.push {s : BlockStack} (h : s.Fits) (kind : BlockKind) {line : Nat}
    (hl : line < limit64) : (s.push kind line).Fits := by
  refine ⟨h.1, ?_⟩
  intro b hb
  rcases List.mem_cons.mp hb with rfl | hb
  · exact hl
  · exact h.2 b hb

/-- What is left open was open before. -/
theorem subset_of_closeBlocks? {kind : BlockKind} {bs rest : List OpenBlock}
    (h : closeBlocks? kind bs = some rest) : rest ⊆ bs := by
  induction bs with
  | nil => exact nomatch h
  | cons b bs ih =>
      rw [closeBlocks?] at h
      by_cases hk : b.kind = kind
      · rw [if_pos hk] at h
        rw [← Option.some.inj h]
        exact List.subset_cons_self b bs
      · rw [if_neg hk] at h
        exact fun x hx => List.mem_cons_of_mem b (ih h hx)

theorem unit_close (s : BlockStack) (kind : BlockKind) : (s.close kind).unit = s.unit := by
  rw [close, close?]
  cases closeBlocks? kind s.blocks <;> rfl

theorem subset_close (s : BlockStack) (kind : BlockKind) : (s.close kind).blocks ⊆ s.blocks := by
  rw [close, close?]
  cases hc : closeBlocks? kind s.blocks with
  | none => exact List.Subset.refl s.blocks
  | some bs => exact subset_of_closeBlocks? hc

theorem Fits.close {s : BlockStack} (h : s.Fits) (kind : BlockKind) : (s.close kind).Fits := by
  refine ⟨?_, fun b hb => h.2 b (s.subset_close kind hb)⟩
  rw [unit_close]
  exact h.1

/-! ### Moving a stack -/

theorem closeBlocks?_map_shift (n : Nat) (kind : BlockKind) (bs : List OpenBlock) :
    closeBlocks? kind (bs.map (·.shift n)) = (closeBlocks? kind bs).map (·.map (·.shift n)) := by
  induction bs with
  | nil => rfl
  | cons b bs ih =>
      rw [List.map_cons, closeBlocks?, closeBlocks?, ih]
      show (if b.kind = kind then _ else _) = _
      by_cases hk : b.kind = kind
      · rw [if_pos hk, if_pos hk]
        rfl
      · rw [if_neg hk, if_neg hk]

theorem close_shift (n : Nat) (s : BlockStack) (kind : BlockKind) :
    (s.shift n).close kind = (s.close kind).shift n := by
  rw [close, close, close?, close?, shift, closeBlocks?_map_shift]
  cases closeBlocks? kind s.blocks <;> rfl

theorem innermost?_shift (n : Nat) (s : BlockStack) : (s.shift n).innermost? = s.innermost? := by
  rw [innermost?, innermost?, shift, List.head?_map, Option.map_map]
  rfl

/-- The place of a statement moves with its stack. -/
theorem Fits.shift_place {s : BlockStack} (h : s.Fits) (n line : Nat) :
    (⟨line, s.path⟩ : Expression.Place).shift n = ⟨line + n, (s.shift n).path⟩ := by
  rw [Expression.Place.shift, Node.shiftLabelText_path n h.1 h.2]

end BlockStack

namespace Node

/-- The label of every node of a tree is that of a stack of blocks of the unit, and can be read
    back. -/
def LabelledIn (unit : String) (root : Node) : Prop :=
  ∀ m ∈ root.preorder, ∃ s : BlockStack, s.Fits ∧ s.unit = unit ∧ m.scope = s.path

theorem Carries.labelledIn {root : Node} {line : Nat} {s : BlockStack}
    (h : root.Carries line s.path) (hs : s.Fits) : root.LabelledIn s.unit :=
  fun m hm => ⟨s, hs, rfl, (h m hm).2⟩

end Node

namespace Statement

open Expression (Place)

variable {later : List Segment} {line : Nat} {stack : BlockStack} {s : List Char}

/-- A segment, moved down by `n` lines. -/
def Segment.shift (n : Nat) (s : Segment) : Segment := { s with line := s.line + n }

/-- What a reader adds, moved down by `n` lines. -/
def Output.shift (n : Nat) (o : Output) : Output :=
  ⟨o.nodes.map (Node.shift n), o.diagnostics.map (Diagnostic.shift n)⟩

theorem Output.shift_append (n : Nat) (a b : Output) :
    (a ++ b).shift n = a.shift n ++ b.shift n := by
  refine Output.ext ?_ ?_
  · exact List.map_append
  · exact List.map_append

/-! ## The parts of a step -/

theorem statementText_shift (n : Nat) (stack : BlockStack) (s : List Char) :
    statementText (stack.shift n) s = statementText stack s := by
  rw [statementText, statementText, BlockStack.innermost?_shift]

/-- A condition is looked up in texts alone. -/
theorem untilCondition?_map_shift (n depth : Nat) (later : List Segment) :
    untilCondition? depth (later.map (Segment.shift n)) = untilCondition? depth later := by
  induction later generalizing depth with
  | nil => rfl
  | cons s later ih =>
      simp only [List.map_cons, untilCondition?, ih]
      rfl

variable {p : Place} {n : Nat}

theorem shift_headerNode (hp : 0 < p.line) (kind : NodeKind) (header : List Char) :
    (headerNode p kind header).shift n = headerNode (p.shift n) kind header := by
  rw [headerNode, headerNode, Place.shift_node_mk hp]
  by_cases hh : header.isEmpty = true
  · rw [if_pos hh, if_pos hh]
    rfl
  · rw [if_neg hh, if_neg hh, List.map_cons, Expression.shift_parse hp]
    rfl

theorem shift_forNode (hp : 0 < p.line) (rest afterKeyword : List Char) :
    forNode (p.shift n) rest afterKeyword
      = ((forNode p rest afterKeyword).1.shift n, (forNode p rest afterKeyword).2) := by
  rw [forNode, forNode]
  cases ForHeader.read? afterKeyword with
  | some h =>
      dsimp only
      rw [Place.shift_node_mk hp, List.map_cons, Expression.shift_parse hp]
      rfl
  | none =>
      dsimp only
      rw [Place.shift_node_mk hp]
      rfl

/-- The header of a block moves with its place; what follows it stays the same text. -/
theorem openBlock_shift (hp : 0 < p.line) (kind : BlockKind) (t : List Char) :
    openBlock (later.map (Segment.shift n)) (p.shift n) kind t
      = ((openBlock later p kind t).1.shift n, (openBlock later p kind t).2) := by
  cases kind with
  | ifBlock | whileBlock | caseBlock =>
      simp only [openBlock]
      rw [shift_headerNode hp]
  | forBlock => exact shift_forNode hp _ _
  | repeatBlock =>
      simp only [openBlock]
      rw [untilCondition?_map_shift]
      cases untilCondition? 0 later with
      | some condition =>
          dsimp only
          rw [shift_headerNode hp]
      | none =>
          dsimp only
          rw [Place.shift_node hp]

theorem readPlain_shift (hp : 0 < p.line) (t : List Char) :
    readPlain (p.shift n) t = (readPlain p t).shift n := by
  rw [readPlain, readPlain]
  cases cutTopLevel? ":=" t with
  | some cut =>
      dsimp only
      refine Output.ext ?_ rfl
      show [_] = [Node.shift n _]
      rw [Place.assignment, Place.assignment, Place.shift_node_mk hp, List.map_cons,
        Expression.shift_parse hp]
      rfl
  | none =>
      dsimp only
      cases Expression.splitUnitCall? (stripStatementEnd t) with
      | some call =>
          refine Output.ext ?_ rfl
          show [_] = [Node.shift n _]
          rw [Expression.shift_call hp]
      | none => rfl

/-! ## The places of the nodes -/

theorem carries_node (p : Place) (kind : NodeKind) : (p.node kind).Carries p.line p.scope :=
  Node.carries_of_children ⟨rfl, rfl⟩ fun _ hc => nomatch hc

theorem carries_headerNode (p : Place) (kind : NodeKind) (header : List Char) :
    (headerNode p kind header).Carries p.line p.scope := by
  refine Node.carries_of_children ⟨rfl, rfl⟩ ?_
  intro c hc
  by_cases hh : header.isEmpty = true
  · rw [headerNode, if_pos hh] at hc
    exact nomatch hc
  · rw [headerNode, if_neg hh] at hc
    rw [List.mem_singleton.mp hc]
    exact Expression.carries_parse p header

theorem carries_forNode (p : Place) (rest afterKeyword : List Char) :
    (forNode p rest afterKeyword).1.Carries p.line p.scope := by
  rw [forNode]
  cases ForHeader.read? afterKeyword with
  | some h =>
      refine Node.carries_of_children ⟨rfl, rfl⟩ ?_
      intro c hc
      rw [List.mem_singleton.mp hc]
      exact Expression.carries_parse p h.counter
  | none => exact Node.carries_of_children ⟨rfl, rfl⟩ fun c hc => nomatch hc

/-- The node of a block carries the place where the block opens. -/
theorem carries_openBlock (later : List Segment) (p : Place) (kind : BlockKind) (t : List Char) :
    (openBlock later p kind t).1.Carries p.line p.scope := by
  cases kind with
  | ifBlock | whileBlock | caseBlock => exact carries_headerNode p _ _
  | forBlock => exact carries_forNode p _ _
  | repeatBlock =>
      simp only [openBlock]
      cases untilCondition? 0 later with
      | some condition => exact carries_headerNode p _ _
      | none => exact carries_node p _

theorem carries_readPlain (p : Place) (t : List Char) :
    ∀ m ∈ (readPlain p t).nodes, m.Carries p.line p.scope := by
  intro m hm
  rw [readPlain] at hm
  cases hc : cutTopLevel? ":=" t with
  | some cut =>
      rw [hc] at hm
      rw [List.mem_singleton.mp hm]
      refine Node.carries_of_children ⟨rfl, rfl⟩ ?_
      intro c hc
      rw [List.mem_singleton.mp hc]
      exact Expression.carries_parse p _
  | none =>
      rw [hc] at hm
      cases hs : Expression.splitUnitCall? (stripStatementEnd t) with
      | some call =>
          rw [hs] at hm
          rw [List.mem_singleton.mp hm]
          exact Expression.carries_call p _ _
      | none =>
          rw [hs] at hm
          exact nomatch hm

/-! ## Whole statements -/

/-- What the reader keeps up: its stack fits and is one of the same unit, and its nodes are labelled
    by such stacks. -/
structure Kept (unit : String) (r : Output × BlockStack) : Prop where
  fits : r.2.Fits
  unit_eq : r.2.unit = unit
  labelled : ∀ m ∈ r.1.nodes, m.LabelledIn unit

theorem Kept.none {stack : BlockStack} (h : stack.Fits) : Kept stack.unit (.none, stack) :=
  ⟨h, rfl, fun _ hm => nomatch hm⟩

/-- **One statement keeps the invariant**, by induction on the text that is left after each
    header. -/
theorem readStatement_kept (hl : line < limit64) (h : stack.Fits) :
    Kept stack.unit (readStatement later line stack s) := by
  induction stack, s using readStatement.induct later line with
  | case1 stack s hblank =>
      rw [readStatement_blank (List.isEmpty_iff.mp hblank)]
      exact Kept.none h
  -- a header: its node stands outside the block, and what follows it inside
  | case2 stack s _ _ _ kind hlead _ _ _ ih =>
      have hbody := ih (h.push kind hl)
      rw [readStatement_opens hlead]
      refine ⟨hbody.fits, hbody.unit_eq, ?_⟩
      intro m hm
      rcases List.mem_cons.mp hm with rfl | hm
      · exact (carries_openBlock later _ kind _).labelledIn h
      · exact hbody.labelled m hm
  | case3 stack s _ _ hlead ih =>
      rw [readStatement_branch hlead]
      exact ih h
  | case4 stack s _ _ hlead ih =>
      rw [readStatement_otherwise hlead]
      exact ih h
  | case5 stack s _ _ kind hlead =>
      rw [readStatement_closes hlead]
      exact ⟨h.close kind, stack.unit_close kind, fun _ hm => nomatch hm⟩
  | case6 stack s _ _ hlead =>
      rw [readStatement_returns hlead]
      refine ⟨h, rfl, ?_⟩
      intro m hm
      rw [List.mem_singleton.mp hm]
      exact (carries_node _ _).labelledIn h
  | case7 stack s _ _ hlead =>
      rw [readStatement_jumps hlead]
      exact Kept.none h
  | case8 stack s hne _ hlead =>
      rw [readStatement_plain (by simpa using hne) hlead]
      exact ⟨h, rfl, fun m hm => (carries_readPlain _ _ m hm).labelledIn h⟩

/-- **A statement that stands further down** gives the same nodes, moved down, and leaves the same
    blocks open, moved down. -/
theorem readStatement_shift (n : Nat) (h0 : 0 < line) (hl : line < limit64) (h : stack.Fits) :
    readStatement (later.map (Segment.shift n)) (line + n) (stack.shift n) s
      = ((readStatement later line stack s).1.shift n,
          (readStatement later line stack s).2.shift n) := by
  induction stack, s using readStatement.induct later line with
  | case1 stack s hblank =>
      have hnil := List.isEmpty_iff.mp hblank
      rw [readStatement_blank hnil, readStatement_blank (by rw [statementText_shift, hnil])]
      rfl
  | case2 stack s _ t p kind hlead _ _ _ ih =>
      have hbody := ih (h.push kind hl)
      -- the node is built at the place of the header, and its block is pushed after that
      have hblock : openBlock (later.map (Segment.shift n)) (p.shift n) kind t = _ :=
        openBlock_shift h0 kind t
      rw [show p.shift n = _ from h.shift_place n line] at hblock
      rw [readStatement_opens hlead, readStatement_opens (by rw [statementText_shift]; exact hlead),
        statementText_shift, hblock]
      show ((_ : Output) ++ (readStatement _ _ ((stack.push kind line).shift n) _).1,
        (readStatement _ _ ((stack.push kind line).shift n) _).2) = _
      rw [hbody, Output.shift_append]
      rfl
  | case3 stack s _ _ hlead ih =>
      rw [readStatement_branch hlead, readStatement_branch (by rw [statementText_shift]; exact hlead),
        statementText_shift]
      exact ih h
  | case4 stack s _ _ hlead ih =>
      rw [readStatement_otherwise hlead,
        readStatement_otherwise (by rw [statementText_shift]; exact hlead), statementText_shift]
      exact ih h
  | case5 stack s _ _ kind hlead =>
      rw [readStatement_closes hlead, readStatement_closes (by rw [statementText_shift]; exact hlead),
        BlockStack.close_shift]
      rfl
  | case6 stack s _ _ hlead =>
      rw [readStatement_returns hlead,
        readStatement_returns (by rw [statementText_shift]; exact hlead), ← h.shift_place n line,
        ← Place.shift_node h0]
      rfl
  | case7 stack s _ _ hlead =>
      rw [readStatement_jumps hlead, readStatement_jumps (by rw [statementText_shift]; exact hlead)]
      rfl
  | case8 stack s hne _ hlead =>
      have htext : statementText stack s ≠ [] := by simpa using hne
      rw [readStatement_plain htext hlead,
        readStatement_plain (by rw [statementText_shift]; exact htext)
          (by rw [statementText_shift]; exact hlead),
        statementText_shift, ← h.shift_place n line, readPlain_shift h0]

/-! ## Whole bodies -/

/-- The lines of a source that segments may stand on. -/
def Segment.Numbered (s : Segment) : Prop := 0 < s.line ∧ s.line < limit64

/-- **A run of segments keeps the invariant.** -/
theorem readSegments_kept {ss : List Segment} (hss : ∀ s ∈ ss, s.Numbered) (h : stack.Fits) :
    Kept stack.unit (readSegments stack ss) := by
  induction ss generalizing stack with
  | nil => exact Kept.none h
  | cons s later ih =>
      have hs : Kept stack.unit (readStatement later s.line stack s.text) :=
        readStatement_kept (hss s (List.mem_cons_self ..)).2 h
      have hlater := ih (fun t ht => hss t (List.mem_cons_of_mem s ht)) hs.fits
      rw [hs.unit_eq] at hlater
      rw [readSegments_cons]
      refine ⟨hlater.fits, hlater.unit_eq, ?_⟩
      intro m hm
      rcases List.mem_append.mp hm with hm | hm
      · exact hs.labelled m hm
      · exact hlater.labelled m hm

theorem readSegments_shift (n : Nat) {ss : List Segment} (hss : ∀ s ∈ ss, s.Numbered)
    (h : stack.Fits) :
    readSegments (stack.shift n) (ss.map (Segment.shift n))
      = ((readSegments stack ss).1.shift n, (readSegments stack ss).2.shift n) := by
  induction ss generalizing stack with
  | nil => rfl
  | cons s later ih =>
      obtain ⟨h0, hl⟩ := hss s (List.mem_cons_self ..)
      have hs : Kept stack.unit (readStatement later s.line stack s.text) := readStatement_kept hl h
      -- the stack that a statement leaves fits again, so the rest can be moved too
      have hlater := ih (fun t ht => hss t (List.mem_cons_of_mem s ht)) hs.fits
      have hhere : readStatement (later.map (Segment.shift n)) (Segment.shift n s).line
            (stack.shift n) (Segment.shift n s).text
          = ((readStatement later s.line stack s.text).1.shift n,
              (readStatement later s.line stack s.text).2.shift n) :=
        readStatement_shift n h0 hl h
      rw [List.map_cons, readSegments_cons, readSegments_cons, hhere, hlater, Output.shift_append]

/-- A body, moved down by `n` lines. -/
def Body.shift (n : Nat) (b : Body) : Body := ⟨b.root.shift n, b.diagnostics.map (Diagnostic.shift n)⟩

/-- **A body whose segments stand further down** is the same body, moved down. -/
theorem Body.ofSegments_shift (n : Nat) {unit : String} (hu : IsLabelName unit)
    {ss : List Segment} (hss : ∀ s ∈ ss, s.Numbered) :
    Body.ofSegments unit (ss.map (Segment.shift n)) = (Body.ofSegments unit ss).shift n := by
  have hread := readSegments_shift n hss (BlockStack.fits_start hu)
  rw [show (BlockStack.start unit).shift n = .start unit from rfl] at hread
  -- the root carries the bare name of the unit, which holds no line number
  have hroot : Node.shiftLabelText n unit = unit := by
    rw [Node.shiftLabelText, if_neg (by simpa using hu.2)]
  rw [Body.ofSegments, Body.ofSegments, hread]
  dsimp only
  rw [Body.shift, Node.leaf, Node.shift_mk, if_pos rfl, hroot, List.map_append, List.map_map,
    BlockStack.outermostFirst, BlockStack.outermostFirst, BlockStack.shift, ← List.map_reverse,
    List.map_map]
  rfl

/-- The nodes of a body are labelled by stacks of its unit. -/
theorem Body.labelledIn_ofSegments {unit : String} (hu : IsLabelName unit) {ss : List Segment}
    (hss : ∀ s ∈ ss, s.Numbered) : (Body.ofSegments unit ss).root.LabelledIn unit := by
  have hread := readSegments_kept hss (BlockStack.fits_start hu)
  intro m hm
  rcases Node.mem_preorder.mp hm with rfl | ⟨c, hc, hm⟩
  · refine ⟨.start unit, BlockStack.fits_start hu, rfl, ?_⟩
    simp [Body.ofSegments, Node.leaf, BlockStack.path, BlockStack.start]
  · exact hread.labelled c hc m hm

/-! ## The segments of lines -/

/-- The segments of moved lines are the moved segments. -/
theorem segments_map_shift (n : Nat) (ls : List CodeLine) :
    segments (ls.map (CodeLine.shift n)) = (segments ls).map (Segment.shift n) := by
  rw [segments, segments, List.flatMap_map, List.map_flatMap]
  simp only [List.map_map]
  rfl

/-- A segment stands on one of the lines. -/
theorem exists_line_of_mem_segments {ls : List CodeLine} {s : Segment} (h : s ∈ segments ls) :
    ∃ l ∈ ls, s.line = l.number := by
  rw [segments, List.mem_flatMap] at h
  obtain ⟨l, hl, h⟩ := h
  obtain ⟨part, -, rfl⟩ := List.mem_map.mp h
  exact ⟨l, hl, rfl⟩

end Statement

end StLint

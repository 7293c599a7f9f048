import StLint.Proofs.Statement.Row

/-!
# Reading a program

The reader goes through the rows once, and the open blocks are all that it remembers. **A tree leaves
the open blocks as they were**: its closing words close what its headers opened and nothing else. So
every statement is read under the blocks that stand around it in the tree, and the scope that is
written into its nodes is theirs.

* `Reads` — what a run over some rows yields, whatever comes after them.
* `Reads.cons`, `Reads.append`, `Reads.block` — one row, one run after the other, and a block.
* `Block.reads` — the run over a program.
-/

namespace StLint

namespace BlockStack

theorem path_push (s : BlockStack) (kind : BlockKind) (n : Nat) :
    (s.push kind n).path = Statement.within s.path kind n := by
  have hblocks : (s.push kind n).blocks.reverse.map segment
      = s.blocks.reverse.map segment ++ [segment ⟨kind, n⟩] := by
    rw [push, List.reverse_cons, List.map_append]
    rfl
  rw [path, hblocks, String.join_append, ← String.append_assoc]
  show s.path ++ String.join [segment ⟨kind, n⟩] = _
  rw [String.join_cons, String.join_nil, String.append_empty, Statement.within, segment]
  simp only [String.append_assoc]

/-- A block that was just opened is the one that is closed. -/
theorem close_push (s : BlockStack) (kind : BlockKind) (n : Nat) :
    (s.push kind n).close kind = s := by
  have hblocks : closeBlocks? kind (s.push kind n).blocks = some s.blocks := if_pos rfl
  rw [close, close?, hblocks]
  rfl

end BlockStack

namespace Statement

open Text

/-! ## Runs -/

/-- The rows as segments, the first of which is line `n`. -/
def rowSegments (n : Nat) : List Row → List Segment
  | [] => []
  | row :: rows => ⟨n, trim row.text⟩ :: rowSegments (n + 1) rows

theorem rowSegments_append (n : Nat) (rows more : List Row) :
    rowSegments n (rows ++ more) = rowSegments n rows ++ rowSegments (n + rows.length) more := by
  induction rows generalizing n with
  | nil => rfl
  | cons row rows ih =>
      have hn : n + 1 + rows.length = n + (row :: rows).length := by
        rw [List.length_cons]
        omega
      rw [List.cons_append, rowSegments, rowSegments, ih, hn, List.cons_append]

/-- A run over rows yields nodes and no diagnostic, and leaves some blocks open, **whatever comes
    after the rows**. -/
def Reads (n : Nat) (stack : BlockStack) (rows : List Row) (nodes : List Node)
    (left : BlockStack) : Prop :=
  ∀ later, readSegments stack (rowSegments n rows ++ later)
    = (⟨nodes, []⟩ ++ (readSegments left later).1, (readSegments left later).2)

variable {n : Nat} {stack left last : BlockStack} {row : Row} {rows more : List Row}
  {nodes others : List Node}

theorem Reads.nil : Reads n stack [] [] stack := by
  intro later
  show readSegments stack later = (Output.none ++ _, _)
  rw [Output.none_append]

/-- One row and the run behind it. -/
theorem Reads.cons (hlabel : ∀ l, row = .label l → stack.innermost? = some .caseBlock)
    (h : Reads (n + 1) (row.after n stack) rows nodes left) :
    Reads n stack (row :: rows) (row.nodes ⟨n, stack.path⟩ ++ nodes) left := by
  intro later
  rw [rowSegments, List.cons_append, readSegments_cons, readStatement_row row hlabel]
  dsimp only
  rw [h later]
  dsimp only
  rw [← Output.append_assoc]
  rfl

/-- One run after the other. -/
theorem Reads.append (h : Reads n stack rows nodes left)
    (hmore : Reads (n + rows.length) left more others last) :
    Reads n stack (rows ++ more) (nodes ++ others) last := by
  intro later
  rw [rowSegments_append, List.append_assoc, h, hmore]
  dsimp only
  rw [← Output.append_assoc]
  rfl

/-- **A block**: its closing word closes what its header opened. -/
theorem Reads.block {kind : BlockKind} (hopens : row.after n stack = stack.push kind n)
    (hheader : ∀ l, row ≠ .label l)
    (hbody : Reads (n + 1) (stack.push kind n) rows nodes (stack.push kind n)) :
    Reads n stack (row :: (rows ++ [.ends kind])) (row.nodes ⟨n, stack.path⟩ ++ nodes) stack := by
  -- the rows inside left the block open, and it is the innermost one
  have hend : Reads (n + 1 + rows.length) (stack.push kind n) [.ends kind] [] stack := by
    refine @Reads.cons _ _ _ (.ends kind) [] [] (fun _ h => nomatch h) ?_
    show Reads _ ((stack.push kind n).close kind) [] [] stack
    rw [BlockStack.close_push]
    exact Reads.nil
  refine Reads.cons (fun l h => absurd h (hheader l)) ?_
  rw [hopens]
  have h := hbody.append hend
  rwa [List.append_nil] at h

/-! ## Trees -/

mutual

/-- A statement leaves the open blocks as they were. -/
theorem Stmt.reads (n : Nat) (stack : BlockStack) (s : Stmt) :
    Reads n stack s.rows (s.nodes n stack.path) stack := by
  cases s with
  | assign target value => exact Reads.cons (fun _ h => nomatch h) Reads.nil
  | call callee arguments => exact Reads.cons (fun _ h => nomatch h) Reads.nil
  | ret => exact Reads.cons (fun _ h => nomatch h) Reads.nil
  | ifThen condition body alternatives =>
      refine Reads.block rfl (fun _ h => nomatch h) ?_
      have hbody := body.reads (n + 1) (stack.push .ifBlock n)
      have hrest := alternatives.reads (n + 1 + body.rows.length) (stack.push .ifBlock n)
      -- the scope inside the block is the one of the tree
      rw [BlockStack.path_push] at hbody hrest
      exact hbody.append hrest
  | forTo counter range body =>
      refine Reads.block rfl (fun _ h => nomatch h) ?_
      have hbody := body.reads (n + 1) (stack.push .forBlock n)
      rw [BlockStack.path_push] at hbody
      exact hbody
  | whileDo condition body =>
      refine Reads.block rfl (fun _ h => nomatch h) ?_
      have hbody := body.reads (n + 1) (stack.push .whileBlock n)
      rw [BlockStack.path_push] at hbody
      exact hbody
  | caseOf selector branches =>
      refine Reads.block rfl (fun _ h => nomatch h) ?_
      have hbranches := branches.reads (n + 1) (stack.push .caseBlock n) rfl
      rw [BlockStack.path_push] at hbranches
      exact hbranches

/-- A program leaves the open blocks as they were. -/
theorem Block.reads (n : Nat) (stack : BlockStack) (b : Block) :
    Reads n stack b.rows (b.nodes n stack.path) stack := by
  cases b with
  | nil => exact Reads.nil
  | cons head tail =>
      exact (head.reads n stack).append (tail.reads (n + head.rows.length) stack)

theorem Alternatives.reads (n : Nat) (stack : BlockStack) (a : Alternatives) :
    Reads n stack a.rows (a.nodes n stack.path) stack := by
  cases a with
  | none => exact Reads.nil
  | otherwise body => exact Reads.cons (fun _ h => nomatch h) (body.reads (n + 1) stack)
  | elsif condition body rest =>
      refine Reads.cons (fun _ h => nomatch h) ?_
      exact (body.reads (n + 1) stack).append (rest.reads (n + 1 + body.rows.length) stack)

/-- Branches stand directly inside a `CASE`, where their labels are taken for labels. -/
theorem Branches.reads (n : Nat) (stack : BlockStack) (b : Branches)
    (hcase : stack.innermost? = some .caseBlock) :
    Reads n stack b.rows (b.nodes n stack.path) stack := by
  cases b with
  | none => exact Reads.nil
  | otherwise body => exact Reads.cons (fun _ h => nomatch h) (body.reads (n + 1) stack)
  | label l body rest =>
      -- the blocks inside an earlier branch are closed again, so this label is read in the `CASE`
      refine Reads.cons (fun _ _ => hcase) ?_
      exact (body.reads (n + 1) stack).append (rest.reads (n + 1 + body.rows.length) stack hcase)

end

end Statement

end StLint

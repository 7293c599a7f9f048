import StLint.Proofs.Pou.Translation
import StLint.Proofs.Section.Order
import StLint.Proofs.Source.Span
import StLint.Proofs.Statement.Order

/-!
# What a unit is made of

The reader accepts every text with a declaration, however broken the rest is, and the checks then
walk over whatever tree comes out. So **the tree is well formed for every source**: the statements
stand between the header and the end of the unit, in order, each with one line and one label, and
every node has the children that its kind promises.

* `slice_endIndex` — the range of a unit ends before the first line that closes it.
* `within_tableAt`, `stands_bodyAt` — the sections and the statements keep to that range.
* `WellFormed` — the invariant of a unit.
* `parse_wellFormed` — every unit that is read is well formed, and only a missing declaration fails.
-/

namespace StLint

open Text Source

namespace Pou

variable {raw : List Char} {ls : List CodeLine} {index : Nat} {d : Declaration} {P : Nat → Prop}

/-! ## The range of a unit -/

/-- The range of a unit ends before the first line that closes it. -/
theorem slice_endIndex (kind : UnitKind) (ls : List CodeLine) (start : Nat) :
    slice ls start (endIndex kind ls start)
      = (ls.drop start).takeWhile fun l => !startsWithKeyword kind.endKeyword l.text := by
  rw [slice, endIndex, List.drop_take, Nat.add_sub_cancel_left, List.takeWhile_eq_take_findIdx_not]
  simp only [Bool.not_not]

/-- The lines of a unit that the reader looks at. -/
def linesAt (ls : List CodeLine) (index : Nat) (d : Declaration) : List CodeLine :=
  slice ls (index + 1) (endIndex d.kind ls (index + 1))

/-- The sections of a unit keep to its lines, and the last of them does not end above the first. -/
theorem within_tableAt (raw : List Char) (h : ∀ l ∈ linesAt ls index d, P l.number) :
    (tableAt raw ls index d).Within P (index + 1) :=
  Section.Table.within_ofLines (lines raw) ls h

/-- The lines behind the sections are among the lines of the unit. -/
theorem slice_sublist_linesAt (raw : List Char) (ls : List CodeLine) (index : Nat)
    (d : Declaration) :
    (slice ls (((tableAt raw ls index d).lastEnd.map (· + 1)).getD (index + 1))
      (endIndex d.kind ls (index + 1))).Sublist (linesAt ls index d) := by
  have hstart : index + 1 ≤ ((tableAt raw ls index d).lastEnd.map (· + 1)).getD (index + 1) := by
    have htable := within_tableAt (P := fun _ => True) raw
      (fun l (_ : l ∈ linesAt ls index d) => trivial)
    cases hlast : (tableAt raw ls index d).lastEnd with
    | none => exact Nat.le_refl _
    | some i => exact Nat.le_succ_of_le (htable.lastEnd i hlast)
  obtain ⟨n, hn⟩ := Nat.exists_eq_add_of_le hstart
  rw [hn, linesAt, slice, slice, ← List.drop_drop]
  exact List.drop_sublist n _

/-- **The statements of a unit keep to its lines**, in their order. -/
theorem stands_bodyAt (raw : List Char) (h : ∀ l ∈ linesAt ls index d, P l.number)
    (hls : ls.Pairwise fun l m => l.number < m.number) :
    (∀ n ∈ (bodyAt raw ls index d).root.children, P n.line ∧ n.IsStatement) ∧
      ((bodyAt raw ls index d).root.children.Pairwise fun m n => m.line ≤ n.line) ∧
      ∀ c ∈ (bodyAt raw ls index d).diagnostics, P c.line := by
  have hsublist := slice_sublist_linesAt raw ls index d
  have hline : ∀ {k}, (∃ s ∈ Statement.segments (slice ls
      (((tableAt raw ls index d).lastEnd.map (· + 1)).getD (index + 1))
      (endIndex d.kind ls (index + 1))), k = s.line) → P k := by
    rintro k ⟨s, hs, rfl⟩
    obtain ⟨l, hl, hnumber⟩ := Statement.exists_line_of_mem_segments hs
    rw [hnumber]
    exact h l (hsublist.subset hl)
  rw [bodyAt, Statement.Body.ofLines]
  obtain ⟨hnodes, hdiagnostics⟩ := Statement.Body.stands_ofSegments (String.ofList d.name)
    (Statement.segments (slice ls
      (((tableAt raw ls index d).lastEnd.map (· + 1)).getD (index + 1))
      (endIndex d.kind ls (index + 1))))
  refine ⟨fun n hn => ⟨hline (hnodes n hn).1, (hnodes n hn).2⟩, ?_,
    fun c hc => hline (hdiagnostics c hc)⟩
  refine Statement.Body.pairwise_line_ofSegments _ (Statement.pairwise_line_segments ?_)
  have hrange : (linesAt ls index d).Pairwise fun l m => l.number < m.number :=
    (hls.sublist (List.take_sublist _ _)).sublist (List.drop_sublist _ _)
  exact (hrange.sublist hsublist).imp Nat.le_of_lt

/-! ## Well-formed units -/

/-- A unit that is declared on line `h` and ends before line `e`. -/
structure WellFormed (h e : Nat) (u : Pou) : Prop where
  root : u.body.kind = .root ∧ u.body.line = 0 ∧ u.body.scope = u.name
  onlyRoot : ∀ n ∈ u.body.children, ∀ m ∈ n.preorder, m.kind ≠ .root
  /-- Every statement stands between the two lines, and every node below it on its line and under its
      label, with the children that its kind promises. -/
  statements : ∀ n ∈ u.body.children, (h < n.line ∧ n.line < e) ∧ n.IsStatement
  statementsOrdered : u.body.children.Pairwise fun m n => m.line ≤ n.line
  vars : ∀ v ∈ u.vars, h < v.line ∧ v.line < e
  diagnostics : ∀ c ∈ u.diagnostics, h < c.line ∧ c.line < e
  diagnosticsOrdered : u.diagnostics.Pairwise fun b c => b.line ≤ c.line

/-- A unit is well formed when its sections and its statements keep to its lines. -/
theorem wellFormed_ofParts (label : String) (source : List Char) (description : Option (List Char))
    {table : Section.Table} {body : Statement.Body} {first h e : Nat}
    (htable : table.Within (fun k => h < k ∧ k < e) first)
    (hroot : body.root.kind = .root ∧ body.root.line = 0 ∧ body.root.scope = String.ofList d.name)
    (hnodes : ∀ n ∈ body.root.children, (h < n.line ∧ n.line < e) ∧ n.IsStatement)
    (hordered : body.root.children.Pairwise fun m n => m.line ≤ n.line)
    (hdiagnostics : ∀ c ∈ body.diagnostics, h < c.line ∧ c.line < e) :
    WellFormed h e (ofParts label source d description table body) := by
  constructor
  case root => exact hroot
  case onlyRoot =>
    intro n hn m hm hkind
    have hshape := (hnodes n hn).2.shaped m hm
    rw [Node.HasShape, hkind] at hshape
    exact hshape
  case statements => exact hnodes
  case statementsOrdered => exact hordered
  case vars => exact htable.vars
  case diagnostics =>
    intro c hc
    rcases List.mem_append.mp (List.mem_mergeSort.mp hc) with hc | hc
    · exact htable.diagnostics c hc
    · exact hdiagnostics c hc
  case diagnosticsOrdered =>
    refine (List.pairwise_mergeSort ?_ ?_ _).imp fun hle => of_decide_eq_true hle
    · intro a b c hab hbc
      rw [decide_eq_true_eq] at hab hbc ⊢
      exact Nat.le_trans hab hbc
    · intro a b
      rw [Bool.or_eq_true, decide_eq_true_eq, decide_eq_true_eq]
      exact Nat.le_total a.line b.line

/-- **A unit is well formed between the lines of its declaration.** -/
theorem wellFormed_ofDeclaration (label : String) (source raw : List Char)
    (hls : ls.Pairwise fun l m => l.number < m.number) {h e : Nat}
    (hlines : ∀ l ∈ linesAt ls index d, h < l.number ∧ l.number < e) :
    WellFormed h e (ofDeclaration label source raw ls index d) := by
  have htable := within_tableAt (P := fun k => h < k ∧ k < e) raw hlines
  obtain ⟨hnodes, hordered, hdiagnostics⟩ :=
    stands_bodyAt (P := fun k => h < k ∧ k < e) raw hlines hls
  rw [ofDeclaration_eq]
  exact wellFormed_ofParts label source _ htable ⟨rfl, rfl, rfl⟩ hnodes hordered hdiagnostics

/-- **Every unit that is read is well formed**, between the line of the first declaration and the
    line that closes it. Nothing but the absence of a declaration fails. -/
theorem parse_wellFormed (label : String) (source : List Char) :
    match declarationLine? source with
    | none => parse label source = .error (.noUnitDeclaration label)
    | some (h, d) => ∃ u, parse label source = .ok u ∧ u.kind = d.kind ∧
        u.name = String.ofList d.name ∧ u.WellFormed h (closingLine d.kind source h) := by
  have hlines : lines (stripComments (normalizeLineEndings source)) = lines (stripComments source) := by
    rw [stripComments, normalizeLineEndings_idem, stripComments]
  rw [parse_eq_find]
  cases hfrom : declarationLine? source with
  | none =>
      have hnone : findDeclaration? (codeLines (normalizeLineEndings source)) = none := by
        rw [codeLines, hlines]
        exact findDeclaration?_collapse_of_none hfrom
      simp only [hnone]
  | some x =>
      obtain ⟨h, d⟩ := x
      obtain ⟨i, b, hfind, hpos, hdrop⟩ :
          ∃ i b, findDeclaration? (collapse false 1 (lines (stripComments source))) = some (i, d) ∧
            1 ≤ h ∧ (collapse false 1 (lines (stripComments source))).drop (i + 1)
              = collapse b (h + 1) ((lines (stripComments source)).drop (h + 1 - 1)) :=
        exists_findDeclaration?_collapse hfrom
      rw [Nat.add_sub_cancel, ← hlines] at hdrop
      rw [← hlines] at hfind
      have hclosing : closingLine d.kind (normalizeLineEndings source) h
          = closingLine d.kind source h := by
        rw [closingLine, hlines, closingLine]
      simp only [codeLines, hfind]
      refine ⟨_, rfl, rfl, rfl, wellFormed_ofDeclaration label source _
        (pairwise_number_collapse false 1 _) ?_⟩
      intro l hl
      rw [linesAt, slice_endIndex] at hl
      rw [← hclosing]
      exact number_of_mem_below_declaration hdrop hl

/-- The two lines of a unit below a comment that runs over two lines. -/
example : (declarationLine? "(* a\nb *) PROGRAM Main\n\n\nx := 1;\nend_program".toList).map
      (fun x => (x.1, closingLine x.2.kind
        "(* a\nb *) PROGRAM Main\n\n\nx := 1;\nend_program".toList x.1))
    = some (2, 6) := by
  decide

end Pou

end StLint

import StLint.Pou.Parse
import StLint.Proofs.Section.Shift
import StLint.Proofs.Source.Declaration
import StLint.Proofs.Statement.Shift

/-!
# Units, moved down

Line feeds in front of a source do two things to its lines of code: they **move** them, and they may
add a blank line before them. Neither changes what is read: a unit that stands further down is the
same unit, moved down.

* `parse_eq_find` — only a missing declaration is refused.
* `ofDeclaration_append` — blank lines before the lines of code change nothing.
* `ofDeclaration_map_shift` — lines that stand further down give the unit, moved down.
* `parse_newlines_shift`, `parse_below_newlines` — **the translation law** of the reader.
-/

namespace StLint

open Text Source

namespace Source

/-! ## Ranges of lines -/

variable {α β : Type}

theorem slice_append (p ls : List α) (start stop : Nat) :
    slice (p ++ ls) (p.length + start) (p.length + stop) = slice ls start stop := by
  rw [slice, slice, List.take_length_add_append, List.drop_length_add_append]

theorem slice_map (f : α → β) (ls : List α) (start stop : Nat) :
    slice (ls.map f) start stop = (slice ls start stop).map f := by
  rw [slice, slice, ← List.map_take, ← List.map_drop]

theorem mem_of_mem_slice {a : α} {ls : List α} {start stop : Nat} (h : a ∈ slice ls start stop) :
    a ∈ ls :=
  List.mem_of_mem_take (List.mem_of_mem_drop h)

theorem map_shift_zero (ls : List CodeLine) : ls.map (CodeLine.shift 0) = ls :=
  List.map_id'' (fun _ => rfl) ls

end Source

/-! ## The parts of a unit -/

namespace Section.Table

variable {core : List CodeLine} {src : List (List Char)}

/-- Lines before a range only move the index of the last `END_VAR`. -/
theorem ofLines_append (p : List CodeLine) (hcore : ∀ l ∈ core, 0 < l.number) (start stop : Nat) :
    ofLines src (p ++ core) (p.length + start) (p.length + stop)
      = (ofLines src core start stop).shift 0 p.length := by
  have hslice : ∀ l ∈ slice core start stop, 0 < l.number := fun l hl => hcore l (mem_of_mem_slice hl)
  have hread := readEntries_shift 0 p.length src hslice start [] none
  rw [map_shift_zero, map_shift_zero, Nat.add_comm start] at hread
  rw [ofLines, ofLines, slice_append, ← ofEntries_shift]
  show ofEntries (readEntries src (p.length + start) [] none _).1 (readEntries src _ [] none _).2 = _
  rw [show readEntries src (p.length + start) [] none (slice core start stop) = _ from hread]

/-- The table of moved lines is the moved table. -/
theorem ofLines_map_shift (n : Nat) (hcore : ∀ l ∈ core, 0 < l.number) (start stop : Nat) :
    ofLines (List.replicate n [] ++ src) (core.map (CodeLine.shift n)) start stop
      = (ofLines src core start stop).shift n 0 := by
  have hslice : ∀ l ∈ slice core start stop, 0 < l.number := fun l hl => hcore l (mem_of_mem_slice hl)
  have hread := readEntries_shift n 0 src hslice start [] none
  rw [ofLines, ofLines, slice_map, ← ofEntries_shift]
  show ofEntries (readEntries _ start [] none _).1 (readEntries _ start [] none _).2 = _
  rw [show readEntries (List.replicate n [] ++ src) start [] none _ = _ from hread]

end Section.Table

namespace Statement

variable {core : List CodeLine} {unit : String}

theorem Body.ofLines_append (p : List CodeLine) (start stop : Nat) :
    Body.ofLines unit (p ++ core) (p.length + start) (p.length + stop)
      = Body.ofLines unit core start stop := by
  rw [Body.ofLines, Body.ofLines, slice_append]

/-- The segments of numbered lines have those numbers. -/
theorem numbered_of_mem_segments (hcore : ∀ l ∈ core, 0 < l.number ∧ l.number < limit64)
    {start stop : Nat} {s : Segment} (hs : s ∈ segments (slice core start stop)) : s.Numbered := by
  obtain ⟨l, hl, hline⟩ := exists_line_of_mem_segments hs
  have h := hcore l (mem_of_mem_slice hl)
  rw [← hline] at h
  exact h

/-- The body of moved lines is the moved body. -/
theorem Body.ofLines_map_shift (n : Nat) (hu : IsLabelName unit)
    (hcore : ∀ l ∈ core, 0 < l.number ∧ l.number < limit64) (start stop : Nat) :
    Body.ofLines unit (core.map (CodeLine.shift n)) start stop
      = (Body.ofLines unit core start stop).shift n := by
  rw [Body.ofLines, Body.ofLines, slice_map, segments_map_shift]
  exact Body.ofSegments_shift n hu fun s hs => numbered_of_mem_segments hcore hs

end Statement

namespace Pou

variable {label : String} {source raw : List Char} {core : List CodeLine} {d : Declaration}

theorem endIndex_append (kind : UnitKind) (p : List CodeLine) (start : Nat) :
    endIndex kind (p ++ core) (p.length + start) = p.length + endIndex kind core start := by
  rw [endIndex, endIndex, List.drop_length_add_append, Nat.add_assoc]

theorem endIndex_map_shift (n : Nat) (kind : UnitKind) (start : Nat) :
    endIndex kind (core.map (CodeLine.shift n)) start = endIndex kind core start := by
  rw [endIndex, endIndex, ← List.map_drop, List.findIdx_map]
  rfl

/-! ## A unit and its parts -/

/-- The sections of the unit that is declared at an index. -/
def tableAt (raw : List Char) (ls : List CodeLine) (index : Nat) (d : Declaration) : Section.Table :=
  .ofLines (lines raw) ls (index + 1) (endIndex d.kind ls (index + 1))

/-- The statements of the unit that is declared at an index. -/
def bodyAt (raw : List Char) (ls : List CodeLine) (index : Nat) (d : Declaration) :
    Statement.Body :=
  .ofLines (String.ofList d.name) ls (((tableAt raw ls index d).lastEnd.map (· + 1)).getD (index + 1))
    (endIndex d.kind ls (index + 1))

/-- The unit with the given parts. -/
def ofParts (label : String) (source : List Char) (d : Declaration)
    (description : Option (List Char)) (table : Section.Table) (body : Statement.Body) : Pou where
  kind := d.kind
  name := String.ofList d.name
  source := String.ofList source
  vars := table.vars
  body := body.root
  dependencies := (Dependencies.ofBody table.vars body.root).units
  instances := (Dependencies.ofBody table.vars body.root).instances
  description := description.map String.ofList
  returnType := d.returnType.map String.ofList
  diagnostics := (table.diagnostics ++ body.diagnostics).mergeSort fun a b => a.line ≤ b.line
  origin := some label

theorem ofDeclaration_eq (label : String) (source raw : List Char) (ls : List CodeLine)
    (index : Nat) (d : Declaration) :
    ofDeclaration label source raw ls index d
      = ofParts label source d (descriptionAbove? raw (numberAt ls index)) (tableAt raw ls index d)
          (bodyAt raw ls index d) :=
  rfl

theorem body_ofDeclaration (label : String) (source raw : List Char) (ls : List CodeLine)
    (index : Nat) (d : Declaration) :
    (ofDeclaration label source raw ls index d).body = (bodyAt raw ls index d).root :=
  rfl

theorem name_ofDeclaration (label : String) (source raw : List Char) (ls : List CodeLine)
    (index : Nat) (d : Declaration) :
    (ofDeclaration label source raw ls index d).name = String.ofList d.name :=
  rfl

/-- **Only a missing declaration is refused**: one that is found has the index of a line of code, and a
    blank source has none. -/
theorem parse_eq_find (label : String) (source : List Char) :
    parse label source
      = match findDeclaration? (codeLines (normalizeLineEndings source)) with
        | none => .error (.noUnitDeclaration label)
        | some (index, d) => .ok (ofDeclaration label source (normalizeLineEndings source)
            (codeLines (normalizeLineEndings source)) index d) := by
  rw [parse]
  by_cases hblank : (trim source).isEmpty = true
  · rw [if_pos hblank,
      findDeclaration?_codeLines_of_blank (trim_eq_nil_iff.mp (List.isEmpty_iff.mp hblank))]
  · rw [if_neg hblank]
    cases hfind : findDeclaration? (codeLines (normalizeLineEndings source)) with
    | none => simp only [hfind]
    | some found =>
        obtain ⟨index, d⟩ := found
        have hindex : ¬ (codeLines (normalizeLineEndings source)).length ≤ index :=
          Nat.not_le.mpr (lt_length_of_findDeclaration? hfind)
        simp only [hfind, if_neg hindex]

/-- A unit that is read is declared in its source. -/
theorem exists_ofDeclaration_of_parse {u : Pou} (h : parse label source = .ok u) :
    ∃ index d, findDeclaration? (codeLines (normalizeLineEndings source)) = some (index, d) ∧
      ofDeclaration label source (normalizeLineEndings source)
        (codeLines (normalizeLineEndings source)) index d = u := by
  rw [parse_eq_find] at h
  cases hfind : findDeclaration? (codeLines (normalizeLineEndings source)) with
  | none =>
      rw [hfind] at h
      cases h
  | some found =>
      rw [hfind] at h
      exact ⟨found.1, found.2, rfl, Except.ok.inj h⟩

/-- A unit, moved down by `n` lines, of a source that stands further down. -/
def movedTo (source : List Char) (n : Nat) (u : Pou) : Pou :=
  { u with
    source := String.ofList source
    body := u.body.shift n
    vars := u.vars.map (Variable.shift n)
    diagnostics := u.diagnostics.map (Diagnostic.shift n) }

/-- **The unit of moved parts** is the moved unit; diagnostics stay in order. -/
theorem ofParts_shift (n k : Nat) (source' : List Char) (description : Option (List Char))
    (table : Section.Table) (body : Statement.Body) :
    ofParts label source' d description (table.shift n k) (body.shift n)
      = movedTo source' n (ofParts label source d description table body) := by
  have hdependencies : Dependencies.ofBody (table.shift n k).vars (body.shift n).root
      = Dependencies.ofBody table.vars body.root :=
    Dependencies.ofBody_shift n table.vars body.root
  -- a stable sort by line keeps its order when every line grows by `n`
  have hsort : ((table.shift n k).diagnostics ++ (body.shift n).diagnostics).mergeSort
        (fun a b => a.line ≤ b.line)
      = ((table.diagnostics ++ body.diagnostics).mergeSort fun a b => a.line ≤ b.line).map
          (Diagnostic.shift n) := by
    show (table.diagnostics.map (Diagnostic.shift n) ++ body.diagnostics.map (Diagnostic.shift n)).mergeSort
      _ = _
    rw [← List.map_append]
    refine (List.map_mergeSort fun a _ b _ => ?_).symm
    rw [Bool.eq_iff_iff, decide_eq_true_eq, decide_eq_true_eq]
    exact (Nat.add_le_add_iff_right).symm
  rw [ofParts, hdependencies, hsort]
  rfl

/-! ## A unit on other lines -/

/-- Lines before the lines of code change nothing. -/
theorem ofDeclaration_append (p : List CodeLine) (hcore : ∀ l ∈ core, 0 < l.number) {i : Nat}
    (hi : i < core.length) :
    ofDeclaration label source raw (p ++ core) (p.length + i) d
      = ofDeclaration label source raw core i d := by
  have hnumber : numberAt (p ++ core) (p.length + i) = numberAt core i := by
    rw [numberAt, numberAt, List.getElem?_append_right (Nat.le_add_right ..),
      Nat.add_sub_cancel_left, List.getElem?_eq_getElem hi]
    rfl
  have htable : tableAt raw (p ++ core) (p.length + i) d = (tableAt raw core i d).shift 0 p.length := by
    rw [tableAt, tableAt, Nat.add_assoc, endIndex_append]
    exact Section.Table.ofLines_append p hcore _ _
  have hbody : bodyAt raw (p ++ core) (p.length + i) d = bodyAt raw core i d := by
    -- the body starts behind the last section, or behind the declaration if there is none
    have hstart : (((tableAt raw core i d).shift 0 p.length).lastEnd.map (· + 1)).getD
          (p.length + (i + 1))
        = p.length + ((tableAt raw core i d).lastEnd.map (· + 1)).getD (i + 1) := by
      show (((tableAt raw core i d).lastEnd.map (· + p.length)).map (· + 1)).getD _ = _
      cases (tableAt raw core i d).lastEnd with
      | none => rfl
      | some e =>
          show e + p.length + 1 = p.length + (e + 1)
          omega
    rw [bodyAt, bodyAt, htable, Nat.add_assoc, endIndex_append, hstart]
    exact Statement.Body.ofLines_append p _ _
  -- only the index of the last section moves, and no field holds it
  have hshift : ofParts label source d (descriptionAbove? raw (numberAt core i))
        ((tableAt raw core i d).shift 0 p.length) (bodyAt raw core i d)
      = ofParts label source d (descriptionAbove? raw (numberAt core i)) (tableAt raw core i d)
        (bodyAt raw core i d) := by
    have hvars : ((tableAt raw core i d).shift 0 p.length).vars = (tableAt raw core i d).vars :=
      List.map_id'' (fun _ => rfl) _
    have hdiagnostics : ((tableAt raw core i d).shift 0 p.length).diagnostics
        = (tableAt raw core i d).diagnostics := List.map_id'' (fun _ => rfl) _
    rw [ofParts, ofParts, hvars, hdiagnostics]
  rw [ofDeclaration_eq, ofDeclaration_eq, hnumber, htable, hbody, hshift]

/-- **Lines that stand further down** give the unit, moved down. -/
theorem ofDeclaration_map_shift (n : Nat) (source' : List Char) (hd : IsLabelName (String.ofList d.name))
    (hcore : ∀ l ∈ core, 0 < l.number ∧ l.number < limit64) {i : Nat} (hi : i < core.length) :
    ofDeclaration label source' (List.replicate n '\n' ++ raw) (core.map (CodeLine.shift n)) i d
      = movedTo source' n (ofDeclaration label source raw core i d) := by
  have hnumber : numberAt core i = core[i].number := by
    rw [numberAt, List.getElem?_eq_getElem hi]
    rfl
  have hnumber' : numberAt (core.map (CodeLine.shift n)) i = core[i].number + n := by
    rw [numberAt, List.getElem?_map, List.getElem?_eq_getElem hi]
    rfl
  have hdescription : descriptionAbove? (List.replicate n '\n' ++ raw) (core[i].number + n)
      = descriptionAbove? raw core[i].number :=
    descriptionAbove?_newlines n raw (hcore _ (List.getElem_mem hi)).1
  have htable : tableAt (List.replicate n '\n' ++ raw) (core.map (CodeLine.shift n)) i d
      = (tableAt raw core i d).shift n 0 := by
    rw [tableAt, tableAt, endIndex_map_shift, lines_replicate_newline_append]
    exact Section.Table.ofLines_map_shift n (fun l hl => (hcore l hl).1) _ _
  have hbody : bodyAt (List.replicate n '\n' ++ raw) (core.map (CodeLine.shift n)) i d
      = (bodyAt raw core i d).shift n := by
    have hlast : ((tableAt raw core i d).shift n 0).lastEnd = (tableAt raw core i d).lastEnd :=
      Option.map_id_apply
    rw [bodyAt, bodyAt, htable, hlast, endIndex_map_shift]
    exact Statement.Body.ofLines_map_shift n hd hcore _ _
  rw [ofDeclaration_eq, ofDeclaration_eq, hnumber', hnumber, hdescription, htable, hbody]
  exact ofParts_shift n 0 source' _ _ _

/-! ## The translation law -/

/-- The lines of code of a source that fits in 64 bits are numbered within it. -/
theorem number_of_mem_codeLines_raw {s : List Char}
    (hs : (lines (normalizeLineEndings s)).length < limit64) {l : CodeLine}
    (hl : l ∈ codeLines (normalizeLineEndings s)) : 0 < l.number ∧ l.number < limit64 := by
  have h := number_of_mem_codeLines hl
  rw [normalizeLineEndings_idem] at h
  exact ⟨h.1, Nat.lt_of_le_of_lt h.2 hs⟩

/-- A source that stands further down is read as the unit, moved down. -/
theorem parse_newlines (label : String) (n : Nat) {s : List Char}
    (hs : (lines (normalizeLineEndings s)).length < limit64) :
    parse label (List.replicate n '\n' ++ s)
      = (parse label s).map (movedTo (List.replicate n '\n' ++ s) n) := by
  obtain ⟨core, p, q, hp, hq, hcode, hcode'⟩ := exists_codeLines_newlines n (normalizeLineEndings s)
  have hcore : ∀ l ∈ core, 0 < l.number ∧ l.number < limit64 := fun l hl =>
    number_of_mem_codeLines_raw hs (hcode ▸ List.mem_append_right p hl)
  have hcore' : ∀ l ∈ core.map (CodeLine.shift n), 0 < l.number := by
    intro l hl
    obtain ⟨m, hm, rfl⟩ := List.mem_map.mp hl
    exact Nat.lt_of_lt_of_le (hcore m hm).1 (Nat.le_add_right ..)
  -- both searches pass over the blank lines in front and meet the same lines
  rw [parse_eq_find, parse_eq_find, normalizeLineEndings_replicate_newline_append, hcode, hcode',
    findDeclaration?_append_of_blank hp, findDeclaration?_append_of_blank hq,
    findDeclaration?_map_shift]
  cases hfind : findDeclaration? core with
  | none => rfl
  | some x =>
      obtain ⟨l, hl, hd⟩ := exists_of_findDeclaration? (i := x.1) (d := x.2) hfind
      obtain ⟨hi, -⟩ := List.getElem?_eq_some_iff.mp hl
      show Except.ok (ofDeclaration _ _ _ _ (q.length + x.1) x.2)
        = Except.ok (movedTo _ n (ofDeclaration _ _ _ _ (p.length + x.1) x.2))
      rw [ofDeclaration_append p (fun l hl => (hcore l hl).1) hi,
        ofDeclaration_append q hcore' (by rwa [List.length_map]),
        ofDeclaration_map_shift n _ (isLabelName_of_ofLine? hd) hcore hi]

/-- The nodes of a unit are labelled by stacks of blocks under its name. -/
theorem labelledIn_of_parse {label : String} {s : List Char} {u : Pou}
    (hs : (lines (normalizeLineEndings s)).length < limit64) (hu : parse label s = .ok u) :
    u.body.LabelledIn u.name := by
  obtain ⟨index, d, hfind, rfl⟩ := exists_ofDeclaration_of_parse hu
  obtain ⟨l, -, hd⟩ := exists_of_findDeclaration? hfind
  rw [body_ofDeclaration, name_ofDeclaration, bodyAt, Statement.Body.ofLines]
  exact Statement.Body.labelledIn_ofSegments (isLabelName_of_ofLine? hd) fun s' hs' =>
    Statement.numbered_of_mem_segments (fun m hm => number_of_mem_codeLines_raw hs hm) hs'

/-- The unit keeps the text that it was read from. -/
theorem source_of_parse {label : String} {s : List Char} {u : Pou} (hu : parse label s = .ok u) :
    u.source = String.ofList s := by
  obtain ⟨index, d, -, rfl⟩ := exists_ofDeclaration_of_parse hu
  rw [ofDeclaration_eq]
  rfl

/-- **Line feeds in front of a source** move its unit down by as many lines, and change nothing else
    of it but its text; where there is no unit, they change nothing. -/
theorem parse_newlines_shift (label : String) (n : Nat) {s : List Char}
    (hs : (lines (normalizeLineEndings s)).length < limit64) :
    parse label (List.replicate n '\n' ++ s)
      = (parse label s).map fun u =>
          { u.shift n with source := String.ofList (List.replicate n '\n' ++ s) } := by
  by_cases hn : n = 0
  · -- without line feeds nothing moves; only a move by some lines is read off a label
    subst hn
    rw [List.replicate_zero, List.nil_append]
    cases hu : parse label s with
    | error e => rfl
    | ok u => rw [Except.map, shift, if_pos rfl, ← source_of_parse hu]
  · rw [parse_newlines label n hs]
    cases parse label s with
    | error e => rfl
    | ok u =>
        rw [Except.map, Except.map, shift, if_neg hn]
        rfl

/-- The label of a node of a unit is a path of the unit, and a move moves each block of it. -/
theorem exists_blocks_of_labelledIn {unit : String} {root m : Node} (h : root.LabelledIn unit)
    (hm : m ∈ root.preorder) (n : Nat) :
    ∃ blocks : List OpenBlock, m.scope = (⟨unit, blocks⟩ : BlockStack).path ∧
      (m.shift n).scope = (⟨unit, blocks.map (·.shift n)⟩ : BlockStack).path := by
  obtain ⟨⟨unit, blocks⟩, hfits, rfl, hscope⟩ := h m hm
  refine ⟨blocks, hscope, ?_⟩
  rw [Node.scope_shift, hscope, Node.shiftLabelText_path n hfits.1 hfits.2]
  rfl

/-- **The translation law.** A source below line feeds is read as its unit, moved down: each line of
    a node grows by the number of line feeds, and each label stays a path of the same unit in which
    every block is moved down. -/
theorem parse_below_newlines (label : String) (n : Nat) (s : List Char)
    (hs : (lines (normalizeLineEndings s)).length < limit64) :
    parse label (List.replicate n '\n' ++ s)
        = (parse label s).map (fun u =>
            { u.shift n with source := String.ofList (List.replicate n '\n' ++ s) }) ∧
      ∀ u, parse label s = .ok u → ∀ m ∈ u.body.preorder,
        (m.shift n).line = (if m.line = 0 then 0 else m.line + n) ∧
        ∃ blocks : List OpenBlock, m.scope = (⟨u.name, blocks⟩ : BlockStack).path ∧
          (m.shift n).scope = (⟨u.name, blocks.map (·.shift n)⟩ : BlockStack).path := by
  refine ⟨parse_newlines_shift label n hs, fun u hu m hm => ⟨Node.line_shift n m, ?_⟩⟩
  exact exists_blocks_of_labelledIn (labelledIn_of_parse hs hu) hm n

/-- A program with a branch inside a loop. -/
def branchInLoop : List Char :=
  "PROGRAM Main\nFOR i := 1 TO 9 DO\nIF a THEN b := i; END_IF;\nEND_FOR;\nEND_PROGRAM".toList

/-- The branch inside the loop, below two line feeds. -/
theorem parse_below_newlines_branchInLoop :
    (parse "Main.st" branchInLoop).toBool = true ∧
      (lines (normalizeLineEndings branchInLoop)).length < limit64 ∧
      parse "Main.st" (List.replicate 2 '\n' ++ branchInLoop)
        = (parse "Main.st" branchInLoop).map (fun u =>
            { u.shift 2 with source := String.ofList (List.replicate 2 '\n' ++ branchInLoop) }) :=
  ⟨by decide, by decide, (parse_below_newlines "Main.st" 2 branchInLoop (by decide)).1⟩

end Pou

end StLint

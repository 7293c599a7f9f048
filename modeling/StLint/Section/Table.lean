import StLint.Pou.Basic
import StLint.Section.Declaration
import StLint.Section.Header
import StLint.Source.Line

/-!
# The variable table

Sections are read line by line into **entries**: a variable, a text that is no declaration, or the
end of a section. The table is the fold of its entries, so what a repeated name does is said in
one place, `Table.add`: the later declaration counts, at the place of the earlier one.

* `readEntries` — the entries of a range of lines, and the section that is left open.
* `Table.ofLines` — the table of a range of lines.
-/

namespace StLint.Section

open Text Source

/-- One thing that is read from the lines of a section. -/
inductive Entry where
  | declared (v : Variable)
  | malformed (line : Nat) (text : List Char)
  /-- `END_VAR` on the line at an index. -/
  | ended (index : Nat)

/-- A section that is being read. -/
structure OpenSection where
  header : Header
  /-- The line of the header. -/
  opening : CodeLine
  /-- The header stands on the line that is being read. -/
  onThisLine : Bool

/-- The line that is being read and what surrounds it. -/
structure Position where
  index : Nat
  line : CodeLine
  /-- Lines of the range above, nearest first. -/
  above : List CodeLine
  /-- The lines of the source with their comments. -/
  sourceLines : List (List Char)

namespace Position

/-- The number of lines above a declaration where a header may mark it constant. -/
def lookback : Nat := 2

/-- A header marks the declarations of this line constant: one on the line itself, where the open
    section begins on it, or on the lines just above. -/
def isConstant (p : Position) (s : OpenSection) : Bool :=
  (s.onThisLine && marksConstant p.line.text) ||
  (p.above.take lookback).any fun l => marksConstant l.text

/-- The comment that trails the code of this line. -/
def comment? (p : Position) : Option (List Char) :=
  p.sourceLines[p.line.number - 1]?.bind trailingComment?

/-- The entries of one declaration: one for each of its names. -/
def readDeclaration (p : Position) (s : OpenSection) (text : List Char) : List Entry :=
  match Declaration.read? text with
  | none => [.malformed p.line.number text]
  | some d => d.entries.map fun (name, address) =>
    if name.isEmpty then .malformed p.line.number text
    else .declared {
      name := String.ofList name
      dataType := String.ofList d.dataType
      scope := s.header.scope
      isConstant := p.isConstant s
      isRetain := s.header.retain
      initialValue := d.initialValue.map InitialValue.classify
      description := p.comment?.map String.ofList
      address := address.map String.ofList
      line := p.line.number }

/-- A declaration up to its semicolon at top level, and what follows it. -/
def cutDeclaration (s : List Char) : List Char × List Char :=
  match findTopLevel? ";" s with
  | some i => (trim (s.take (i + 1)), trimStart (s.drop (i + 1)))
  | none => (trim s, [])

theorem length_cutDeclaration_lt {s : List Char} (h : s ≠ []) :
    (cutDeclaration s).2.length < s.length := by
  have hs : 0 < s.length := List.length_pos_iff.2 h
  unfold cutDeclaration
  split
  · refine Nat.lt_of_le_of_lt (length_trimStart_le _) ?_
    simp only [List.length_drop]
    omega
  · simpa using hs

theorem length_keyword?_le {s rest : List Char} {scope : VariableScope}
    (h : keyword? s = some (scope, rest)) : rest.length < s.length := by
  simp only [keyword?] at h
  obtain ⟨k, hk, hw⟩ := List.exists_of_findSome?_eq_some h
  simp only [Option.bind_eq_some_iff, Option.map_eq_some_iff, Prod.mk.injEq] at hw
  obtain ⟨r, hr, _, _, _, rfl⟩ := hw
  simp only [dropWord?, Option.filter_eq_some_iff] at hr
  have hne : k.toList ≠ [] := by
    simp only [keywords, List.mem_cons, List.not_mem_nil, or_false] at hk
    rcases hk with rfl | rfl | rfl | rfl | rfl | rfl | rfl <;> decide
  obtain ⟨a, as, ha⟩ := List.exists_cons_of_ne_nil hne
  exact length_dropKeyword?_lt (ha ▸ hr.1)

theorem length_dropQualifiers_le (s : List Char) : (dropQualifiers s).length ≤ s.length := by
  fun_induction dropQualifiers s with
  | case1 s rest h ih => exact Nat.le_trans ih (Nat.le_of_lt (length_dropQualifier?_lt h))
  | case2 => exact Nat.le_refl _

theorem length_header_lt {s rest : List Char} {header : Header}
    (h : Header.read? s = some (header, rest)) : rest.length < s.length := by
  simp only [Header.read?, Option.map_eq_some_iff, Prod.mk.injEq, Prod.exists] at h
  obtain ⟨scope, r, hr, _, rfl⟩ := h
  exact Nat.lt_of_le_of_lt (length_trimStart_le _)
    (Nat.lt_of_le_of_lt (length_dropQualifiers_le r)
      (Nat.lt_of_lt_of_le (length_keyword?_le hr) (length_trimStart_le s)))

/-- The entries of the rest of a line. Outside a section only a header is read; inside one,
    `END_VAR` or a declaration. -/
def readRest (p : Position) (current : Option OpenSection) (rest : List Char) :
    List Entry × Option OpenSection :=
  match _hr : rest with
  | [] => ([], current)
  | c :: r =>
    match current with
    | none =>
      match _h : Header.read? (c :: r) with
      | none => ([], none)
      | some (header, tail) => readRest p (some ⟨header, p.line, true⟩) tail
    | some s =>
      if startsWithKeyword "END_VAR" (c :: r) then
        let (entries, open?) := readRest p none (trimStart (r.drop 6))
        (.ended p.index :: entries, open?)
      else
        let cut := cutDeclaration (c :: r)
        let (entries, open?) := readRest p (some s) cut.2
        (p.readDeclaration s cut.1 ++ entries, open?)
termination_by rest.length
decreasing_by
  · exact length_header_lt _h
  · refine Nat.lt_of_le_of_lt (length_trimStart_le _) ?_
    simp only [List.length_drop, List.length_cons]
    omega
  · exact length_cutDeclaration_lt (List.cons_ne_nil c r)

end Position

/-- The entries of lines, where the first has index `index`, and the section left open. -/
def readEntries (sourceLines : List (List Char)) (index : Nat) (above : List CodeLine)
    (current : Option OpenSection) : List CodeLine → List Entry × Option OpenSection
  | [] => ([], current)
  | l :: ls =>
    let current := current.map fun s => { s with onThisLine := false }
    let p : Position := ⟨index, l, above, sourceLines⟩
    let (here, current) := p.readRest current (trim l.text)
    let (later, open?) := readEntries sourceLines (index + 1) (l :: above) current ls
    (here ++ later, open?)

/-- What is known of the declarations of a unit. -/
structure Table where
  vars : List Variable
  diagnostics : List Diagnostic
  /-- Index of the line of the last `END_VAR`. -/
  lastEnd : Option Nat
  deriving Repr

namespace Table

/-- The table of no entries. -/
def empty : Table := ⟨[], [], none⟩

/-- Two variables share a place in the table: the same scope, and the same name in any case. -/
def clashes (v w : Variable) : Bool := v.scope = w.scope && w.isNamed v.name.toList

/-- The variables with one more: at the place of the first that clashes with it, else at the end. -/
def put (v : Variable) : List Variable → List Variable
  | [] => [v]
  | w :: ws => if clashes v w then v :: ws else w :: put v ws

/-- The message about a repeated name. -/
def redeclared (v : Variable) : Diagnostic where
  kind := .duplicateVariable
  line := v.line
  text := v.name ++ " redeclared in " ++ v.scope.word ++ " section"

/-- The table with one more entry. -/
def add (t : Table) : Entry → Table
  | .declared v =>
    { t with
      vars := put v t.vars
      diagnostics :=
        if t.vars.any (clashes v) then t.diagnostics ++ [redeclared v] else t.diagnostics }
  | .malformed line text =>
    { t with
      diagnostics := t.diagnostics ++ [⟨.malformedDeclaration, line, String.ofList text⟩] }
  | .ended index => { t with lastEnd := some index }

/-- The message about a section without an end. -/
def unterminated (s : OpenSection) : Diagnostic where
  kind := .unterminatedBlock
  line := s.opening.number
  text := String.ofList (trim s.opening.text)

/-- The table of entries and the section that they leave open. -/
def ofEntries (entries : List Entry) (open? : Option OpenSection) : Table :=
  let t := entries.foldl add empty
  { t with diagnostics := t.diagnostics ++ (open?.map unterminated).toList }

/-- The table of the lines with indices from `start` up to `stop`. -/
def ofLines (sourceLines : List (List Char)) (ls : List CodeLine) (start stop : Nat) : Table :=
  let (entries, open?) := readEntries sourceLines start [] none (slice ls start stop)
  ofEntries entries open?

end Table

end StLint.Section

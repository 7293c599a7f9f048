import StLint.Proofs.Pou.Tree
import StLint.Proofs.Source.Line
import StLint.Section.Table

/-!
# Sections, moved down

A section is read with three kinds of positions at hand: the number of a line in the source, its
index among the lines of code, and the source line that holds its trailing comment. When the source
moves down they **move together**, so the same table comes out, moved down.

* `Position.readRest_none_of_header`, `readRest_end`, `readRest_declaration` — one equation for each
  step of the reader.
* `readEntries_shift` — the entries of moved lines are the moved entries.
* `Table.ofEntries_shift` — the table of moved entries is the moved table.
-/

namespace StLint.Section

open Text Source

/-! ## What moves -/

/-- A section that is being read, moved down by `n` lines. -/
def OpenSection.shift (n : Nat) (s : OpenSection) : OpenSection :=
  { s with opening := s.opening.shift n }

/-- An entry, moved down by `n` lines, where its line of code is moved by `k` places. -/
def Entry.shift (n k : Nat) : Entry → Entry
  | .declared v => .declared (v.shift n)
  | .malformed line text => .malformed (line + n) text
  | .ended index => .ended (index + k)

/-- A table, moved down by `n` lines, where its lines of code are moved by `k` places. -/
def Table.shift (n k : Nat) (t : Table) : Table :=
  ⟨t.vars.map (Variable.shift n), t.diagnostics.map (Diagnostic.shift n), t.lastEnd.map (· + k)⟩

namespace Position

/-- A position, moved down by `n` empty lines in front of the source, where its line of code is
    moved by `k` places. -/
def shift (n k : Nat) (p : Position) : Position where
  index := p.index + k
  line := p.line.shift n
  above := p.above.map (CodeLine.shift n)
  sourceLines := List.replicate n [] ++ p.sourceLines

/-! ## The steps of the reader -/

variable {p : Position} {c : Char} {r : List Char} {s : OpenSection}

theorem readRest_nil (p : Position) (current : Option OpenSection) :
    p.readRest current [] = ([], current) := by
  rw [readRest.eq_def]

theorem readRest_none_of_not_header (h : Header.read? (c :: r) = none) :
    p.readRest none (c :: r) = ([], none) := by
  rw [readRest.eq_def]
  dsimp only
  split
  · rfl
  · rename_i hx
    rw [h] at hx
    cases hx

/-- A header opens its section on the line that is being read. -/
theorem readRest_none_of_header {header : Header} {tail : List Char}
    (h : Header.read? (c :: r) = some (header, tail)) :
    p.readRest none (c :: r) = p.readRest (some ⟨header, p.line, true⟩) tail := by
  rw [readRest.eq_def]
  dsimp only
  split
  · rename_i hx
    rw [h] at hx
    cases hx
  · rename_i hx
    rw [h] at hx
    cases hx
    rfl

theorem readRest_end (h : startsWithKeyword "END_VAR" (c :: r) = true) :
    p.readRest (some s) (c :: r)
      = (.ended p.index :: (p.readRest none (trimStart (r.drop 6))).1,
          (p.readRest none (trimStart (r.drop 6))).2) := by
  rw [readRest.eq_def]
  dsimp only
  rw [if_pos h]

theorem readRest_declaration (h : ¬ startsWithKeyword "END_VAR" (c :: r) = true) :
    p.readRest (some s) (c :: r)
      = (p.readDeclaration s (cutDeclaration (c :: r)).1 ++
            (p.readRest (some s) (cutDeclaration (c :: r)).2).1,
          (p.readRest (some s) (cutDeclaration (c :: r)).2).2) := by
  rw [readRest.eq_def]
  dsimp only
  rw [if_neg h]

/-! ## One line -/

variable {n k : Nat}

/-- What makes a declaration constant is looked up in texts alone. -/
theorem isConstant_shift (p : Position) (s : OpenSection) :
    (p.shift n k).isConstant (s.shift n) = p.isConstant s := by
  rw [isConstant, isConstant]
  show (_ || ((p.above.map (CodeLine.shift n)).take lookback).any _) = _
  rw [← List.map_take, List.any_map]
  rfl

/-- The trailing comment is looked up in the source line with the same text. -/
theorem comment?_shift (hp : 0 < p.line.number) : (p.shift n k).comment? = p.comment? := by
  -- lines are numbered from 1, and the empty lines stand in front of all others
  have hline : (p.shift n k).line.number - 1 = n + (p.line.number - 1) := by
    show p.line.number + n - 1 = _
    omega
  rw [comment?, comment?, hline]
  show ((List.replicate n [] ++ p.sourceLines)[_]?).bind _ = _
  rw [List.getElem?_append_right (by rw [List.length_replicate]; exact Nat.le_add_right ..),
    List.length_replicate, Nat.add_sub_cancel_left]

theorem readDeclaration_shift (hp : 0 < p.line.number) (text : List Char) :
    (p.shift n k).readDeclaration (s.shift n) text
      = (p.readDeclaration s text).map (Entry.shift n k) := by
  rw [readDeclaration, readDeclaration]
  cases Declaration.read? text with
  | none => rfl
  | some d =>
      dsimp only
      rw [List.map_map]
      refine List.map_congr_left ?_
      intro e _
      rw [isConstant_shift, comment?_shift hp]
      show (if e.1.isEmpty then _ else _) = Entry.shift n k (if e.1.isEmpty then _ else _)
      by_cases he : e.1.isEmpty = true
      · rw [if_pos he, if_pos he]
        rfl
      · rw [if_neg he, if_neg he]
        rfl

/-- **A line that stands further down** gives the same entries, moved down, by induction on what is
    left of the line. -/
theorem readRest_shift (hp : 0 < p.line.number) (current : Option OpenSection)
    (rest : List Char) :
    (p.shift n k).readRest (current.map (OpenSection.shift n)) rest
      = ((p.readRest current rest).1.map (Entry.shift n k),
          (p.readRest current rest).2.map (OpenSection.shift n)) := by
  induction current, rest using readRest.induct p with
  | case1 current => rw [readRest_nil, readRest_nil, List.map_nil]
  | case2 c r h =>
      rw [readRest_none_of_not_header h]
      exact readRest_none_of_not_header h
  | case3 c r header tail h ih =>
      rw [readRest_none_of_header h]
      exact (readRest_none_of_header h).trans ih
  | case4 c r s h _ _ _ ih =>
      rw [readRest_end h]
      refine (readRest_end h).trans ?_
      rw [Option.map_none] at ih
      rw [ih]
      rfl
  | case5 c r s h _ _ _ _ ih =>
      rw [readRest_declaration h]
      refine (readRest_declaration h).trans ?_
      rw [Option.map_some] at ih
      rw [ih, readDeclaration_shift hp, List.map_append]

end Position

/-! ## Several lines -/

/-- **Lines that stand further down** give the same entries, moved down. -/
theorem readEntries_shift (n k : Nat) (sourceLines : List (List Char)) {ls : List CodeLine}
    (hls : ∀ l ∈ ls, 0 < l.number) (index : Nat) (above : List CodeLine)
    (current : Option OpenSection) :
    readEntries (List.replicate n [] ++ sourceLines) (index + k) (above.map (CodeLine.shift n))
        (current.map (OpenSection.shift n)) (ls.map (CodeLine.shift n))
      = ((readEntries sourceLines index above current ls).1.map (Entry.shift n k),
          (readEntries sourceLines index above current ls).2.map (OpenSection.shift n)) := by
  induction ls generalizing index above current with
  | nil => rfl
  | cons l ls ih =>
      let p : Position := ⟨index, l, above, sourceLines⟩
      -- a section that stays open is no longer on the line of its header
      have hcurrent : (current.map (OpenSection.shift n)).map (fun s => { s with onThisLine := false })
          = (current.map fun s => { s with onThisLine := false }).map (OpenSection.shift n) := by
        cases current <;> rfl
      have hline := Position.readRest_shift (p := p) (n := n) (k := k) (hls l (List.mem_cons_self ..))
        (current.map fun s => { s with onThisLine := false }) (trim l.text)
      have hlater := ih (fun m hm => hls m (List.mem_cons_of_mem l hm)) (index + 1) (l :: above)
        (p.readRest (current.map fun s => { s with onThisLine := false }) (trim l.text)).2
      rw [Nat.add_right_comm index 1 k] at hlater
      rw [List.map_cons, readEntries, readEntries, hcurrent]
      show (((p.shift n k).readRest _ (trim l.text)).1 ++ (readEntries _ (index + k + 1)
          ((l :: above).map (CodeLine.shift n)) ((p.shift n k).readRest _ (trim l.text)).2 _).1,
        (readEntries _ (index + k + 1) ((l :: above).map (CodeLine.shift n))
          ((p.shift n k).readRest _ (trim l.text)).2 _).2) = _
      rw [hline, hlater, ← List.map_append]

/-! ## The table -/

namespace Table

/-- A place in the table depends on names and scopes alone. -/
theorem put_map {f : Variable → Variable} (hf : Variable.Keeps f) (v : Variable)
    (vars : List Variable) : put (f v) (vars.map f) = (put v vars).map f := by
  induction vars with
  | nil => rfl
  | cons w ws ih =>
      have hclash : clashes (f v) (f w) = clashes v w := by
        simp [clashes, Variable.isNamed, hf.name, hf.scope]
      rw [List.map_cons, put, put, hclash, ih]
      by_cases hc : clashes v w = true
      · rw [if_pos hc, if_pos hc]
        rfl
      · rw [if_neg hc, if_neg hc]
        rfl

theorem any_clashes_map {f : Variable → Variable} (hf : Variable.Keeps f) (v : Variable)
    (vars : List Variable) : (vars.map f).any (clashes (f v)) = vars.any (clashes v) := by
  rw [List.any_map]
  refine congrArg vars.any ?_
  funext w
  simp [clashes, Variable.isNamed, hf.name, hf.scope]

theorem add_shift (n k : Nat) (t : Table) (e : Entry) :
    (t.shift n k).add (e.shift n k) = (t.add e).shift n k := by
  cases e with
  | declared v =>
      show (⟨put (v.shift n) (t.vars.map _), if (t.vars.map _).any (clashes (v.shift n)) then _ else _,
        _⟩ : Table) = _
      rw [put_map (Variable.keeps_shift n), any_clashes_map (Variable.keeps_shift n)]
      simp only [add, shift]
      by_cases hc : t.vars.any (clashes v) = true
      · rw [if_pos hc, if_pos hc, List.map_append]
        rfl
      · rw [if_neg hc, if_neg hc]
  | malformed line text =>
      simp only [add, shift, Entry.shift, List.map_append]
      rfl
  | ended index => rfl

/-- **The table of moved entries** is the moved table. -/
theorem ofEntries_shift (n k : Nat) (entries : List Entry) (open? : Option OpenSection) :
    ofEntries (entries.map (Entry.shift n k)) (open?.map (OpenSection.shift n))
      = (ofEntries entries open?).shift n k := by
  have hfold : ∀ t : Table, (entries.map (Entry.shift n k)).foldl add (t.shift n k)
      = (entries.foldl add t).shift n k := by
    induction entries with
    | nil => exact fun _ => rfl
    | cons e es ih =>
        intro t
        rw [List.map_cons, List.foldl_cons, add_shift, ih, List.foldl_cons]
  rw [ofEntries, ofEntries, show (empty : Table) = empty.shift n k from rfl, hfold]
  cases open? with
  | none =>
      dsimp only [Option.map_none, Option.toList_none]
      rw [List.append_nil, List.append_nil]
      rfl
  | some s =>
      dsimp only [Option.map_some, Option.toList_some, shift]
      rw [List.map_append]
      rfl

end Table

end StLint.Section

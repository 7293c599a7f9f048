import StLint.Proofs.Section.Shift

/-!
# Sections without their comments

The reader of sections has the source at hand next to the lines of code. It looks there for one
thing, the comment that trails a declaration, and puts it in one place, the description of a variable.
So a reader that **sees no source at all** gives the same table, without the descriptions.

* `Variable.undescribed` — a variable without its description.
* `readEntries_nil` — the entries that are read without the source.
* `Table.ofLines_nil` — the table that is read without the source.
-/

namespace StLint

open Text Source

/-- A variable without its description. -/
def Variable.undescribed (v : Variable) : Variable := { v with description := none }

theorem Variable.keeps_undescribed : Variable.Keeps Variable.undescribed :=
  ⟨fun _ => rfl, fun _ => rfl, fun _ => rfl⟩

namespace Section

/-- An entry without the description of its variable. -/
def Entry.undescribed : Entry → Entry
  | .declared v => .declared v.undescribed
  | .malformed line text => .malformed line text
  | .ended index => .ended index

/-- A table without the descriptions of its variables. -/
def Table.undescribed (t : Table) : Table := { t with vars := t.vars.map Variable.undescribed }

@[simp] theorem Table.vars_undescribed (t : Table) :
    t.undescribed.vars = t.vars.map Variable.undescribed := rfl

@[simp] theorem Table.diagnostics_undescribed (t : Table) :
    t.undescribed.diagnostics = t.diagnostics := rfl

@[simp] theorem Table.lastEnd_undescribed (t : Table) : t.undescribed.lastEnd = t.lastEnd := rfl

/-! ## One line -/

namespace Position

/-- A position from which no source is seen. -/
def withoutSource (p : Position) : Position := { p with sourceLines := [] }

variable (p : Position)

theorem comment?_withoutSource : p.withoutSource.comment? = none := by
  rw [comment?]
  show (([] : List (List Char))[_]?).bind _ = none
  rw [List.getElem?_nil, Option.bind_none]

theorem readDeclaration_withoutSource (s : OpenSection) (text : List Char) :
    p.withoutSource.readDeclaration s text = (p.readDeclaration s text).map Entry.undescribed := by
  rw [readDeclaration, readDeclaration]
  cases Declaration.read? text with
  | none => rfl
  | some d =>
      dsimp only
      rw [comment?_withoutSource, List.map_map]
      refine List.map_congr_left ?_
      intro e _
      show (if e.1.isEmpty then _ else _) = Entry.undescribed (if e.1.isEmpty then _ else _)
      by_cases he : e.1.isEmpty = true
      · rw [if_pos he, if_pos he]
        rfl
      · rw [if_neg he, if_neg he]
        rfl

/-- **A line that is read without the source** gives the same entries, without descriptions, and
    leaves the same section open. -/
theorem readRest_withoutSource (current : Option OpenSection) (rest : List Char) :
    p.withoutSource.readRest current rest
      = ((p.readRest current rest).1.map Entry.undescribed, (p.readRest current rest).2) := by
  induction current, rest using readRest.induct p with
  | case1 current => rw [readRest_nil, readRest_nil, List.map_nil]
  | case2 c r h => rw [readRest_none_of_not_header h, readRest_none_of_not_header h, List.map_nil]
  | case3 c r header tail h ih =>
      rw [readRest_none_of_header h, readRest_none_of_header h]
      exact ih
  | case4 c r s h _ _ _ ih =>
      rw [readRest_end h, readRest_end h, ih]
      rfl
  | case5 c r s h _ _ _ _ ih =>
      rw [readRest_declaration h, readRest_declaration h, ih, readDeclaration_withoutSource,
        List.map_append]

end Position

/-! ## Several lines -/

/-- **Lines that are read without the source** give the same entries, without descriptions. -/
theorem readEntries_nil (sourceLines : List (List Char)) (index : Nat) (above : List CodeLine)
    (current : Option OpenSection) (ls : List CodeLine) :
    readEntries [] index above current ls
      = ((readEntries sourceLines index above current ls).1.map Entry.undescribed,
          (readEntries sourceLines index above current ls).2) := by
  induction ls generalizing index above current with
  | nil => rfl
  | cons l ls ih =>
      have hline := Position.readRest_withoutSource ⟨index, l, above, sourceLines⟩
        (current.map fun s => { s with onThisLine := false }) (trim l.text)
      rw [Position.withoutSource] at hline
      rw [readEntries, readEntries]
      dsimp only
      rw [hline, ih, List.map_append]

/-! ## The table -/

namespace Table

theorem add_undescribed (t : Table) (e : Entry) :
    t.undescribed.add e.undescribed = (t.add e).undescribed := by
  cases e with
  | declared v =>
      show (⟨put v.undescribed (t.vars.map _),
        if (t.vars.map _).any (clashes v.undescribed) then _ else _, _⟩ : Table) = _
      rw [put_map Variable.keeps_undescribed, any_clashes_map Variable.keeps_undescribed]
      rfl
  | malformed line text => rfl
  | ended index => rfl

theorem ofEntries_undescribed (entries : List Entry) (open? : Option OpenSection) :
    ofEntries (entries.map Entry.undescribed) open? = (ofEntries entries open?).undescribed := by
  have hfold : ∀ t : Table, (entries.map Entry.undescribed).foldl add t.undescribed
      = (entries.foldl add t).undescribed := by
    induction entries with
    | nil => exact fun _ => rfl
    | cons e es ih =>
        intro t
        rw [List.map_cons, List.foldl_cons, add_undescribed, ih, List.foldl_cons]
  rw [ofEntries, ofEntries, show (empty : Table) = empty.undescribed from rfl, hfold]
  rfl

/-- **The table that is read without the source** is the table without descriptions. -/
theorem ofLines_nil (sourceLines : List (List Char)) (ls : List CodeLine) (start stop : Nat) :
    ofLines [] ls start stop = (ofLines sourceLines ls start stop).undescribed := by
  rw [ofLines, ofLines, readEntries_nil sourceLines]
  exact ofEntries_undescribed _ _

end Table

end Section

end StLint

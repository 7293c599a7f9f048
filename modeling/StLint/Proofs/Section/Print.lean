import StLint.Proofs.Section.Declaration
import StLint.Proofs.Section.Shift
import StLint.Proofs.Source.Line

/-!
# Printed sections

The rows of blocks are read one by one: a header opens its section, each declaration gives a variable
for each of its names, and `END_VAR` closes the section. No row holds a comment or ends in white space,
so the lines of code of a printed source are its rows, and **what is read are the variables that the
blocks declare**.

* `readRest_opening`, `readRest_declares`, `readRest_closing` — what one row is read as.
* `Run`, `readEntries_run` — the rows of whole blocks.
* `Table.foldl_add_of_distinct` — a table in which no name is repeated.
* `Table.ofLines_written` — printing and reading.
-/

namespace StLint.Section

open Text Source

namespace Written

/-! ## One row -/

theorem read?_header (header : Header) :
    Header.read? (Row.opening header).text = some (header, []) := by
  obtain ⟨scope, retain⟩ := header
  cases scope <;> cases retain <;> decide +kernel

namespace Row

/-- A row without a declaration is a few words. -/
theorem words_or_declares (row : Row) :
    (∃ header d, row = .declares header d) ∨
      (row.text ≠ [] ∧ trim row.text = row.text ∧ row.text.all isListChar = true) := by
  cases row with
  | opening header =>
      obtain ⟨scope, retain⟩ := header
      refine Or.inr ?_
      cases scope <;> cases retain <;> decide
  | declares header d => exact Or.inl ⟨header, d, rfl⟩
  | closing => exact Or.inr (by decide)

theorem isKept_text (row : Row) : IsKept row.text := by
  rcases row.words_or_declares with ⟨header, d, rfl⟩ | ⟨-, -, hlist⟩
  · exact d.isKept_text
  · have hplain : IsPlain row.text := IsPlain.of_class (by decide) (List.all_eq_true.mp hlist)
    exact hplain.isKept

theorem trim_text (row : Row) : trim row.text = row.text := by
  rcases row.words_or_declares with ⟨header, d, rfl⟩ | ⟨-, htrim, -⟩
  · exact d.trim_text
  · exact htrim

theorem text_ne_nil (row : Row) : row.text ≠ [] := by
  rcases row.words_or_declares with ⟨header, d, rfl⟩ | ⟨hne, -, -⟩
  · obtain ⟨c, r, htext, -⟩ := d.exists_text_eq
    exact fun h => nomatch htext.symm.trans h
  · exact hne

theorem not_lineBreak (row : Row) : '\n' ∉ row.text ∧ '\r' ∉ row.text := by
  have hbreak : ∀ c ∈ row.text, isLineBreak c = false := by
    rcases row.words_or_declares with ⟨header, d, rfl⟩ | ⟨-, -, hlist⟩
    · exact d.not_lineBreak
    · intro c hc
      cases hc' : isLineBreak c with
      | false => rfl
      | true =>
          simp only [isLineBreak, Bool.or_eq_true, decide_eq_true_eq] at hc'
          rcases hc' with rfl | rfl <;> exact absurd (List.all_eq_true.mp hlist _ hc) (by decide)
  exact ⟨fun h => absurd (hbreak _ h) (by decide), fun h => absurd (hbreak _ h) (by decide)⟩

/-- The entries of a row below others. -/
def entries (above : List (List Char)) : Row → List Entry
  | .opening _ => []
  | .declares header d => ((Row.declares header d).declared above).map .declared
  | .closing => [.ended above.length]

end Row

/-! ## Reading one row -/

section Read

variable {p : Position} {s : OpenSection}

/-- A header opens its section and ends its line. -/
theorem readRest_opening (header : Header) :
    p.readRest none (Row.opening header).text = ([], some ⟨header, p.line, true⟩) := by
  obtain ⟨c, r, hcr⟩ := List.exists_cons_of_ne_nil (Row.opening header).text_ne_nil
  have hread := read?_header header
  rw [hcr] at hread ⊢
  rw [Position.readRest_none_of_header hread, Position.readRest_nil]

/-- `END_VAR` closes the section. -/
theorem readRest_closing : p.readRest (some s) Row.closing.text = ([.ended p.index], none) := by
  show p.readRest (some s) ('E' :: "ND_VAR".toList) = _
  rw [Position.readRest_end (by decide)]
  show (_ :: (p.readRest none []).1, (p.readRest none []).2) = _
  rw [Position.readRest_nil]

/-- **A declaration gives a variable for each of its names.** -/
theorem readRest_declares (hs : s.onThisLine = false) (hcomment : p.comment? = none)
    (hline : p.line.number = p.above.length + 1) (d : Declaration) :
    p.readRest (some s) d.text
      = ((Row.declares s.header d).entries (p.above.map CodeLine.text), some s) := by
  have hconstant : p.isConstant s
      = ((p.above.map CodeLine.text).take Position.lookback).any marksConstant := by
    rw [Position.isConstant, hs, Bool.false_and, Bool.false_or, ← List.map_take, List.any_map]
    rfl
  have hread : p.readDeclaration s d.text
      = (Row.declares s.header d).entries (p.above.map CodeLine.text) := by
    rw [Position.readDeclaration, d.read?_text]
    dsimp only
    rw [d.entries_nameList, Row.entries, Row.declared, List.map_map, List.map_map]
    refine List.map_congr_left ?_
    intro name _
    have hname : name.text.isEmpty = false := List.isEmpty_eq_false_iff.mpr name.text_ne_nil
    have hvalue : (d.value.map Value.text).map InitialValue.classify = d.value.map Value.meaning := by
      rw [Option.map_map]
      exact congrArg (Option.map · d.value) (funext classify_text)
    show (if name.text.isEmpty then _ else _) = _
    rw [hname, if_neg Bool.false_ne_true, hconstant, hcomment, hvalue, hline]
    simp
  obtain ⟨c, r, hcr⟩ := List.exists_cons_of_ne_nil (Row.declares s.header d).text_ne_nil
  have htext : d.text = c :: r := hcr
  have hend : ¬ startsWithKeyword "END_VAR" (c :: r) = true := by
    rw [← htext, d.not_end_text]
    exact Bool.false_ne_true
  rw [htext, Position.readRest_declaration hend, ← htext, d.cutDeclaration_text,
    Position.readRest_nil, hread, List.append_nil]

end Read

/-! ## Reading all rows -/

/-- Rows that stand for whole sections, where the section with a header may be open before them. -/
inductive Run : Option Header → List Row → Prop
  | done : Run none []
  | opening {header : Header} {rows : List Row} (h : Run (some header) rows) :
      Run none (.opening header :: rows)
  | declares {header : Header} {rows : List Row} (d : Declaration) (h : Run (some header) rows) :
      Run (some header) (.declares header d :: rows)
  | closing {header : Header} {rows : List Row} (h : Run none rows) :
      Run (some header) (.closing :: rows)

theorem run_rows (bs : List Block) : Run none (rows bs) := by
  induction bs with
  | nil => exact .done
  | cons b bs ih =>
      have hbody : Run (some b.header)
          (b.declarations.map (Row.declares b.header) ++ (.closing :: rows bs)) := by
        induction b.declarations with
        | nil => exact .closing ih
        | cons d ds ihd => exact .declares d ihd
      show Run none (.opening b.header ::
        (b.declarations.map (Row.declares b.header) ++ [.closing]) ++ rows bs)
      rw [List.cons_append, List.append_assoc]
      exact .opening hbody

theorem Run.ne_nil {header : Header} {rs : List Row} (h : Run (some header) rs) : rs ≠ [] := by
  cases h <;> exact List.cons_ne_nil _ _

/-- The entries of rows below others. -/
def entriesBelow (above : List (List Char)) : List Row → List Entry
  | [] => []
  | row :: rows => row.entries above ++ entriesBelow (row.text :: above) rows

/-- A row is a line of code of its own. -/
theorem collapse_row (n : Nat) (row : Row) (rs : List Row) :
    collapse false n ((row :: rs).map Row.text)
      = ⟨n, row.text⟩ :: collapse false (n + 1) (rs.map Row.text) := by
  have htrim : trimEnd row.text = row.text := by
    rw [← row.trim_text, trimEnd_trim]
  rw [List.map_cons, collapse_cons, htrim, if_neg row.text_ne_nil]

theorem length_collapse_rows (n : Nat) (rs : List Row) :
    (collapse false n (rs.map Row.text)).length = rs.length := by
  induction rs generalizing n with
  | nil => rfl
  | cons row rs ih => rw [collapse_row, List.length_cons, ih, List.length_cons]

/-- The position of a row below others. -/
def position (sourceLines : List (List Char)) (above : List CodeLine) (row : Row) : Position :=
  ⟨above.length, ⟨above.length + 1, row.text⟩, above, sourceLines⟩

/-- The first row is read where it stands, and the others below it. -/
private theorem readEntries_row {sourceLines : List (List Char)} {above : List CodeLine}
    {current next : Option OpenSection} {row : Row} {rs : List Row}
    (hrow : (position sourceLines above row).readRest
        (current.map fun s => { s with onThisLine := false }) row.text
      = (row.entries (above.map CodeLine.text), next))
    (hrest : readEntries sourceLines (above.length + 1) (⟨above.length + 1, row.text⟩ :: above) next
        (collapse false (above.length + 2) (rs.map Row.text))
      = (entriesBelow (row.text :: above.map CodeLine.text) rs, none)) :
    readEntries sourceLines above.length above current
        (collapse false (above.length + 1) ((row :: rs).map Row.text))
      = (entriesBelow (above.map CodeLine.text) (row :: rs), none) := by
  rw [collapse_row, readEntries]
  dsimp only
  -- the row starts and ends without white space, so it is read from where it stands
  rw [row.trim_text, show Position.mk _ _ _ _ = position sourceLines above row from rfl, hrow]
  dsimp only
  rw [hrest, entriesBelow]

private theorem comment?_declares {sourceLines : List (List Char)} {above : List CodeLine}
    {header : Header} {d : Declaration} {rs : List Row}
    (hsource : sourceLines
      = (above.map CodeLine.text).reverse ++ (Row.declares header d :: rs).map Row.text) :
    (position sourceLines above (.declares header d)).comment? = none := by
  have hline : sourceLines[above.length]? = some d.text := by
    have hlength : (above.map CodeLine.text).reverse.length = above.length := by simp
    rw [hsource, List.getElem?_append_right (Nat.le_of_eq hlength), hlength, Nat.sub_self]
    rfl
  show (sourceLines[above.length + 1 - 1]?).bind trailingComment? = none
  rw [Nat.add_sub_cancel, hline, Option.bind_some, d.trailingComment?_text]

/-- **The entries of a run**, by induction on the run: the section that is open is the one that the
    next row belongs to. -/
theorem readEntries_run {state : Option Header} {rs : List Row} (h : Run state rs)
    {above : List CodeLine} {current : Option OpenSection}
    (hcurrent : current.map OpenSection.header = state) {sourceLines : List (List Char)}
    (hsource : sourceLines = (above.map CodeLine.text).reverse ++ rs.map Row.text) :
    readEntries sourceLines above.length above current
        (collapse false (above.length + 1) (rs.map Row.text))
      = (entriesBelow (above.map CodeLine.text) rs, none) := by
  induction h generalizing above current with
  | done =>
      rw [Option.map_eq_none_iff] at hcurrent
      rw [hcurrent]
      rfl
  | @opening header rs _ ih =>
      rw [Option.map_eq_none_iff] at hcurrent
      subst hcurrent
      refine readEntries_row (readRest_opening header) ?_
      exact @ih (⟨above.length + 1, (Row.opening header).text⟩ :: above) _ rfl (by simp [hsource])
  | @declares header rs d _ ih =>
      obtain ⟨s, rfl, rfl⟩ := Option.map_eq_some_iff.mp hcurrent
      refine readEntries_row (readRest_declares rfl (comment?_declares hsource) rfl d) ?_
      exact @ih (⟨above.length + 1, d.text⟩ :: above) _ rfl (by simp [hsource]; rfl)
  | closing _ ih =>
      obtain ⟨s, rfl, rfl⟩ := Option.map_eq_some_iff.mp hcurrent
      have hrow : (position sourceLines above .closing).readRest
            (some { s with onThisLine := false }) Row.closing.text
          = (Row.closing.entries (above.map CodeLine.text), none) := by
        rw [Row.entries, List.length_map]
        exact readRest_closing
      refine readEntries_row hrow ?_
      exact @ih (⟨above.length + 1, Row.closing.text⟩ :: above) _ rfl (by simp [hsource])

end Written

/-! ## Tables -/

/-- The variable of an entry. -/
def Entry.variable? : Entry → Option Variable
  | .declared v => some v
  | .malformed .. | .ended _ => none

/-- The index of an entry that ends a section. -/
def Entry.ended? : Entry → Option Nat
  | .ended index => some index
  | .declared _ | .malformed .. => none

namespace Table

/-- A variable that clashes with no other stands at the end. -/
theorem put_of_not_any {v : Variable} {vars : List Variable} (h : vars.any (clashes v) = false) :
    put v vars = vars ++ [v] := by
  induction vars with
  | nil => rfl
  | cons w ws ih =>
      rw [List.any_cons, Bool.or_eq_false_iff] at h
      rw [put, h.1, if_neg Bool.false_ne_true, ih h.2, List.cons_append]

/-- **Where no name is repeated** and every declaration can be read, the table holds the variables in
    order and the last end, and no diagnostics are added. -/
theorem foldl_add_of_distinct {es : List Entry} (hread : ∀ line text, Entry.malformed line text ∉ es)
    {t : Table} (hdistinct : (t.vars ++ es.filterMap Entry.variable?).Pairwise
      fun v w => clashes w v = false) :
    es.foldl add t
      = ⟨t.vars ++ es.filterMap Entry.variable?, t.diagnostics,
          (es.filterMap Entry.ended?).getLast?.or t.lastEnd⟩ := by
  -- the table is general: its variables count as the first ones that are declared
  induction es generalizing t with
  | nil => simp
  | cons e es ih =>
      have hrest : ∀ line text, Entry.malformed line text ∉ es := fun line text h =>
        hread line text (List.mem_cons_of_mem e h)
      cases e with
      | declared v =>
          have hvars : (t.vars ++ v :: es.filterMap Entry.variable?).Pairwise
              fun v w => clashes w v = false := hdistinct
          have hnew : t.vars.any (clashes v) = false := by
            rw [List.any_eq_false]
            intro w hw
            rw [(List.pairwise_append.mp hvars).2.2 w hw v (List.mem_cons_self ..)]
            exact Bool.false_ne_true
          have hadd : t.add (.declared v) = ⟨t.vars ++ [v], t.diagnostics, t.lastEnd⟩ := by
            rw [add, put_of_not_any hnew, hnew, if_neg Bool.false_ne_true]
          rw [List.foldl_cons, hadd, ih hrest (by rwa [List.append_assoc]), List.append_assoc]
          rfl
      | malformed line text => exact absurd (List.mem_cons_self ..) (hread line text)
      | ended index =>
          have hlast : (index :: es.filterMap Entry.ended?).getLast?.or t.lastEnd
              = (es.filterMap Entry.ended?).getLast?.or (some index) := by
            rw [List.getLast?_cons]
            cases (es.filterMap Entry.ended?).getLast? <;> rfl
          rw [List.foldl_cons, @ih hrest (t.add (.ended index)) hdistinct]
          exact congrArg (Table.mk _ t.diagnostics) hlast.symm

end Table

namespace Written

/-! ## The entries of rows -/

theorem not_malformed_of_mem_entriesBelow (above : List (List Char)) (rs : List Row) (line : Nat)
    (text : List Char) : Entry.malformed line text ∉ entriesBelow above rs := by
  induction rs generalizing above with
  | nil => exact List.not_mem_nil
  | cons row rs ih =>
      intro h
      rcases List.mem_append.mp h with h | h
      · cases row <;> simp [Row.entries] at h
      · exact ih _ h

theorem variables_entriesBelow (above : List (List Char)) (rs : List Row) :
    (entriesBelow above rs).filterMap Entry.variable? = declaredBelow above rs := by
  induction rs generalizing above with
  | nil => rfl
  | cons row rs ih =>
      have hrow : (row.entries above).filterMap Entry.variable? = row.declared above := by
        cases row with
        | opening header => rfl
        | declares header d =>
            rw [Row.entries, List.filterMap_map]
            exact List.filterMap_some
        | closing => rfl
      rw [entriesBelow, List.filterMap_append, hrow, ih, declaredBelow]

/-- **The last row of a run ends its last section.** -/
theorem getLast?_ends {state : Option Header} {rs : List Row} (h : Run state rs) (hne : rs ≠ [])
    (above : List (List Char)) :
    ((entriesBelow above rs).filterMap Entry.ended?).getLast?
      = some (above.length + rs.length - 1) := by
  induction h generalizing above with
  | done => exact absurd rfl hne
  | @opening header rs h ih =>
      have hlength : above.length + 1 + rs.length - 1 = above.length + (rs.length + 1) - 1 := by omega
      rw [List.length_cons, ← hlength]
      exact ih h.ne_nil (_ :: above)
  | @declares header rs d h ih =>
      have hlength : above.length + 1 + rs.length - 1 = above.length + (rs.length + 1) - 1 := by omega
      have hrow : ((Row.declares header d).entries above).filterMap Entry.ended? = [] := by
        simp [Row.entries, Entry.ended?]
      rw [entriesBelow, List.filterMap_append, hrow, List.nil_append, List.length_cons, ← hlength]
      exact ih h.ne_nil (_ :: above)
  | @closing header rs h ih =>
      show (above.length :: (entriesBelow (_ :: above) rs).filterMap Entry.ended?).getLast? = _
      by_cases hrs : rs = []
      · subst hrs
        rfl
      · have hlength : above.length + 1 + rs.length - 1 = above.length + (rs.length + 1) - 1 := by
          omega
        rw [List.getLast?_cons, ih hrs (_ :: above), List.length_cons, List.length_cons, hlength]
        rfl

theorem map_place_declaredBelow (above : List (List Char)) (rs : List Row) :
    (declaredBelow above rs).map (fun v => (v.scope, lower v.name.toList))
      = rs.flatMap Row.places := by
  induction rs generalizing above with
  | nil => rfl
  | cons row rs ih =>
      have hrow : (row.declared above).map (fun v => (v.scope, lower v.name.toList)) = row.places := by
        cases row with
        | opening header => rfl
        | declares header d =>
            rw [Row.declared, Row.places, List.map_map]
            refine List.map_congr_left ?_
            intro name _
            simp
        | closing => rfl
      rw [declaredBelow, List.map_append, hrow, ih, List.flatMap_cons]

theorem pairwise_not_clashes {bs : List Block} (h : (places bs).Nodup) :
    (declared bs).Pairwise fun v w => Table.clashes w v = false := by
  rw [places, ← map_place_declaredBelow [], List.Nodup, List.pairwise_map] at h
  refine h.imp ?_
  intro v w hne
  cases hclash : Table.clashes w v with
  | false => rfl
  | true =>
      rw [Table.clashes, Variable.isNamed, eqIgnoreCase, Bool.and_eq_true, decide_eq_true_eq,
        beq_iff_eq] at hclash
      exact absurd (Prod.ext hclash.1.symm hclash.2) hne

/-! ## The source of blocks -/

section Source

variable {bs : List Block}

theorem print_ne_nil (hne : bs ≠ []) : print bs ≠ [] := by
  obtain ⟨b, more, rfl⟩ := List.exists_cons_of_ne_nil hne
  exact List.cons_ne_nil _ _

theorem not_lineBreak_of_mem_print {l : List Char} (hl : l ∈ print bs) : '\n' ∉ l ∧ '\r' ∉ l := by
  obtain ⟨row, -, rfl⟩ := List.mem_map.mp hl
  exact row.not_lineBreak

/-- The lines of the source are the rows, each with its comment, which none has. -/
theorem lines_source (hne : bs ≠ []) :
    lines (normalizeLineEndings (unlines (print bs))) = print bs := by
  have hbreak := fun l (hl : l ∈ print bs) => not_lineBreak_of_mem_print hl
  rw [normalizeLineEndings_unlines (print_ne_nil hne) hbreak,
    lines_unlines (print_ne_nil hne) fun l hl => (hbreak l hl).1]

/-- The lines of code of the source are the rows. -/
theorem codeLines_source (hne : bs ≠ []) :
    codeLines (unlines (print bs)) = collapse false 1 (print bs) := by
  refine codeLines_unlines (print_ne_nil hne) (fun l hl => not_lineBreak_of_mem_print hl) ?_
  intro l hl
  obtain ⟨row, -, rfl⟩ := List.mem_map.mp hl
  exact row.isKept_text

/-- The table of the entries of blocks. -/
theorem ofEntries_entriesBelow (hne : bs ≠ []) (hdistinct : (places bs).Nodup) :
    Table.ofEntries (entriesBelow [] (rows bs)) none
      = ⟨declared bs, [], some ((print bs).length - 1)⟩ := by
  have hrows : rows bs ≠ [] := fun h => print_ne_nil hne (congrArg (List.map Row.text) h)
  have hlast := getLast?_ends (run_rows bs) hrows []
  have hvars := variables_entriesBelow [] (rows bs)
  have hfold := @Table.foldl_add_of_distinct (entriesBelow [] (rows bs))
    (not_malformed_of_mem_entriesBelow [] _) Table.empty
    (by rw [hvars]; exact pairwise_not_clashes hdistinct)
  rw [Table.ofEntries, hfold, hvars, hlast]
  simp [Table.empty, print, declared]

end Source

end Written

/-- **Written sections are read back.** The lines of code of a source that is printed from blocks are
    its lines, and their table holds the variables of the blocks in order, no diagnostics, and the
    index of the last line as that of the last `END_VAR`. -/
theorem Table.ofLines_written {bs : List Written.Block} (hne : bs ≠ [])
    (hdistinct : (Written.places bs).Nodup) :
    (codeLines (unlines (Written.print bs))).length = (Written.print bs).length ∧
      Table.ofLines (lines (normalizeLineEndings (unlines (Written.print bs))))
          (codeLines (unlines (Written.print bs))) 0 (codeLines (unlines (Written.print bs))).length
        = { vars := Written.declared bs
            diagnostics := []
            lastEnd := some ((Written.print bs).length - 1) } := by
  have hlength : (collapse false 1 (Written.print bs)).length = (Written.print bs).length := by
    rw [Written.print, Written.length_collapse_rows, List.length_map]
  have hentries : readEntries (Written.print bs) 0 [] none (collapse false 1 (Written.print bs))
      = (Written.entriesBelow [] (Written.rows bs), none) :=
    @Written.readEntries_run none (Written.rows bs) (Written.run_rows bs) [] none rfl _ rfl
  rw [Written.codeLines_source hne, Written.lines_source hne]
  refine ⟨hlength, ?_⟩
  rw [Table.ofLines, slice_zero_length, hentries]
  exact Written.ofEntries_entriesBelow hne hdistinct

/-- Two sections with one name, and a string that looks like much else. -/
def Written.mixedSections : List Written.Block :=
  let a : Written.Name := ⟨"a".toList, by decide, by decide⟩
  let b : Written.Name := ⟨"b".toList, by decide, by decide⟩
  let at' : Written.Name := ⟨"AT".toList, by decide, by decide⟩
  let array : Written.TypeText :=
    ⟨"ARRAY[1..10] OF INT".toList, by decide, by decide, by decide, by decide⟩
  let string : Written.TypeText := ⟨"STRING[80]".toList, by decide, by decide, by decide, by decide⟩
  let bool : Written.TypeText := ⟨"BOOL".toList, by decide, by decide, by decide, by decide⟩
  let marks : Written.Quoted := ⟨'"', "; := // (* x".toList, by decide, plain_of_all (by decide)⟩
  let minusSeven : Written.Numeral := ⟨.minus, [0, 7], by decide, by decide⟩
  [⟨⟨.input, true⟩, [⟨a, [b], array, some (.int minusSeven)⟩, ⟨at', [], string, some (.string marks)⟩]⟩,
    ⟨⟨.localVar, false⟩, [⟨a, [], bool, some (.bool true)⟩, ⟨b, [], bool, none⟩]⟩]

/-- The variables of both sections, read back from the lines. -/
theorem Table.ofLines_written_mixedSections :
    Written.print Written.mixedSections
      = ["VAR_INPUT RETAIN", "a, b : ARRAY[1..10] OF INT := -07;",
          "AT : STRING[80] := \"; := // (* x\";", "END_VAR", "VAR", "a : BOOL := TRUE;", "b : BOOL;",
          "END_VAR"].map String.toList ∧
      Written.mixedSections ≠ [] ∧ (Written.places Written.mixedSections).Nodup ∧
      ((Table.ofLines (lines (normalizeLineEndings (unlines (Written.print Written.mixedSections))))
          (codeLines (unlines (Written.print Written.mixedSections))) 0
          (codeLines (unlines (Written.print Written.mixedSections))).length).vars.map
        fun v => (v.name, v.dataType, v.isRetain, v.line, v.initialValue))
      = [("a", "ARRAY[1..10] OF INT", true, 2, some (.int (-7))),
          ("b", "ARRAY[1..10] OF INT", true, 2, some (.int (-7))),
          ("AT", "STRING[80]", true, 3, some (.string "; := // (* x")),
          ("a", "BOOL", false, 6, some (.bool true)), ("b", "BOOL", false, 7, none)] := by
  have hne : Written.mixedSections ≠ [] := List.cons_ne_nil _ _
  have hdistinct : (Written.places Written.mixedSections).Nodup := by decide
  refine ⟨by decide, hne, hdistinct, ?_⟩
  rw [(Table.ofLines_written hne hdistinct).2]
  rfl

end StLint.Section

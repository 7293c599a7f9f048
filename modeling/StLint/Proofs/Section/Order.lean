import StLint.Proofs.Section.Shift

/-!
# Sections within their lines

Entries are read off the lines of a range, and the table only copies what they say. Between the lines
of a unit the reader looks for headers alone, so **nothing is entered for a line outside every
section**: every variable and every diagnostic stands on a line of a section, which is a line of the
range, and the last `END_VAR` is not above its first line.

* `Entry.Within`, `Table.Within` — what stands on lines of which `P` holds.
* `InSection` — a line on which a section is open or opens.
* `within_inSection`, `within_readEntries` — the entries of a range of lines.
* `Table.within_ofEntries` — the table of such entries.
* `Table.ofLines_congr` — of the source lines only those that are read count.
-/

namespace StLint.Section

open Text Source

variable {P : Nat → Prop} {first : Nat}

/-- An entry that stands on a line of which `P` holds, or ends a section at an index from `first`
    on. -/
def Entry.Within (P : Nat → Prop) (first : Nat) : Entry → Prop
  | .declared v => P v.line
  | .malformed line _ => P line
  | .ended index => first ≤ index

/-- What is read of a section so far: entries, and a section that may still be open. -/
def EntriesWithin (P : Nat → Prop) (first : Nat) (r : List Entry × Option OpenSection) : Prop :=
  (∀ e ∈ r.1, e.Within P first) ∧ ∀ s ∈ r.2, P s.opening.number

/-! ## One line -/

namespace Position

/-- A declaration is entered on its line, whether it can be read or not. -/
theorem within_readDeclaration {p : Position} (hp : P p.line.number) (s : OpenSection)
    (text : List Char) : ∀ e ∈ p.readDeclaration s text, e.Within P first := by
  intro e he
  rw [readDeclaration] at he
  cases hread : Declaration.read? text with
  | none =>
      rw [hread] at he
      rw [List.mem_singleton.mp he]
      exact hp
  | some d =>
      rw [hread] at he
      obtain ⟨⟨name, address⟩, -, rfl⟩ := List.mem_map.mp he
      by_cases hname : name.isEmpty = true
      · simp only [if_pos hname]
        exact hp
      · simp only [if_neg hname]
        exact hp

/-- **One line keeps to itself**, by induction on what is left of it. -/
theorem within_readRest {p : Position} (hp : P p.line.number) (hfirst : first ≤ p.index)
    {current : Option OpenSection} (hcurrent : ∀ s ∈ current, P s.opening.number)
    (rest : List Char) : EntriesWithin P first (p.readRest current rest) := by
  induction current, rest using readRest.induct p with
  | case1 current =>
      rw [readRest_nil]
      exact ⟨fun _ he => absurd he List.not_mem_nil, hcurrent⟩
  | case2 c r h =>
      rw [readRest_none_of_not_header h]
      exact ⟨fun _ he => absurd he List.not_mem_nil, hcurrent⟩
  | case3 c r header tail h ih =>
      rw [readRest_none_of_header h]
      refine ih ?_
      intro s hs
      rw [← Option.some.inj hs]
      exact hp
  | case4 c r s h _ _ _ ih =>
      obtain ⟨hentries, hopen⟩ := ih fun _ hs => absurd hs (by simp)
      rw [readRest_end h]
      refine ⟨?_, hopen⟩
      intro e he
      rcases List.mem_cons.mp he with rfl | he
      · exact hfirst
      · exact hentries e he
  | case5 c r s h _ _ _ _ ih =>
      obtain ⟨hentries, hopen⟩ := ih hcurrent
      rw [readRest_declaration h]
      refine ⟨?_, hopen⟩
      intro e he
      rcases List.mem_append.mp he with he | he
      · exact within_readDeclaration hp s _ e he
      · exact hentries e he

end Position

/-! ## Several lines -/

/-- **Line `n` lies in a section**: one is still open from the lines above, or the line opens one;
    `current` is open above the first line. -/
def InSection (current : Option OpenSection) (n : Nat) : List CodeLine → Prop
  | [] => False
  | l :: ls =>
    (l.number = n ∧ (current.isSome = true ∨ (Header.read? (trim l.text)).isSome = true)) ∨
      InSection (readEntries [] 0 [] current [l]).2 n ls

instance decidableInSection (current : Option OpenSection) (n : Nat) (ls : List CodeLine) :
    Decidable (InSection current n ls) :=
  match ls with
  | [] => .isFalse id
  | l :: ls =>
    have := decidableInSection (readEntries [] 0 [] current [l]).2 n ls
    inferInstanceAs (Decidable (_ ∨ _))

/-- The section that a line leaves open does not depend on where the line is looked at from. -/
theorem Position.readRest_snd_congr {p q : Position} (hline : p.line = q.line)
    (current : Option OpenSection) (rest : List Char) :
    (p.readRest current rest).2 = (q.readRest current rest).2 := by
  induction current, rest using readRest.induct p with
  | case1 current => rw [readRest_nil, readRest_nil]
  | case2 c r h => rw [readRest_none_of_not_header h, readRest_none_of_not_header h]
  | case3 c r header tail h ih =>
      rw [readRest_none_of_header h, readRest_none_of_header h, ← hline]
      exact ih
  | case4 c r s h _ _ _ ih =>
      rw [readRest_end h, readRest_end h]
      exact ih
  | case5 c r s h _ _ _ _ ih =>
      rw [readRest_declaration h, readRest_declaration h]
      exact ih

/-- Nothing is read of a line outside every section. -/
theorem Position.readRest_eq_of_not_header (p : Position) {text : List Char}
    (h : (Header.read? text).isSome = false) : p.readRest none text = ([], none) := by
  cases text with
  | nil => exact readRest_nil p none
  | cons c r =>
      rw [Option.isSome_eq_false_iff, Option.isNone_iff_eq_none] at h
      exact readRest_none_of_not_header h

/-- **The entries of lines stand on lines of sections**, by induction on the lines. -/
theorem within_inSection (sourceLines : List (List Char)) {index : Nat}
    (hfirst : first ≤ index) (above : List CodeLine) {current : Option OpenSection}
    (hcurrent : ∀ s ∈ current, P s.opening.number) {ls : List CodeLine}
    (hP : ∀ n, InSection current n ls → P n) :
    EntriesWithin P first (readEntries sourceLines index above current ls) := by
  induction ls generalizing index above current with
  | nil => exact ⟨fun _ he => absurd he List.not_mem_nil, hcurrent⟩
  | cons l ls ih =>
      let p : Position := ⟨index, l, above, sourceLines⟩
      let still := current.map fun s => { s with onThisLine := false }
      have hbelow : (readEntries [] 0 [] current [l]).2 = (p.readRest still (trim l.text)).2 :=
        Position.readRest_snd_congr (p := ⟨0, l, [], []⟩) (q := p) rfl still (trim l.text)
      have hhere : EntriesWithin P first (p.readRest still (trim l.text)) := by
        by_cases hin : current.isSome = true ∨ (Header.read? (trim l.text)).isSome = true
        · refine Position.within_readRest (hP l.number (Or.inl ⟨rfl, hin⟩)) hfirst ?_ _
          intro s hs
          obtain ⟨t, ht, rfl⟩ := Option.map_eq_some_iff.mp hs
          exact hcurrent t ht
        · rw [not_or, Bool.not_eq_true, Bool.not_eq_true] at hin
          obtain ⟨hnone, hheader⟩ := hin
          have hstill : still = none := by
            rw [Option.isSome_eq_false_iff, Option.isNone_iff_eq_none] at hnone
            show current.map _ = none
            rw [hnone]
            rfl
          rw [hstill, p.readRest_eq_of_not_header hheader]
          exact ⟨fun _ he => absurd he List.not_mem_nil, nofun⟩
      obtain ⟨hlater, hend⟩ := ih (Nat.le_succ_of_le hfirst) (l :: above) hhere.2 (fun n hn =>
        hP n (Or.inr (by rw [hbelow]; exact hn)))
      refine ⟨?_, hend⟩
      intro e he
      rcases List.mem_append.mp he with he | he
      · exact hhere.1 e he
      · exact hlater e he

/-- A line in a section is one of the lines. -/
theorem exists_line_of_inSection {n : Nat} {ls : List CodeLine} {current : Option OpenSection}
    (h : InSection current n ls) : ∃ l ∈ ls, l.number = n := by
  induction ls generalizing current with
  | nil => cases h
  | cons l ls ih =>
      rcases h with ⟨hline, -⟩ | h
      · exact ⟨l, List.mem_cons_self .., hline⟩
      · obtain ⟨m, hm, hline⟩ := ih h
        exact ⟨m, List.mem_cons_of_mem l hm, hline⟩

/-- **The entries of a range of lines** stand on its lines. -/
theorem within_readEntries (sourceLines : List (List Char)) {ls : List CodeLine}
    (hls : ∀ l ∈ ls, P l.number) {index : Nat} (hfirst : first ≤ index) (above : List CodeLine)
    {current : Option OpenSection} (hcurrent : ∀ s ∈ current, P s.opening.number) :
    EntriesWithin P first (readEntries sourceLines index above current ls) := by
  refine within_inSection sourceLines hfirst above hcurrent ?_
  intro n hn
  obtain ⟨l, hl, rfl⟩ := exists_line_of_inSection hn
  exact hls l hl

/-! ## The table -/

namespace Table

/-- A table whose variables and diagnostics stand on lines of which `P` holds, and whose last
    section ends at an index from `first` on. -/
structure Within (P : Nat → Prop) (first : Nat) (t : Table) : Prop where
  vars : ∀ v ∈ t.vars, P v.line
  diagnostics : ∀ d ∈ t.diagnostics, P d.line
  lastEnd : ∀ i ∈ t.lastEnd, first ≤ i

/-- A variable is put among the others, or in the place of one of them. -/
theorem eq_or_mem_of_mem_put {v w : Variable} {vars : List Variable} (h : w ∈ put v vars) :
    w = v ∨ w ∈ vars := by
  induction vars with
  | nil => exact Or.inl (List.mem_singleton.mp h)
  | cons u us ih =>
      rw [put] at h
      by_cases hc : clashes v u = true
      · rw [if_pos hc] at h
        exact (List.mem_cons.mp h).imp_right (List.mem_cons_of_mem u)
      · rw [if_neg hc] at h
        rcases List.mem_cons.mp h with rfl | h
        · exact Or.inr (List.mem_cons_self ..)
        · exact (ih h).imp_right (List.mem_cons_of_mem u)

theorem Within.add {t : Table} (ht : t.Within P first) {e : Entry} (he : e.Within P first) :
    (t.add e).Within P first := by
  cases e with
  | declared v =>
      refine ⟨?_, ?_, ht.lastEnd⟩
      · intro w hw
        rcases eq_or_mem_of_mem_put hw with rfl | hw
        · exact he
        · exact ht.vars w hw
      · intro d hd
        simp only [Table.add] at hd
        by_cases hc : t.vars.any (clashes v) = true
        · rw [if_pos hc] at hd
          rcases List.mem_append.mp hd with hd | hd
          · exact ht.diagnostics d hd
          · rw [List.mem_singleton.mp hd]
            exact he
        · rw [if_neg hc] at hd
          exact ht.diagnostics d hd
  | malformed line text =>
      refine ⟨ht.vars, ?_, ht.lastEnd⟩
      intro d hd
      rcases List.mem_append.mp hd with hd | hd
      · exact ht.diagnostics d hd
      · rw [List.mem_singleton.mp hd]
        exact he
  | ended index =>
      refine ⟨ht.vars, ht.diagnostics, ?_⟩
      intro i hi
      rw [← Option.some.inj hi]
      exact he

theorem within_foldl_add {t : Table} (ht : t.Within P first) {entries : List Entry}
    (h : ∀ e ∈ entries, e.Within P first) : (entries.foldl add t).Within P first := by
  induction entries generalizing t with
  | nil => exact ht
  | cons e es ih =>
      rw [List.foldl_cons]
      exact ih (ht.add (h e (List.mem_cons_self ..))) fun f hf => h f (List.mem_cons_of_mem e hf)

/-- **The table of entries** stands on their lines, and so does the message about a section without
    an end. -/
theorem within_ofEntries {entries : List Entry} {open? : Option OpenSection}
    (h : EntriesWithin P first (entries, open?)) : (ofEntries entries open?).Within P first := by
  have hempty : empty.Within P first :=
    ⟨fun _ hv => (nomatch hv), fun _ hd => (nomatch hd), fun _ hi => (nomatch hi)⟩
  have hfold := within_foldl_add hempty h.1
  refine ⟨hfold.vars, ?_, hfold.lastEnd⟩
  intro d hd
  rcases List.mem_append.mp hd with hd | hd
  · exact hfold.diagnostics d hd
  · obtain ⟨s, hs, rfl⟩ := Option.map_eq_some_iff.mp (Option.mem_toList.mp hd)
    exact h.2 s hs

theorem within_ofLines (sourceLines : List (List Char)) (ls : List CodeLine) {start stop : Nat}
    (h : ∀ l ∈ slice ls start stop, P l.number) :
    (ofLines sourceLines ls start stop).Within P start :=
  within_ofEntries (within_readEntries sourceLines h (Nat.le_refl start) [] fun _ hs => nomatch hs)

end Table

theorem Table.within_inSection (sourceLines : List (List Char)) (ls : List CodeLine)
    (start stop : Nat) : (Table.ofLines sourceLines ls start stop).Within
      (fun n => InSection none n (slice ls start stop)) start :=
  within_ofEntries (Section.within_inSection sourceLines (Nat.le_refl start) []
    (fun _ hs => nomatch hs) fun _ hn => hn)

/-! ## The lines of the source -/

/-- Of the lines of the source only the one that is read counts, for its trailing comment. -/
theorem Position.readRest_congr {p : Position} {sourceLines : List (List Char)}
    (h : sourceLines[p.line.number - 1]? = p.sourceLines[p.line.number - 1]?)
    (current : Option OpenSection) (rest : List Char) :
    { p with sourceLines }.readRest current rest = p.readRest current rest := by
  have hcomment : { p with sourceLines }.comment? = p.comment? := by
    show (sourceLines[p.line.number - 1]?).bind _ = _
    rw [h]
    rfl
  have hdeclaration : ∀ (s : OpenSection) (text : List Char),
      { p with sourceLines }.readDeclaration s text = p.readDeclaration s text := by
    intro s text
    rw [readDeclaration, readDeclaration, hcomment]
    rfl
  induction current, rest using readRest.induct p with
  | case1 current => rw [readRest_nil, readRest_nil]
  | case2 c r h => rw [readRest_none_of_not_header h, readRest_none_of_not_header h]
  | case3 c r header tail h ih =>
      rw [readRest_none_of_header h, readRest_none_of_header h]
      exact ih
  | case4 c r s h _ _ _ ih => rw [readRest_end h, readRest_end h, ih]
  | case5 c r s h _ _ _ _ ih => rw [readRest_declaration h, readRest_declaration h, ih, hdeclaration]

/-- Of the lines of the source only those that are read count. -/
theorem readEntries_congr {sourceLines others : List (List Char)} {ls : List CodeLine}
    (h : ∀ l ∈ ls, sourceLines[l.number - 1]? = others[l.number - 1]?) (index : Nat)
    (above : List CodeLine) (current : Option OpenSection) :
    readEntries sourceLines index above current ls = readEntries others index above current ls := by
  induction ls generalizing index above current with
  | nil => rfl
  | cons l ls ih =>
      have hline := Position.readRest_congr (p := ⟨index, l, above, others⟩)
        (h l (List.mem_cons_self ..)) (current.map fun s => { s with onThisLine := false })
        (trim l.text)
      rw [readEntries, readEntries]
      dsimp only at hline ⊢
      rw [hline, ih fun m hm => h m (List.mem_cons_of_mem l hm)]

theorem Table.ofLines_congr {sourceLines others : List (List Char)} {ls : List CodeLine}
    {start stop : Nat}
    (h : ∀ l ∈ slice ls start stop, sourceLines[l.number - 1]? = others[l.number - 1]?) :
    Table.ofLines sourceLines ls start stop = Table.ofLines others ls start stop := by
  rw [ofLines, ofLines, readEntries_congr h]

end StLint.Section

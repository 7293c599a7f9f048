import StLint.Proofs.Collection.Distinct
import StLint.Proofs.Section.Print
import StLint.Proofs.Text.Pattern

/-!
# Repeated declarations

A table is filled while its lines are read, with headers, malformed declarations and repeated sections
between the names. None of this counts for the variables: **the table is a map that is written once for
each accepted name**, where a later write takes the place of an earlier one.

* `place`, `overwrite` — what a variable is kept under, and one write.
* `put_eq_overwrite` — the table writes in this way.
* `IsLastWritten` — at each place stands what was written last, in the order of the first writes.
* `Site`, `exists_sites` — the declarations that the accepted names stand in, in reading order.
* `Records` — a table with the messages about what was replaced; `records_foldl_add` after some entries, and
  `ofLines_records` for the lines of a range.
-/

namespace StLint.Section

open Text Source

namespace Table

variable {v w : Variable} {vars written : List Variable}

/-! ## One write -/

/-- What a variable is kept under: its scope, and its name up to case. -/
def place (v : Variable) : VariableScope × List Char := (v.scope, lower v.name.toList)

/-- The variables after one more is written: in the place of an earlier one, or else behind them all. -/
def overwrite (vars : List Variable) (v : Variable) : List Variable :=
  match vars.findIdx? fun w => place w = place v with
  | some i => vars.set i v
  | none => vars ++ [v]

theorem clashes_iff : clashes v w = true ↔ place w = place v := by
  rw [clashes, Variable.isNamed, eqIgnoreCase, Bool.and_eq_true, decide_eq_true_eq, beq_iff_eq, place,
    place, Prod.mk.injEq, eq_comm (a := v.scope)]

/-- **The table writes in this way.** -/
theorem put_eq_overwrite (v : Variable) (vars : List Variable) : put v vars = overwrite vars v := by
  induction vars with
  | nil => rfl
  | cons w ws ih =>
      rw [put, ih, overwrite, overwrite, List.findIdx?_cons]
      by_cases hc : place w = place v
      · rw [if_pos (clashes_iff.mpr hc), if_pos (decide_eq_true hc)]
        rfl
      · rw [if_neg (clashes_iff.not.mpr hc), if_neg (by simpa using hc)]
        cases ws.findIdx? fun u => decide (place u = place v) with
        | none => rfl
        | some i => rfl

/-- A write over a variable keeps the places, another one adds a place. -/
theorem map_place_put (v : Variable) (vars : List Variable) :
    (put v vars).map place
      = if ∃ w ∈ vars, place w = place v then vars.map place else vars.map place ++ [place v] := by
  induction vars with
  | nil => simp [put]
  | cons w ws ih =>
      rw [put]
      by_cases hc : place w = place v
      · rw [if_pos (clashes_iff.mpr hc), if_pos ⟨w, List.mem_cons_self .., hc⟩, List.map_cons,
          List.map_cons, hc]
      · have hlater : (∃ u ∈ w :: ws, place u = place v) ↔ ∃ u ∈ ws, place u = place v := by
          rw [List.exists_mem_cons_iff, or_iff_right hc]
        rw [if_neg (clashes_iff.not.mpr hc), List.map_cons, ih, List.map_cons]
        simp only [hlater]
        split
        · rfl
        · rfl

/-- Where no place is taken twice, a write leaves the variables of the other places. -/
theorem mem_put (hvars : (vars.map place).Nodup) (h : w ∈ put v vars) :
    w = v ∨ (w ∈ vars ∧ place w ≠ place v) := by
  induction vars with
  | nil => exact Or.inl (List.mem_singleton.mp h)
  | cons u us ih =>
      obtain ⟨hu, hus⟩ := List.nodup_cons.mp hvars
      rw [put] at h
      by_cases hc : place u = place v
      · rw [if_pos (clashes_iff.mpr hc)] at h
        refine (List.mem_cons.mp h).imp_right fun hw => ⟨List.mem_cons_of_mem u hw, ?_⟩
        intro hplace
        exact hu (List.mem_map.mpr ⟨w, hw, hplace.trans hc.symm⟩)
      · rw [if_neg (clashes_iff.not.mpr hc)] at h
        rcases List.mem_cons.mp h with rfl | h
        · exact Or.inr ⟨List.mem_cons_self .., hc⟩
        · exact (ih hus h).imp_right (And.imp_left (List.mem_cons_of_mem u))

/-! ## One write after the other -/

/-- **The variables are those written last** at their places, in the order in which the places were first
    written. -/
structure IsLastWritten (written vars : List Variable) : Prop where
  order : vars.map place = (firstBy place written).map place
  last : ∀ v ∈ vars, (written.filter fun w => place w = place v).getLast? = some v

/-- No two variables have one place. -/
theorem IsLastWritten.nodup (h : IsLastWritten written vars) : (vars.map place).Nodup := by
  rw [h.order]
  exact List.pairwise_map.mpr (pairwise_firstBy place written)

theorem IsLastWritten.exists_iff (h : IsLastWritten written vars) :
    (∃ w ∈ vars, place w = place v) ↔ ∃ w ∈ written, place w = place v := by
  have hplaces : (∃ w ∈ vars, place w = place v) ↔ ∃ w ∈ firstBy place written, place w = place v := by
    rw [← List.mem_map, ← List.mem_map, h.order]
  rw [hplaces]
  constructor
  · rintro ⟨w, hw, hplace⟩
    exact ⟨w, (firstBy_sublist place written).subset hw, hplace⟩
  · rintro ⟨w, hw, hplace⟩
    obtain ⟨u, hu, huw⟩ := exists_mem_firstBy place hw
    exact ⟨u, hu, huw.trans hplace⟩

/-- **One more write.** -/
theorem IsLastWritten.put (h : IsLastWritten written vars) (v : Variable) :
    IsLastWritten (written ++ [v]) (put v vars) where
  order := by
    rw [map_place_put, firstBy_concat, h.order]
    simp only [h.exists_iff]
    split
    · rfl
    · rw [List.map_append, List.map_singleton]
  last := by
    intro w hw
    rw [List.filter_append]
    rcases mem_put h.nodup hw with rfl | ⟨hmem, hne⟩
    · have hself : [w].filter (fun u => place u = place w) = [w] :=
        List.filter_cons_of_pos (decide_eq_true rfl)
      rw [hself, List.getLast?_concat]
    · rw [List.filter_cons_of_neg (by simpa using Ne.symm hne), List.filter_nil, List.append_nil]
      exact h.last w hmem

/-- **A run of writes**, by induction on the last one. -/
theorem isLastWritten_foldl (written : List Variable) :
    IsLastWritten written (written.foldl overwrite []) := by
  induction written using List.reverseRecOn with
  | nil => exact ⟨rfl, fun _ hv => nomatch hv⟩
  | append_singleton written v ih =>
      rw [List.foldl_concat, ← put_eq_overwrite]
      exact ih.put v

/-! ## The table of entries -/

/-- The number of messages about repeated names. -/
def repeats (t : Table) : Nat := t.diagnostics.countP fun d => d.kind = .duplicateVariable

/-- **Each accepted name adds a variable or a message**, and nothing else adds one. -/
theorem repeats_add (t : Table) (e : Entry) :
    (t.add e).repeats + (t.add e).vars.length
      = t.repeats + t.vars.length + e.variable?.toList.length := by
  cases e with
  | declared v =>
      have hlength := congrArg List.length (map_place_put v t.vars)
      rw [List.length_map] at hlength
      have hany : t.vars.any (clashes v) = true ↔ ∃ w ∈ t.vars, place w = place v := by
        rw [List.any_eq_true]
        exact exists_congr fun w => and_congr_right fun _ => clashes_iff
      simp only [add, repeats, Entry.variable?]
      rw [hlength]
      by_cases hclash : ∃ w ∈ t.vars, place w = place v
      · rw [if_pos (hany.mpr hclash), if_pos hclash, List.countP_append, List.length_map]
        simp [redeclared]
        omega
      · rw [if_neg (hany.not.mpr hclash), if_neg hclash, List.length_append, List.length_map]
        simp
        omega
  | malformed line text =>
      simp [add, repeats, Entry.variable?]
  | ended index => rfl

theorem repeats_foldl_add (t : Table) (es : List Entry) :
    (es.foldl add t).repeats + (es.foldl add t).vars.length
      = t.repeats + t.vars.length + (es.filterMap Entry.variable?).length := by
  induction es generalizing t with
  | nil => rfl
  | cons e es ih =>
      rw [List.foldl_cons, ih, repeats_add]
      cases he : e.variable? with
      | none => rw [List.filterMap_cons_none he]; rfl
      | some v =>
          rw [List.filterMap_cons_some he, List.length_cons]
          show _ + 1 + _ = _
          omega

/-- Only accepted names are written. -/
theorem vars_foldl_add (t : Table) (es : List Entry) :
    (es.foldl add t).vars = (es.filterMap Entry.variable?).foldl overwrite t.vars := by
  induction es generalizing t with
  | nil => rfl
  | cons e es ih =>
      rw [List.foldl_cons, ih]
      cases e with
      | declared v =>
          show (es.filterMap Entry.variable?).foldl overwrite (put v t.vars) = _
          rw [put_eq_overwrite]
          rfl
      | malformed line text => rfl
      | ended index => rfl

/-- A table records some accepted names, in the order in which they are read. -/
structure Records (written : List Variable) (t : Table) : Prop where
  /-- No two variables have one scope and one name up to case. -/
  distinct : (t.vars.map place).Nodup
  fold : t.vars = written.foldl overwrite []
  lastWritten : IsLastWritten written t.vars
  /-- The messages about repeated names are as many as the names that got no variable of their own. -/
  repeats_eq : t.repeats = written.length - t.vars.length
  length_le : t.vars.length ≤ written.length

/-- **The table of some entries** records their names. -/
theorem records_foldl_add (es : List Entry) :
    Records (es.filterMap Entry.variable?) (es.foldl add empty) := by
  have hfold : (es.foldl add empty).vars = (es.filterMap Entry.variable?).foldl overwrite [] :=
    vars_foldl_add empty es
  have hlast : IsLastWritten (es.filterMap Entry.variable?) (es.foldl add empty).vars := by
    rw [hfold]
    exact isLastWritten_foldl _
  have hcount : (es.foldl add empty).repeats + (es.foldl add empty).vars.length
      = 0 + 0 + (es.filterMap Entry.variable?).length := repeats_foldl_add empty es
  exact ⟨hlast.nodup, hfold, hlast, by omega, by omega⟩

/-- The message about a section without an end repeats no name. -/
theorem repeats_ofEntries (es : List Entry) (open? : Option OpenSection) :
    (ofEntries es open?).repeats = (es.foldl add empty).repeats := by
  cases open? <;> simp [ofEntries, repeats, unterminated]

end Table

/-! ## What is left of a line -/

theorem suffix_of_dropWord? {keyword : String} {s rest : List Char} (h : dropWord? keyword s = some rest) :
    rest <:+ s := by
  rw [dropWord?, Option.filter_eq_some_iff] at h
  obtain ⟨t, rfl, -⟩ := Pattern.exists_of_dropKeyword? h.1
  exact List.suffix_append t rest

theorem suffix_of_dropQualifier? {s rest : List Char} (h : dropQualifier? s = some rest) : rest <:+ s := by
  rw [dropQualifier?, Option.bind_eq_some_iff] at h
  obtain ⟨r, hr, hq⟩ := h
  obtain ⟨q, -, hword⟩ := List.exists_of_findSome?_eq_some hq
  refine (suffix_of_dropWord? hword).trans ?_
  cases s with
  | nil => cases hr
  | cons c s =>
      rw [dropBlanks?] at hr
      split at hr
      · obtain rfl := Option.some.inj hr
        exact (suffix_trimStart s).trans (List.suffix_cons c s)
      · cases hr

theorem suffix_dropQualifiers (s : List Char) : dropQualifiers s <:+ s := by
  induction s using dropQualifiers.induct with
  | case1 s rest h ih =>
      rw [dropQualifiers.eq_def]
      split
      · rename_i rest' h'
        obtain rfl := Option.some.inj (h.symm.trans h')
        exact ih.trans (suffix_of_dropQualifier? h)
      · exact List.suffix_rfl
  | case2 s h =>
      rw [dropQualifiers.eq_def]
      split
      · rename_i rest' h'
        exact nomatch h.symm.trans h'
      · exact List.suffix_rfl

/-- **What follows a header** is the end of the text it is read from. -/
theorem Header.suffix_of_read? {s tail : List Char} {header : Header}
    (h : Header.read? s = some (header, tail)) : tail <:+ s := by
  rw [Header.read?, Option.map_eq_some_iff] at h
  obtain ⟨⟨scope, rest⟩, hkeyword, hheader⟩ := h
  obtain ⟨-, rfl⟩ := Prod.mk.inj hheader
  obtain ⟨keyword, -, hword⟩ := List.exists_of_findSome?_eq_some hkeyword
  obtain ⟨r, hr, hscope⟩ := Option.bind_eq_some_iff.mp hword
  obtain ⟨_, -, hpair⟩ := Option.map_eq_some_iff.mp hscope
  obtain ⟨-, rfl⟩ := Prod.mk.inj hpair
  exact (suffix_trimStart _).trans ((suffix_dropQualifiers r).trans
    ((suffix_of_dropWord? hr).trans (suffix_trimStart s)))

/-- A declaration that is cut off stands in the text, and so does what follows it. -/
theorem Position.infix_cutDeclaration (s : List Char) :
    (cutDeclaration s).1 <:+: s ∧ (cutDeclaration s).2 <:+: s := by
  rw [cutDeclaration]
  split
  · rename_i i _
    exact ⟨(infix_trim _).trans (List.take_prefix (i + 1) s).isInfix,
      (suffix_trimStart _).isInfix.trans (List.drop_suffix (i + 1) s).isInfix⟩
  · exact ⟨infix_trim s, List.nil_infix⟩

/-! ## The declarations -/

/-- A declaration in the lines of a range, and the section that it stands in. -/
structure Site where
  position : Position
  inside : OpenSection
  text : List Char

/-- The variables of a declaration. -/
def Site.written (d : Site) : List Variable :=
  (d.position.readDeclaration d.inside d.text).filterMap Entry.variable?

/-- The names that a text declares. -/
def declaredNames (text : List Char) : List (List Char) :=
  (((Declaration.read? text).map Declaration.entries).getD []).map Prod.fst |>.filter fun name => !name.isEmpty

/-- **The names that one declaration gives** are those of its list that are not empty. -/
theorem Site.map_name_written (d : Site) :
    d.written.map (fun v => v.name.toList) = declaredNames d.text := by
  rw [written, Position.readDeclaration, declaredNames]
  cases Declaration.read? d.text with
  | none => rfl
  | some declaration =>
      dsimp only [Option.map_some, Option.getD_some]
      induction declaration.entries with
      | nil => rfl
      | cons entry entries ih =>
          obtain ⟨name, address⟩ := entry
          cases name with
          | nil => exact ih
          | cons c r => exact List.cons_eq_cons.mpr ⟨String.toList_ofList, ih⟩

/-- **The names of one line** stand in declarations on it, by induction on what is left of it. -/
theorem Position.exists_sites (p : Position) (current : Option OpenSection) {rest : List Char}
    (h : rest <:+: p.line.text) :
    ∃ ds : List Site, (∀ d ∈ ds, d.position = p ∧ d.text <:+: p.line.text) ∧
      (p.readRest current rest).1.filterMap Entry.variable? = ds.flatMap Site.written := by
  induction current, rest using readRest.induct p with
  | case1 current =>
      rw [readRest_nil]
      exact ⟨[], fun _ hd => absurd hd List.not_mem_nil, rfl⟩
  | case2 c r hheader =>
      rw [readRest_none_of_not_header hheader]
      exact ⟨[], fun _ hd => absurd hd List.not_mem_nil, rfl⟩
  | case3 c r header tail hheader ih =>
      rw [readRest_none_of_header hheader]
      exact ih ((Header.suffix_of_read? hheader).isInfix.trans h)
  | case4 c r s hend _ _ _ ih =>
      have hrest : trimStart (r.drop 6) <:+: c :: r :=
        (suffix_trimStart _).isInfix.trans
          ((List.drop_suffix 6 r).isInfix.trans (List.suffix_cons c r).isInfix)
      rw [readRest_end hend]
      exact ih (hrest.trans h)
  | case5 c r s hend _ _ _ _ ih =>
      obtain ⟨hdeclaration, hrest⟩ := infix_cutDeclaration (c :: r)
      obtain ⟨ds, hds, hvars⟩ := ih (hrest.trans h)
      rw [readRest_declaration hend]
      refine ⟨⟨p, s, (cutDeclaration (c :: r)).1⟩ :: ds, ?_, ?_⟩
      · intro d hd
        rcases List.mem_cons.mp hd with rfl | hd
        · exact ⟨rfl, hdeclaration.trans h⟩
        · exact hds d hd
      · rw [List.filterMap_append, hvars, List.flatMap_cons]
        rfl

/-- **The names of some lines** stand in declarations on them, in the order of the lines. -/
theorem exists_sites (sourceLines : List (List Char)) (index : Nat) (above : List CodeLine)
    (current : Option OpenSection) (ls : List CodeLine) :
    ∃ ds : List Site,
      (∀ d ∈ ds, index ≤ d.position.index ∧ d.position.line ∈ ls ∧ d.text <:+: d.position.line.text) ∧
      ds.Pairwise (fun d e => d.position.index ≤ e.position.index) ∧
      (readEntries sourceLines index above current ls).1.filterMap Entry.variable?
        = ds.flatMap Site.written := by
  induction ls generalizing index above current with
  | nil => exact ⟨[], fun _ hd => absurd hd List.not_mem_nil, .nil, rfl⟩
  | cons l ls ih =>
      let p : Position := ⟨index, l, above, sourceLines⟩
      obtain ⟨here, hhere, hvars⟩ :=
        p.exists_sites (current.map fun s => { s with onThisLine := false }) (infix_trim l.text)
      obtain ⟨later, hlater, horder, hrest⟩ := ih (index + 1) (l :: above)
        (p.readRest (current.map fun s => { s with onThisLine := false }) (trim l.text)).2
      refine ⟨here ++ later, ?_, ?_, ?_⟩
      · intro d hd
        rcases List.mem_append.mp hd with hd | hd
        · obtain ⟨hposition, htext⟩ := hhere d hd
          rw [hposition]
          exact ⟨Nat.le_refl index, List.mem_cons_self .., htext⟩
        · obtain ⟨hindex, hline, htext⟩ := hlater d hd
          exact ⟨by omega, List.mem_cons_of_mem l hline, htext⟩
      · refine List.pairwise_append.mpr ⟨?_, horder, ?_⟩
        · refine List.pairwise_of_forall_mem_list ?_
          intro d hd e he
          rw [(hhere d hd).1, (hhere e he).1]
        · intro d hd e he
          rw [(hhere d hd).1]
          exact Nat.le_of_succ_le (hlater e he).1
      · rw [List.flatMap_append, ← hvars, ← hrest, ← List.filterMap_append]
        rfl

/-! ## The lines of a range -/

namespace Table

/-- The accepted names of a range of lines, in the order in which they are read. -/
def accepted (sourceLines : List (List Char)) (ls : List CodeLine) (start stop : Nat) : List Variable :=
  (readEntries sourceLines start [] none (slice ls start stop)).1.filterMap Entry.variable?

/-- **The table of a range of lines** records its accepted names, and so does each table on the way to it.
    These are the names of declarations that stand on lines of the range, one after the other, each of
    which gives all its names that are not empty. -/
theorem ofLines_records (sourceLines : List (List Char)) (ls : List CodeLine) (start stop : Nat) :
    Records (accepted sourceLines ls start stop) (ofLines sourceLines ls start stop) ∧
      (∀ es, es <+: (readEntries sourceLines start [] none (slice ls start stop)).1 →
        Records (es.filterMap Entry.variable?) (es.foldl add empty)) ∧
      ∃ ds : List Site,
        (∀ d ∈ ds, d.position.line ∈ slice ls start stop ∧ d.text <:+: d.position.line.text) ∧
        ds.Pairwise (fun d e => d.position.index ≤ e.position.index) ∧
        accepted sourceLines ls start stop = ds.flatMap Site.written ∧
        (accepted sourceLines ls start stop).map (fun v => v.name.toList)
          = ds.flatMap fun d => declaredNames d.text := by
  refine ⟨?_, fun es _ => records_foldl_add es, ?_⟩
  · have h := records_foldl_add (readEntries sourceLines start [] none (slice ls start stop)).1
    exact ⟨h.distinct, h.fold, h.lastWritten, (repeats_ofEntries _ _).trans h.repeats_eq, h.length_le⟩
  · obtain ⟨ds, hds, horder, haccepted⟩ :=
      exists_sites sourceLines start [] none (slice ls start stop)
    refine ⟨ds, fun d hd => (hds d hd).2, horder, haccepted, ?_⟩
    rw [accepted, haccepted, List.map_flatMap]
    exact congrArg (fun f => ds.flatMap f) (funext Site.map_name_written)

/-- A name is repeated in another case, in another section of its scope and behind a line that cannot be read. -/
example :
    (ofLines [] (codeLines "VAR\n x : INT; y : INT;\nEND_VAR\nVAR\n x := 1;\n z, X : REAL;".toList) 0 6).vars.map
      (fun v => (v.name, v.dataType)) = [("X", "REAL"), ("y", "INT"), ("z", "REAL")] := by
  decide +kernel

end Table

end StLint.Section

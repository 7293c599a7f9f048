import StLint.Proofs.Section.Shift
import StLint.Proofs.Text.Offset

/-!
# Sections in bytes

The reader of sections cuts a line behind `END_VAR` and behind each semicolon, and an entry around
`AT`. Here it is once more with **searches over bytes and cuts at byte offsets**, where a cut inside a
character fails. The cut behind `END_VAR` is made at a fixed offset, and it is right only since what is
left of a line **never begins with white space**.

* `Sliced.splitAddress`, `Sliced.cutDeclaration` — the cuts of a declaration.
* `Sliced.step`, `Sliced.readRest` — the reader.
* `Sliced.exists_step`, `Sliced.ofLines_eq` — it reads every text, and as the other one does.
-/

namespace StLint.Section.Sliced

open Text Source

/-! ## Cuts -/

/-- A name and the direct address after the word `AT`, which does not come first. -/
def splitAddress (s : List Char) : Option (List Char × Option (List Char)) :=
  (sides? ((wordOffset? "AT" (trim s)).filter (0 < ·)) "AT".toList (trim s)).map fun
    | some (name, rest) => (trim name, if (trim rest).isEmpty then none else some (trim rest))
    | none => (trim s, none)

theorem splitAddress_eq (s : List Char) : splitAddress s = some (Section.splitAddress s) := by
  have hfilter : ((findWord? "AT" (trim s)).map (byteOffset (trim s))).filter (0 < ·)
      = ((findWord? "AT" (trim s)).filter (0 < ·)).map (byteOffset (trim s)) := by
    cases hfind : findWord? "AT" (trim s) with
    | none => rfl
    | some i =>
        obtain ⟨u, t, v, hs, rfl, -⟩ :=
          (stands_of_findWord? (by decide) hfind).exists_cut (by decide)
        have hle : u.length ≤ (trim s).length := by
          rw [hs, List.length_append]
          exact Nat.le_add_right _ _
        have hpos : 0 < byteOffset (trim s) u.length ↔ 0 < u.length := by
          rw [Nat.pos_iff_ne_zero, Nat.pos_iff_ne_zero]
          refine not_congr ⟨eq_zero_of_byteOffset hle, ?_⟩
          intro hzero
          rw [hzero]
          rfl
        rw [Option.map_some, Option.filter_some, Option.filter_some, decide_eq_decide.mpr hpos]
        by_cases hlt : 0 < u.length
        · rw [decide_eq_true hlt]
          rfl
        · rw [decide_eq_false hlt]
          rfl
  rw [splitAddress, wordOffset?_eq (by decide), hfilter, sides?_eq (by decide), Section.splitAddress]
  · dsimp only
    cases findWord? "AT" (trim s) with
    | none => rfl
    | some i => cases i <;> rfl
  · intro i hi
    exact stands_of_findWord? (by decide) (Option.filter_eq_some_iff.mp hi).1

/-- A declaration up to its semicolon at top level, and what follows it. -/
def cutDeclaration (s : List Char) : Option (List Char × List Char) :=
  match topLevelOffset? ";" s with
  | some p => (cutAt? (p + 1) s).map fun cut => (trim cut.1, trimStart cut.2)
  | none => some (trim s, [])

theorem cutDeclaration_eq (s : List Char) :
    cutDeclaration s = some (Position.cutDeclaration s) := by
  rw [cutDeclaration, topLevelOffset?_eq (by decide), Position.cutDeclaration]
  cases hfind : findTopLevel? ";" s with
  | none => rfl
  | some i =>
      obtain ⟨v, hv⟩ := findTopLevelFrom?_eq_some hfind
      have hcut : cutAt? (byteOffset s i + 1) s = some (s.take (i + 1), s.drop (i + 1)) := by
        refine cutAt?_eq_some_iff.mpr ⟨(List.take_append_drop _ _).symm, ?_⟩
        rw [List.take_add, byteSize_append, ← hv]
        rfl
      show (cutAt? (byteOffset s i + 1) s).map _ = _
      rw [hcut]
      rfl

/-- What follows a declaration begins with no white space. -/
theorem trimStart_cutDeclaration (s : List Char) :
    trimStart (Position.cutDeclaration s).2 = (Position.cutDeclaration s).2 := by
  rw [Position.cutDeclaration]
  cases findTopLevel? ";" s with
  | none => rfl
  | some i => exact trimStart_trimStart _

/-! ## Declarations -/

variable (p : Position)

/-- The entries of one declaration: one for each of its names. -/
def readDeclaration (s : OpenSection) (text : List Char) : Option (List Entry) :=
  match Declaration.read? text with
  | none => some [.malformed p.line.number text]
  | some d => do
    let entries ← (splitOn ',' d.names).mapM splitAddress
    return entries.map fun (name, address) =>
      if name.isEmpty then .malformed p.line.number text
      else .declared {
        name := String.ofList name
        dataType := String.ofList d.dataType
        scope := s.header.scope
        isConstant := p.isConstant s
        isRetain := s.header.retain
        initialValue := d.initialValue.map InitialValue.classify
        description := p.comment?.map String.ofList
        address := address.map String.ofList
        line := p.line.number }

theorem readDeclaration_eq (s : OpenSection) (text : List Char) :
    readDeclaration p s text = some (p.readDeclaration s text) := by
  have hsplit : splitAddress = fun entry => pure (Section.splitAddress entry) := funext splitAddress_eq
  rw [readDeclaration, Position.readDeclaration]
  cases Declaration.read? text with
  | none => rfl
  | some d =>
      dsimp only
      rw [hsplit, List.mapM_pure]
      rfl

/-! ## Lines -/

/-- What the beginning of a line is read as, the section that is open then, and what is left of the
    line. -/
def step (current : Option OpenSection) (rest : List Char) :
    Option (List Entry × Option OpenSection × Option (List Char)) :=
  match current with
  | none => match Header.read? rest with
    | none => some ([], none, none)
    | some (header, tail) => some ([], some ⟨header, p.line, true⟩, some tail)
  | some s =>
    if wordOffset? "END_VAR" (trimStart rest) = some 0 then
      (cutAt? 7 rest).map fun cut => ([.ended p.index], none, some (trimStart cut.2))
    else do
      let cut ← cutDeclaration rest
      return (← readDeclaration p s cut.1, some s, some cut.2)

/-- What is left of a line is shorter. -/
theorem length_step_lt {current : Option OpenSection} {rest tail : List Char} {entries : List Entry}
    {open? : Option OpenSection} (hne : rest ≠ [])
    (h : step p current rest = some (entries, open?, some tail)) : tail.length < rest.length := by
  cases current with
  | none =>
      rw [step] at h
      cases hread : Header.read? rest with
      | none =>
          rw [hread] at h
          cases h
      | some cut =>
          rw [hread] at h
          cases h
          exact Position.length_header_lt hread
  | some s =>
      rw [step] at h
      by_cases hend : wordOffset? "END_VAR" (trimStart rest) = some 0
      · rw [if_pos hend] at h
        obtain ⟨⟨u, v⟩, hcut, heq⟩ := Option.map_eq_some_iff.mp h
        cases heq
        obtain ⟨rfl, hsize⟩ := cutAt?_eq_some_iff.mp hcut
        have hpos : 0 < u.length := by
          refine List.length_pos_iff.mpr ?_
          rintro rfl
          cases hsize
        have hle := length_trimStart_le v
        rw [List.length_append]
        show (trimStart v).length < _
        omega
      · rw [if_neg hend, cutDeclaration_eq] at h
        obtain ⟨cut, hcut, hrest⟩ := Option.bind_eq_some_iff.mp h
        obtain ⟨_, -, heq⟩ := Option.bind_eq_some_iff.mp hrest
        cases hcut
        cases heq
        exact Position.length_cutDeclaration_lt hne

/-- The rest of a line is read as `entries` and as what the text that is left is read as. That text
    begins with no white space, either. -/
def ReadsAs (current : Option OpenSection) (rest : List Char) :
    List Entry × Option OpenSection × Option (List Char) → Prop
  | (entries, open?, none) => p.readRest current rest = (entries, open?)
  | (entries, open?, some tail) =>
    trimStart tail = tail ∧ p.readRest current rest
      = (entries ++ (p.readRest open? tail).1, (p.readRest open? tail).2)

/-- **One step never fails** on a text without white space before it. -/
theorem exists_step (current : Option OpenSection) {rest : List Char} (hne : rest ≠ [])
    (htrim : trimStart rest = rest) :
    ∃ next, step p current rest = some next ∧ ReadsAs p current rest next := by
  obtain ⟨c, r, rfl⟩ := List.exists_cons_of_ne_nil hne
  cases current with
  | none =>
      rw [step]
      cases hread : Header.read? (c :: r) with
      | none => exact ⟨_, rfl, Position.readRest_none_of_not_header hread⟩
      | some cut =>
          obtain ⟨header, tail⟩ := cut
          refine ⟨_, rfl, ?_, Position.readRest_none_of_header hread⟩
          obtain ⟨_, -, heq⟩ := Option.map_eq_some_iff.mp hread
          obtain rfl := congrArg Prod.snd heq
          exact trimStart_trimStart _
  | some s =>
      rw [step]
      by_cases hend : startsWithKeyword "END_VAR" (c :: r) = true
      · rw [if_pos ((wordOffset?_eq_zero_iff (by decide) _).mpr hend)]
        have hcut : cutAt? 7 (c :: r) = some ((c :: r).take 7, (c :: r).drop 7) := by
          rw [startsWithKeyword, htrim, Bool.and_eq_true] at hend
          obtain ⟨t, v, hsplit, ht, -⟩ := wordAt_iff.mp hend.2
          have hlength : t.length = 7 := length_eq_of_upper_eq ht
          refine cutAt?_eq_some_iff.mpr ⟨(List.take_append_drop 7 _).symm, ?_⟩
          rw [hsplit, ← hlength, List.take_left, byteSize_eq_of_upper_eq ht, hlength]
          rfl
        rw [hcut]
        exact ⟨_, rfl, trimStart_trimStart _, Position.readRest_end hend⟩
      · rw [if_neg fun h => hend ((wordOffset?_eq_zero_iff (by decide) _).mp h), cutDeclaration_eq]
        show ∃ next, (do return (← readDeclaration p s (Position.cutDeclaration (c :: r)).1, some s,
          some (Position.cutDeclaration (c :: r)).2)) = some next ∧ _
        rw [readDeclaration_eq]
        exact ⟨_, rfl, trimStart_cutDeclaration _, Position.readRest_declaration hend⟩

/-- The entries of the rest of a line. -/
def readRest (current : Option OpenSection) (rest : List Char) :
    Option (List Entry × Option OpenSection) :=
  if _hne : rest = [] then some ([], current)
  else
    match _hstep : step p current rest with
    | none => none
    | some (entries, open?, none) => some (entries, open?)
    | some (entries, open?, some tail) =>
      (readRest open? tail).map fun (later, open?) => (entries ++ later, open?)
termination_by rest.length
decreasing_by exact length_step_lt p _hne _hstep

/-- **Every line is read**, whatever its characters. -/
theorem readRest_eq (current : Option OpenSection) {rest : List Char} (htrim : trimStart rest = rest) :
    readRest p current rest = some (p.readRest current rest) := by
  induction hn : rest.length using Nat.strong_induction_on generalizing current rest with
  | _ n ih =>
      subst hn
      rw [readRest]
      by_cases hne : rest = []
      · rw [dif_pos hne, hne, Position.readRest_nil]
      rw [dif_neg hne]
      obtain ⟨next, hnext, hreads⟩ := exists_step p current hne htrim
      split
      all_goals
        rename_i hstep
        rw [hnext] at hstep
        cases hstep
      · rw [show p.readRest current rest = _ from hreads]
      · obtain ⟨htail, hread⟩ := hreads
        rw [ih _ (length_step_lt p hne hnext) _ htail rfl, hread]
        rfl

/-- The entries of lines, and the section left open. -/
def readEntries (sourceLines : List (List Char)) (index : Nat) (above : List CodeLine)
    (current : Option OpenSection) : List CodeLine → Option (List Entry × Option OpenSection)
  | [] => some ([], current)
  | l :: ls => do
    let current := current.map fun s => { s with onThisLine := false }
    let (here, current) ← readRest ⟨index, l, above, sourceLines⟩ current (trim l.text)
    let (later, open?) ← readEntries sourceLines (index + 1) (l :: above) current ls
    return (here ++ later, open?)

theorem readEntries_eq (sourceLines : List (List Char)) (index : Nat) (above : List CodeLine)
    (current : Option OpenSection) (ls : List CodeLine) :
    readEntries sourceLines index above current ls
      = some (Section.readEntries sourceLines index above current ls) := by
  induction ls generalizing index above current with
  | nil => rfl
  | cons l ls ih =>
      rw [readEntries, Section.readEntries]
      dsimp only
      rw [readRest_eq _ _ (trimStart_trim l.text)]
      show (do
        let (later, open?) ← readEntries sourceLines (index + 1) (l :: above) _ ls
        return (_ ++ later, open?)) = _
      rw [ih]
      rfl

/-- The table of the lines with indices from `start` up to `stop`. -/
def ofLines (sourceLines : List (List Char)) (ls : List CodeLine) (start stop : Nat) :
    Option Table := do
  let (entries, open?) ← readEntries sourceLines start [] none (slice ls start stop)
  return Table.ofEntries entries open?

/-- **Every table is read**, whatever its characters. -/
theorem ofLines_eq (sourceLines : List (List Char)) (ls : List CodeLine) (start stop : Nat) :
    ofLines sourceLines ls start stop = some (Table.ofLines sourceLines ls start stop) := by
  rw [ofLines, readEntries_eq]
  rfl

end StLint.Section.Sliced

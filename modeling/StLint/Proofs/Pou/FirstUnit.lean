import StLint.Proofs.Pou.Concatenation
import StLint.Proofs.Section.Order
import StLint.Proofs.Source.Span

/-!
# The first unit of a source

A source is read in two ways. Read as one unit, its lines of code are looked up for the first
declaration and the line that closes it; read as a file, its lines are cut first and each segment is
read on its own. Where the first unit declares no other one **both ways give one unit**, since nothing
that is read of it depends on the lines below its end.

* `DeclaresOnce` — no line of the first unit declares another one.
* `segmentsFrom_first` — the first segment of a file.
* `Pou.ofDeclaration_append_later` — a unit does not depend on the lines below its end.
* `Pou.parse_eq_ofSegment_head` — a source and its first segment are read as the same unit.
-/

namespace StLint

open Text Source

/-! ## The first segment -/

/-- A line of code that closes a unit of the kind. -/
def UnitKind.isClosedBy (kind : UnitKind) (code : List Char) : Bool :=
  startsWithKeyword kind.endKeyword code

/-- **The first unit of a source declares no other one**: no line of code below its declaration declares
    a unit, up to the line that closes it or, where there is none, to the end of the source. -/
def DeclaresOnce (source : List Char) : Prop :=
  ∀ x ∈ declarationLine? source,
    ∀ l ∈ ((lines (stripComments source)).drop x.1).takeWhile fun l => !x.2.kind.isClosedBy l,
      Declaration.ofLine? l = none

instance decidableDeclaresOnce (source : List Char) : Decidable (DeclaresOnce source) :=
  inferInstanceAs (Decidable (∀ x ∈ declarationLine? source,
    ∀ l ∈ ((lines (stripComments source)).drop x.1).takeWhile fun l => !x.2.kind.isClosedBy l,
      Declaration.ofLine? l = none))

section First

variable {kind : UnitKind} {collected : List (List Char)}
  {above inside below : List (List Char × List Char)}

/-- Lines that declare nothing are collected outside the units. -/
theorem segmentsFrom_above (h : ∀ l ∈ above, Declaration.ofLine? l.1 = none) (index start : Nat) :
    segmentsFrom index start none collected (above ++ below)
      = segmentsFrom (index + above.length) start none ((above.map Prod.snd).reverse ++ collected)
          below := by
  induction above generalizing index collected with
  | nil => rfl
  | cons l above ih =>
      obtain ⟨hl, habove⟩ := List.forall_mem_cons.mp h
      rw [List.cons_append, segmentsFrom_outside, hl, Option.map_none, ih habove, List.length_cons,
        List.map_cons, List.reverse_cons, List.append_assoc,
        show index + 1 + above.length = index + (above.length + 1) by omega]
      rfl

/-- Lines that neither close the unit nor declare another one are collected inside it. -/
theorem segmentsFrom_below
    (h : ∀ l ∈ inside, kind.isClosedBy l.1 = false ∧ Declaration.ofLine? l.1 = none)
    (index start : Nat) :
    segmentsFrom index start (some kind) collected (inside ++ below)
      = segmentsFrom (index + inside.length) start (some kind)
          ((inside.map Prod.snd).reverse ++ collected) below := by
  induction inside generalizing index collected with
  | nil => rfl
  | cons l inside ih =>
      obtain ⟨⟨hend, hl⟩, hinside⟩ := List.forall_mem_cons.mp h
      rw [UnitKind.isClosedBy] at hend
      rw [List.cons_append, segmentsFrom_inside (by rw [hend]; exact Bool.false_ne_true) hl,
        ih hinside, List.length_cons, List.map_cons, List.reverse_cons, List.append_assoc,
        show index + 1 + inside.length = index + (inside.length + 1) by omega]
      rfl

/-- **The first segment** reaches from the first line to the line that closes the unit, or to the last
    line. -/
theorem segmentsFrom_first {header : List Char × List Char} {d : Declaration}
    (habove : ∀ l ∈ above, Declaration.ofLine? l.1 = none)
    (hd : Declaration.ofLine? header.1 = some d)
    (hinside : ∀ l ∈ inside, d.kind.isClosedBy l.1 = false ∧ Declaration.ofLine? l.1 = none)
    (hbelow : ∀ l ∈ below.head?, d.kind.isClosedBy l.1 = true) :
    (segmentsFrom 0 0 none [] (above ++ header :: (inside ++ below))).head?
      = some ⟨0, unlines ((above ++ header :: (inside ++ below.take 1)).map Prod.snd)⟩ := by
  have hcollected : ∀ last : List (List Char × List Char),
      ((last.map Prod.snd).reverse ++
          ((inside.map Prod.snd).reverse ++ header.2 :: ((above.map Prod.snd).reverse ++ []))).reverse
        = (above ++ header :: (inside ++ last)).map Prod.snd := by
    intro last
    simp
  rw [segmentsFrom_above habove, segmentsFrom_outside, hd, Option.map_some, segmentsFrom_below hinside]
  cases below with
  | nil =>
      rw [segmentsFrom]
      exact congrArg (fun ls => some (UnitSegment.mk 0 (unlines ls))) (hcollected [])
  | cons l below =>
      rw [segmentsFrom_end (hbelow l rfl)]
      exact congrArg (fun ls => some (UnitSegment.mk 0 (unlines ls))) (hcollected [l])

end First

/-- The lines of the first segment: its code is their code, with the declaration on its line, and its
    last line closes the unit unless it is the last line of the source. -/
structure IsFirstSegment (source : List Char) (h : Nat) (d : Declaration)
    (own rest : List (List Char)) : Prop where
  lines_eq : lines (normalizeLineEndings source) = own ++ rest
  head : (splitUnits source).head? = some ⟨0, unlines own⟩
  declared : declarationFromLine? 1 (stripLines .code own) = some (h, d)
  closed : rest = [] ∨ ∃ l ∈ (stripLines .code own).drop h, d.kind.isClosedBy l = true

/-- The cut of a source walks over its lines of code and its lines side by side. -/
theorem exists_pairs (source : List Char) : ∃ ls : List (List Char × List Char),
    ls.map Prod.fst = stripLines .code (lines (normalizeLineEndings source)) ∧
      ls.map Prod.snd = lines (normalizeLineEndings source) ∧
      splitUnits source = segmentsFrom 0 0 none [] ls := by
  have hcode : lines (stripComments (normalizeLineEndings source))
      = stripLines .code (lines (normalizeLineEndings source)) := by
    rw [lines_stripComments, normalizeLineEndings_idem]
  refine ⟨(lines (stripComments (normalizeLineEndings source))).zip
    (lines (normalizeLineEndings source)), ?_, ?_, rfl⟩
  · rw [hcode, List.map_fst_zip (Nat.le_of_eq (length_stripLines ..))]
  · rw [hcode, List.map_snd_zip (Nat.le_of_eq (length_stripLines ..).symm)]

/-- Of the first of several lines the code does not depend on the others. -/
theorem stripLines_of_pairs {own rest : List (List Char × List Char)}
    (h : (own ++ rest).map Prod.fst = stripLines .code ((own ++ rest).map Prod.snd)) :
    stripLines .code (own.map Prod.snd) = own.map Prod.fst := by
  rw [List.map_append, List.map_append, stripLines_append] at h
  refine (List.append_inj_left h ?_).symm
  rw [length_stripLines, List.length_map, List.length_map]

/-- Below the declaration of the first unit of a source, the lines that stand inside it and the one that
    closes it. -/
theorem exists_inside {kind : UnitKind} {below : List (List Char × List Char)}
    (h : ∀ l ∈ (below.map Prod.fst).takeWhile (fun l => !kind.isClosedBy l),
      Declaration.ofLine? l = none) :
    ∃ inside tail, below = inside ++ tail ∧
      (∀ l ∈ inside, kind.isClosedBy l.1 = false ∧ Declaration.ofLine? l.1 = none) ∧
      ∀ l ∈ tail.head?, kind.isClosedBy l.1 = true := by
  let isOpen : List Char × List Char → Bool := fun l => !kind.isClosedBy l.1
  refine ⟨below.takeWhile isOpen, below.dropWhile isOpen, ?_, ?_, ?_⟩
  · exact (List.takeWhile_append_dropWhile ..).symm
  · intro l hl
    have hopen := List.mem_takeWhile_imp hl
    rw [List.takeWhile_map] at h
    exact ⟨(Bool.not_eq_true' _).mp hopen, h _ (List.mem_map_of_mem hl)⟩
  · intro l hl
    have hclosed := List.head?_dropWhile_not isOpen below
    rw [hl] at hclosed
    exact (Bool.not_eq_false' _).mp hclosed

/-- **The first segment of a source** that declares one unit. -/
theorem exists_isFirstSegment {source : List Char} {h : Nat} {d : Declaration}
    (hfrom : declarationLine? source = some (h, d)) (honce : DeclaresOnce source) :
    ∃ own rest, IsFirstSegment source h d own rest := by
  have honce := honce (h, d) hfrom
  obtain ⟨ls, hfst, hsnd, hsplit⟩ := exists_pairs source
  have hcode := hfst
  rw [declarationLine?, lines_stripComments, ← hfst] at hfrom
  rw [lines_stripComments, ← hfst] at honce
  obtain ⟨aboveCodes, code, belowCodes, hcodes, rfl, habove, hd⟩ :=
    declarationFromLine?_eq_some_iff.mp hfrom
  obtain ⟨above, below, rfl, rfl, hbelow⟩ := List.map_eq_append_iff.mp hcodes
  obtain ⟨header, below, rfl, rfl, rfl⟩ := List.map_eq_cons_iff.mp hbelow
  have hdrop : (above.map Prod.fst ++ header.1 :: below.map Prod.fst).drop
      (1 + (above.map Prod.fst).length) = below.map Prod.fst := by
    rw [Nat.add_comm, List.drop_length_add_append]
    rfl
  rw [hcodes, hdrop] at honce
  obtain ⟨inside, tail, rfl, hinside, htail⟩ := exists_inside honce
  -- the line that closes the unit is the last one of its segment
  have hcut : above ++ header :: (inside ++ tail)
      = (above ++ header :: (inside ++ tail.take 1)) ++ tail.drop 1 := by
    rw [List.append_assoc, List.cons_append, List.append_assoc, List.take_append_drop]
  have hstrip : stripLines .code ((above ++ header :: (inside ++ tail.take 1)).map Prod.snd)
      = (above ++ header :: (inside ++ tail.take 1)).map Prod.fst := by
    rw [hcut] at hcode hsnd
    exact stripLines_of_pairs (hcode.trans (congrArg _ hsnd.symm))
  have hown : (above ++ header :: (inside ++ tail.take 1)).map Prod.fst
      = above.map Prod.fst ++ header.1 :: (inside ++ tail.take 1).map Prod.fst := List.map_append
  refine ⟨(above ++ header :: (inside ++ tail.take 1)).map Prod.snd, (tail.drop 1).map Prod.snd,
    ?_, ?_, ?_, ?_⟩
  · rw [← hsnd, ← List.map_append, ← hcut]
  · rw [hsplit]
    exact segmentsFrom_first (fun l hl => habove _ (List.mem_map_of_mem hl)) hd hinside htail
  · rw [hstrip, hown]
    exact declarationFromLine?_eq_some_iff.mpr ⟨_, _, _, rfl, rfl, habove, hd⟩
  · cases tail with
    | nil => exact Or.inl rfl
    | cons l tail =>
        refine Or.inr ⟨l.1, ?_, htail l rfl⟩
        rw [hstrip, hown, Nat.add_comm, List.drop_length_add_append]
        show l.1 ∈ (inside ++ [l]).map Prod.fst
        exact List.mem_map_of_mem (List.mem_append_right inside (List.mem_singleton_self l))

namespace Pou

variable {raw text : List Char} {ls later : List CodeLine} {index : Nat} {d : Declaration}

/-! ## A unit and the lines below its end -/

/-- The line that closes a unit is found whatever stands below it. -/
theorem endIndex_append_later {kind : UnitKind} {start : Nat} (hstart : start ≤ ls.length)
    (h : later = [] ∨ ∃ l ∈ ls.drop start, kind.isClosedBy l.text = true) :
    endIndex kind (ls ++ later) start = endIndex kind ls start := by
  rcases h with rfl | ⟨l, hl, hclosed⟩
  · rw [List.append_nil]
  · have hfound : (ls.drop start).findIdx (fun l => startsWithKeyword kind.endKeyword l.text)
        < (ls.drop start).length := List.findIdx_lt_length_of_exists ⟨l, hl, hclosed⟩
    rw [endIndex, endIndex, List.drop_append_of_le_length hstart, List.findIdx_append, if_pos hfound]

theorem endIndex_le_length {kind : UnitKind} {start : Nat} (hstart : start ≤ ls.length) :
    endIndex kind ls start ≤ ls.length := by
  have hle : (ls.drop start).findIdx (fun l => startsWithKeyword kind.endKeyword l.text)
      ≤ (ls.drop start).length := List.findIdx_le_length
  rw [List.length_drop] at hle
  rw [endIndex]
  omega

theorem slice_append_later {start stop : Nat} (h : stop ≤ ls.length) :
    slice (ls ++ later) start stop = slice ls start stop := by
  rw [slice, slice, List.take_append_of_le_length h]

/-- **A unit does not depend on the lines below its end**: not on the lines of code there, and of the
    source only on as many lines as its own lines of code are numbered by. -/
theorem ofDeclaration_append_later (label : String) (source : List Char) {rest : List (List Char)}
    (hraw : lines (normalizeLineEndings raw) = lines (normalizeLineEndings text) ++ rest)
    (hnormal : normalizeLineEndings raw = raw ∧ normalizeLineEndings text = text)
    (hnumbers : ∀ l ∈ ls, 0 < l.number ∧ l.number ≤ (lines text).length)
    (hindex : index < ls.length)
    (hend : later = [] ∨ ∃ l ∈ ls.drop (index + 1), d.kind.isClosedBy l.text = true) :
    ofDeclaration label source raw (ls ++ later) index d
      = (ofDeclaration label text text ls index d).withSource source := by
  rw [hnormal.1, hnormal.2] at hraw
  have hstop := endIndex_append_later hindex hend
  have hle : endIndex d.kind ls (index + 1) ≤ ls.length := endIndex_le_length hindex
  have hslice : ∀ start, slice (ls ++ later) start (endIndex d.kind (ls ++ later) (index + 1))
      = slice ls start (endIndex d.kind ls (index + 1)) := by
    intro start
    rw [hstop, slice_append_later hle]
  have hlines : ∀ l ∈ ls, (lines raw)[l.number - 1]? = (lines text)[l.number - 1]? := by
    intro l hl
    obtain ⟨hpos, hnumber⟩ := hnumbers l hl
    rw [hraw, List.getElem?_append_left (by omega)]
  have htable : tableAt raw (ls ++ later) index d = tableAt text ls index d := by
    have hcongr : Section.Table.ofLines (lines raw) ls (index + 1) (endIndex d.kind ls (index + 1))
        = tableAt text ls index d := by
      refine Section.Table.ofLines_congr ?_
      intro l hl
      exact hlines l (List.mem_of_mem_take (List.mem_of_mem_drop hl))
    rw [tableAt, Section.Table.ofLines, hslice, ← hcongr, Section.Table.ofLines]
  have hbody : bodyAt raw (ls ++ later) index d = bodyAt text ls index d := by
    rw [bodyAt, htable, Statement.Body.ofLines, hslice, bodyAt, Statement.Body.ofLines]
  have hnumber : numberAt (ls ++ later) index = ls[index].number := by
    rw [numberAt, List.getElem?_append_left hindex, List.getElem?_eq_getElem hindex]
    rfl
  have hnumber' : numberAt ls index = ls[index].number := by
    rw [numberAt, List.getElem?_eq_getElem hindex]
    rfl
  have hdescription : descriptionAbove? raw ls[index].number
      = descriptionAbove? text ls[index].number := by
    refine descriptionAbove?_congr ?_
    have hle := (hnumbers _ (List.getElem_mem hindex)).2
    rw [hnormal.1, hnormal.2, hraw, List.take_append_of_le_length (by omega)]
  rw [ofDeclaration_eq, ofDeclaration_eq, htable, hbody, hnumber, hnumber', hdescription]
  rfl

/-! ## The two ways to read a source -/

/-- A line that closes a unit is not blank, and its end does not matter. -/
theorem isClosedBy_trimEnd {kind : UnitKind} {l : List Char} (hl : kind.isClosedBy l = true) :
    trimEnd l ≠ [] ∧ kind.isClosedBy (trimEnd l) = true := by
  have hkeyword := startsWithKeyword_trimEnd (isKeyword_endKeyword kind) l
  constructor
  · intro hnil
    rw [UnitKind.isClosedBy, ← hkeyword, hnil] at hl
    cases kind <;> cases hl
  · rw [UnitKind.isClosedBy, hkeyword]
    exact hl

section FirstSegment

variable {source : List Char} {h : Nat} {own rest : List (List Char)}

/-- The lines of the first segment are lines, so its text has them as its lines. -/
theorem lines_unlines_own (hfirst : IsFirstSegment source h d own rest) :
    normalizeLineEndings (unlines own) = unlines own ∧ lines (unlines own) = own := by
  have hne : own ≠ [] := by
    rintro rfl
    exact nomatch hfirst.declared
  have hchars : ∀ l ∈ own, '\n' ∉ l ∧ '\r' ∉ l := by
    intro l hl
    have hmem : l ∈ lines (normalizeLineEndings source) := by
      rw [hfirst.lines_eq]
      exact List.mem_append_left rest hl
    refine ⟨newline_not_mem_of_mem_lines hmem, ?_⟩
    intro hcr
    exact cr_not_mem_normalizeLineEndings source (mem_and_ne_of_mem_splitOn hmem hcr).1
  exact ⟨normalizeLineEndings_unlines hne hchars, lines_unlines hne fun l hl => (hchars l hl).1⟩

theorem lines_stripComments_own (hfirst : IsFirstSegment source h d own rest) :
    lines (stripComments (unlines own)) = stripLines .code own := by
  obtain ⟨hnormal, hown⟩ := lines_unlines_own hfirst
  rw [lines_stripComments, hnormal, hown]

/-- **What is kept of the source** is what is kept of the segment, and more below it. -/
theorem exists_codeLines_own (hfirst : IsFirstSegment source h d own rest) :
    ∃ later, codeLines (normalizeLineEndings source) = codeLines (unlines own) ++ later ∧
      (rest = [] → later = []) := by
  obtain ⟨b, hkept⟩ := exists_collapse_append false 1 (stripLines .code own)
    (stripLines (Region.afterLines .code own) rest)
  refine ⟨collapse b (1 + (stripLines .code own).length)
    (stripLines (Region.afterLines .code own) rest), ?_, ?_⟩
  · rw [codeLines, codeLines, lines_stripComments_own hfirst, ← hkept, lines_stripComments,
      normalizeLineEndings_idem, hfirst.lines_eq, stripLines_append]
  · rintro rfl
    rfl

/-- A source is read as its first segment is. -/
theorem exists_parse_of_isFirstSegment (label : String)
    (hfirst : IsFirstSegment source h d own rest) :
    ∃ u, parse label (unlines own) = .ok u ∧ parse label source = .ok (u.withSource source) := by
  obtain ⟨hnormal, hown⟩ := lines_unlines_own hfirst
  have hcode := lines_stripComments_own hfirst
  have hline : declarationLine? (unlines own) = some (h, d) := by
    rw [declarationLine?, hcode, hfirst.declared]
  obtain ⟨i, b, hfind, hdrop⟩ := exists_findDeclaration?_codeLines hline
  rw [hnormal] at hfind hdrop
  rw [hcode] at hdrop
  obtain ⟨later, hcodeLines, hlater⟩ := exists_codeLines_own hfirst
  obtain ⟨l, hl, -⟩ := exists_of_findDeclaration? hfind
  obtain ⟨hi, -⟩ := List.getElem?_eq_some_iff.mp hl
  have hraw : lines (normalizeLineEndings (normalizeLineEndings source))
      = lines (normalizeLineEndings (unlines own)) ++ rest := by
    rw [normalizeLineEndings_idem, hnormal, hown, hfirst.lines_eq]
  have hnumbers : ∀ m ∈ codeLines (unlines own),
      0 < m.number ∧ m.number ≤ (lines (unlines own)).length := by
    intro m hm
    have hnumber := number_of_mem_codeLines hm
    rwa [hnormal] at hnumber
  have hend : later = [] ∨
      ∃ k ∈ (codeLines (unlines own)).drop (i + 1), d.kind.isClosedBy k.text = true := by
    refine hfirst.closed.imp hlater ?_
    rintro ⟨m, hm, hclosed⟩
    obtain ⟨hne, htrimmed⟩ := isClosedBy_trimEnd hclosed
    rw [hdrop]
    obtain ⟨k, hk, htext⟩ := exists_mem_collapse hm hne
    exact ⟨k, hk, htext ▸ htrimmed⟩
  refine ⟨ofDeclaration label (unlines own) (unlines own) (codeLines (unlines own)) i d, ?_, ?_⟩
  · rw [parse_eq_find, hnormal, hfind]
  · rw [parse_eq_find, hcodeLines, findDeclaration?_append_of_some hfind]
    exact congrArg Except.ok (ofDeclaration_append_later label source hraw
      ⟨normalizeLineEndings_idem source, hnormal⟩ hnumbers hi hend)

end FirstSegment

/-- A source without a declaration has no segment. -/
theorem splitUnits_eq_nil_of_none {source : List Char} (h : declarationLine? source = none) :
    splitUnits source = [] := by
  by_contra hne
  obtain ⟨code, hcode, hsome⟩ := (splitUnits_ne_nil_iff source).mp hne
  rw [declarationFromLine?_eq_none_iff.mp h code hcode] at hsome
  cases hsome

/-- The first unit of a file is that of its first segment. -/
theorem head?_of_parseFile {label : String} {source : List Char} {s : UnitSegment} {u : Pou}
    (hs : (splitUnits source).head? = some s) (hu : ofSegment label s = .ok u) {us : List Pou}
    (hus : parseFile label source = .ok us) : us.head? = some u := by
  obtain ⟨-, hall⟩ := parseFile_eq_ok_iff.mp hus
  obtain ⟨rest, hrest⟩ := List.head?_eq_some_iff.mp hs
  rw [hrest] at hall
  obtain ⟨v, vs, hv, -, rfl⟩ := List.forall₂_cons_left_iff.mp hall
  rw [hu] at hv
  rw [Except.ok.inj hv]
  rfl

/-- **A source and its first segment are read as the same unit**, where the first unit declares no other
    one: reading the source succeeds exactly if it has a first segment, and all but the text of the unit
    is what a file with this source makes of the segment. -/
theorem parse_eq_ofSegment_head (label : String) {source : List Char} (honce : DeclaresOnce source) :
    match (splitUnits source).head? with
    | none => parse label source = .error (.noUnitDeclaration label)
    | some s => ∃ u, parse label source = .ok u ∧ ofSegment label s = .ok (u.withSource s.text) ∧
        ∀ us, parseFile label source = .ok us → us.head? = some (u.withSource s.text) := by
  cases hfrom : declarationLine? source with
  | none =>
      rw [splitUnits_eq_nil_of_none hfrom]
      show parse label source = _
      rw [parse_eq_find, findDeclaration?_codeLines_of_none hfrom]
  | some x =>
      obtain ⟨own, rest, hfirst⟩ := exists_isFirstSegment hfrom honce
      obtain ⟨u, hu, hparse⟩ := exists_parse_of_isFirstSegment label hfirst
      have hsegment : ofSegment label ⟨0, unlines own⟩
          = .ok ((u.withSource source).withSource (unlines own)) := by
        rw [ofSegment, hu]
        exact congrArg Except.ok (withSource_of_eq (source_of_parse hu)).symm
      rw [hfirst.head]
      exact ⟨u.withSource source, hparse, hsegment,
        fun us hus => head?_of_parseFile hfirst.head hsegment hus⟩

/-- A file with a program below a comment and blank lines, and another program below it. -/
def commentedFile : List Char :=
  "// Pump\nPROGRAM A\n\n\nVAR\n x : INT; // count\nEND_VAR\nx := 1;\nEND_PROGRAM\n\nPROGRAM B\nEND_PROGRAM".toList

theorem declaresOnce_commentedFile : DeclaresOnce commentedFile := by decide +kernel

/-- The first unit of the file declares no other one, though the file does. -/
theorem parse_eq_ofSegment_head_commentedFile :
    DeclaresOnce commentedFile ∧ (splitUnits commentedFile).length = 2 ∧
      match (splitUnits commentedFile).head? with
      | none => parse "f.st" commentedFile = .error (.noUnitDeclaration "f.st")
      | some s => ∃ u, parse "f.st" commentedFile = .ok u ∧
          ofSegment "f.st" s = .ok (u.withSource s.text) ∧
          ∀ us, parseFile "f.st" commentedFile = .ok us → us.head? = some (u.withSource s.text) :=
  ⟨declaresOnce_commentedFile, by decide +kernel,
    parse_eq_ofSegment_head "f.st" declaresOnce_commentedFile⟩

end Pou

end StLint

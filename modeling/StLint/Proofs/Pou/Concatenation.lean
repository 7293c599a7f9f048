import StLint.Proofs.Pou.File
import StLint.Proofs.Pou.Translation

/-!
# Files, put together

Where a file ends with the line that closes its last unit, and no comment is open, **the end of the
file is a seam**: what is put after it is cut and read as if it stood alone, and then moved down by
the lines of the file. A unit that was cut out of a file has been moved already, so two moves meet
here, and they add up.

* `shift_shift_of_parse` — two moves of a unit are one.
* `splitUnits_append` — the segments of two files, put together.
* `parseFile_append` — **the concatenation law**: the units of the one, then those of the other.
-/

namespace StLint

open Text Source

/-! ## Segments -/

/-- A file that ends with the line that closes its last unit. -/
def ClosesLastUnit (source : List Char) : Prop :=
  ∃ before last kind, lines (stripComments source) = before ++ [last] ∧
    openAfter none before = some kind ∧ startsWithKeyword kind.endKeyword last = true

/-- A line feed between two texts adds no carriage return. -/
private theorem normalizeLineEndings_join {a b : List Char} (ha : '\r' ∉ a) (hb : '\r' ∉ b) :
    normalizeLineEndings (a ++ '\n' :: b) = a ++ '\n' :: b := by
  refine normalizeLineEndings_eq_self ?_
  rw [List.mem_append, List.mem_cons]
  rintro (h | h | h)
  · exact ha h
  · exact absurd h (by decide)
  · exact hb h

/-- Where no comment is open at the end of a text, a line feed separates it from what follows. -/
theorem stripComments_append_newline {a b : List Char} (ha : '\r' ∉ a) (hb : '\r' ∉ b)
    (hr : Region.after .code a ≠ .blockComment) :
    stripComments (a ++ '\n' :: b) = stripComments a ++ '\n' :: stripComments b := by
  have hnext : (Region.after .code a).nextLine = .code := by
    cases h : Region.after .code a with
    | blockComment => exact absurd h hr
    | code | lineComment | quoted | escaped => rfl
  rw [stripComments, stripComments, stripComments, normalizeLineEndings_eq_self ha,
    normalizeLineEndings_eq_self hb, normalizeLineEndings_join ha hb, stripFrom_append_newline, hnext]

/-- **The segments of two files, put together**, are those of the one, then those of the other, moved
    down by the lines of the first. -/
theorem splitUnits_append {a b : List Char} (ha : '\r' ∉ a) (hb : '\r' ∉ b)
    (hr : Region.after .code a ≠ .blockComment) (hc : ClosesLastUnit a) :
    splitUnits (a ++ '\n' :: b)
      = splitUnits a ++ (splitUnits b).map (UnitSegment.shift (lines a).length) := by
  have hlength : (lines (stripComments a)).length = (lines a).length := by
    rw [lines_stripComments, length_stripLines, normalizeLineEndings_eq_self ha]
  obtain ⟨before, last, kind, hcode, hopen, hend⟩ := hc
  obtain ⟨rawBefore, rawLast, hraw⟩ : ∃ ls l, lines a = ls ++ [l] :=
    ⟨_, _, (List.dropLast_append_getLast (lines_ne_nil a)).symm⟩
  have hbefore : before.length = rawBefore.length := by
    rw [hcode, hraw, List.length_append, List.length_append] at hlength
    exact Nat.add_right_cancel hlength
  -- each line of code is paired with its raw line, also at the seam
  have hzip : (lines (stripComments a)).zip (lines a) = before.zip rawBefore ++ [(last, rawLast)] := by
    rw [hcode, hraw, List.zip_append hbefore]
    rfl
  have hfst : (before.zip rawBefore).map Prod.fst = before := List.map_fst_zip (Nat.le_of_eq hbefore)
  have hindex : (before.zip rawBefore).length + 1 = (lines a).length := by
    rw [List.length_zip, hbefore, Nat.min_self, hraw, List.length_append]
    rfl
  rw [splitUnits, splitUnits, splitUnits, normalizeLineEndings_eq_self ha,
    normalizeLineEndings_eq_self hb, normalizeLineEndings_join ha hb,
    stripComments_append_newline ha hb hr, lines_append_newline, lines_append_newline,
    List.zip_append hlength, hzip, List.append_assoc]
  have hseam := @segmentsFrom_append_closed (before.zip rawBefore) last rawLast kind none
    (by rw [hfst, hopen]) hend 0 0 [] ((lines (stripComments b)).zip (lines b))
  rw [List.singleton_append, hseam, Nat.zero_add, hindex, ← segmentsFrom_add, Nat.zero_add]

/-! ## Units -/

namespace Pou

/-- A unit with another text. -/
def withSource (text : List Char) (u : Pou) : Pou := { u with source := String.ofList text }

theorem source_shift (n : Nat) (u : Pou) : (u.shift n).source = u.source := by
  rw [shift]
  by_cases hn : n = 0
  · rw [if_pos hn]
  · rw [if_neg hn]

/-- The text of a unit plays no part in a move. -/
theorem shift_withSource (n : Nat) (text : List Char) (u : Pou) :
    (u.withSource text).shift n = (u.shift n).withSource text := by
  rw [shift, shift]
  by_cases hn : n = 0
  · rw [if_pos hn, if_pos hn]
  · rw [if_neg hn, if_neg hn]
    rfl

/-- The text of a unit is only kept. -/
theorem ofDeclaration_withSource (label : String) (source text raw : List Char) (ls : List CodeLine)
    (index : Nat) (d : Declaration) :
    ofDeclaration label text raw ls index d
      = (ofDeclaration label source raw ls index d).withSource text := by
  rw [ofDeclaration_eq, ofDeclaration_eq]
  rfl

theorem withSource_of_eq {text : List Char} {u : Pou} (h : u.source = String.ofList text) :
    u.withSource text = u := by
  rw [withSource, ← h]

theorem length_lines_below (m : Nat) (text : List Char) :
    (lines (normalizeLineEndings (List.replicate m '\n' ++ text))).length
      = m + (lines (normalizeLineEndings text)).length := by
  rw [normalizeLineEndings_replicate_newline_append, lines_replicate_newline_append,
    List.length_append, List.length_replicate]

/-- A text below line feeds is its unit, moved down. -/
theorem parse_below_of_parse {label : String} {text : List Char} {u : Pou}
    (hu : parse label text = .ok u) (m : Nat)
    (htext : (lines (normalizeLineEndings text)).length < limit64) :
    parse label (List.replicate m '\n' ++ text)
      = .ok ((u.shift m).withSource (List.replicate m '\n' ++ text)) := by
  rw [parse_newlines_shift label m htext, hu]
  rfl

/-- **Two moves of a unit are one**, as long as its lines fit in 64 bits after the first. Both are
    what the reader makes of the text below as many line feeds. -/
theorem shift_shift_of_parse {label : String} {text : List Char} {u : Pou}
    (hu : parse label text = .ok u) {m : Nat} (n : Nat)
    (hm : m + (lines (normalizeLineEndings text)).length < limit64) :
    (u.shift m).shift n = u.shift (n + m) := by
  have htext : (lines (normalizeLineEndings text)).length < limit64 := by omega
  have hone := parse_below_of_parse hu (n + m) htext
  have htwo := parse_below_of_parse (parse_below_of_parse hu m htext) n
    ((length_lines_below m text).symm ▸ hm)
  -- the two texts are equal, so the two units that are read from them are
  have hunit : (u.shift (n + m)).withSource text = ((u.shift m).shift n).withSource text := by
    rw [List.replicate_add, List.append_assoc, htwo, shift_withSource] at hone
    exact (congrArg (withSource text) (Except.ok.inj hone)).symm
  have hsource := source_of_parse hu
  rw [withSource_of_eq ((source_shift _ u).trans hsource),
    withSource_of_eq ((source_shift n _).trans ((source_shift m u).trans hsource))] at hunit
  exact hunit.symm

/-! ## Segments as units -/

/-- A segment that stands further down in its file is read as its unit, moved down. -/
theorem ofSegment_shift {label : String} {s : UnitSegment} {u : Pou}
    (hu : ofSegment label s = .ok u) (n : Nat)
    (hs : s.lineOffset + (lines (normalizeLineEndings s.text)).length < limit64) :
    ofSegment label (s.shift n) = .ok (u.shift n) := by
  obtain ⟨v, hv, rfl⟩ := exists_parse_of_ofSegment hu
  show (parse label s.text).map (shift (s.lineOffset + n)) = _
  rw [shift_shift_of_parse hv n hs, hv, Nat.add_comm]
  rfl

/-- The unit of a segment is labelled by paths of its name. -/
theorem labelledIn_of_ofSegment {label : String} {s : UnitSegment} {u : Pou}
    (hu : ofSegment label s = .ok u)
    (hs : s.lineOffset + (lines (normalizeLineEndings s.text)).length < limit64) :
    u.body.LabelledIn u.name := by
  obtain ⟨v, hv, rfl⟩ := exists_parse_of_ofSegment hu
  have hbelow := parse_below_of_parse hv s.lineOffset (by omega)
  have hlabelled := labelledIn_of_parse (by rw [length_lines_below]; exact hs) hbelow
  exact hlabelled

/-- The lines of a segment fit where the lines of the source do. -/
theorem lineOffset_add_lt {source : List Char} {s : UnitSegment} (hs : s ∈ splitUnits source)
    {limit : Nat} (hlimit : (lines (normalizeLineEndings source)).length < limit) :
    s.lineOffset + (lines (normalizeLineEndings s.text)).length < limit := by
  obtain ⟨d, -, hopens⟩ := exists_left_of_forall₂ (List.Forall₂.flip (forall₂_opens source)) hs
  have hnormal := UnitSegment.Opens.normal hopens
  have hle := UnitSegment.Opens.length_le hopens
  rw [hnormal]
  exact Nat.lt_of_le_of_lt hle hlimit

/-- The segments of a file that stand further down are read as its units, moved down. -/
private theorem forall₂_ofSegment_shift {label : String} {ss : List UnitSegment} {vs : List Pou}
    (hfits : ∀ s ∈ ss, s.lineOffset + (lines (normalizeLineEndings s.text)).length < limit64)
    (hvs : List.Forall₂ (fun s v => ofSegment label s = .ok v) ss vs) (n : Nat) :
    List.Forall₂ (fun s v => ofSegment label s = .ok v) (ss.map (UnitSegment.shift n))
      (vs.map (shift n)) := by
  rw [List.forall₂_map_left_iff, List.forall₂_map_right_iff]
  refine ((List.forall₂_and_left _ _).mpr ⟨hfits, hvs⟩).imp ?_
  intro s v h
  exact ofSegment_shift h.2 n h.1

/-- A file without a declaration has no segment. -/
private theorem splitUnits_eq_nil {b : List Char}
    (hnone : ∀ code ∈ lines (stripComments b), Declaration.ofLine? code = none) :
    splitUnits b = [] := by
  by_contra hne
  obtain ⟨code, hcode, hd⟩ := (splitUnits_ne_nil_iff b).mp hne
  rw [hnone code hcode] at hd
  exact nomatch hd

/-! ## The concatenation law -/

/-- **The concatenation law.** Let no comment be open at the end of `a`, and let its last line close
    its last unit. What is put after `a` is cut into its own segments, moved down by the lines of
    `a`; where both files are read, the units of `a` come first, unchanged, and then those of `b`,
    moved down with all their labels; and a `b` without a declaration adds nothing. Line numbers are
    taken to fit in 64 bits, as those of a text in memory do. -/
theorem parseFile_append (label : String) {a b : List Char} (ha : '\r' ∉ a) (hb : '\r' ∉ b)
    (hr : Region.after .code a ≠ .blockComment) (hc : ClosesLastUnit a) :
    splitUnits (a ++ '\n' :: b)
        = splitUnits a ++ (splitUnits b).map (fun s =>
            { s with lineOffset := s.lineOffset + (lines a).length }) ∧
      ((lines (a ++ '\n' :: b)).length < limit64 →
        ∀ us vs, parseFile label a = .ok us → parseFile label b = .ok vs →
          parseFile label (a ++ '\n' :: b) = .ok (us ++ vs.map (shift (lines a).length)) ∧
          ∀ v ∈ vs, ∀ m ∈ v.body.preorder,
            (m.shift (lines a).length).line = (if m.line = 0 then 0 else m.line + (lines a).length) ∧
            ∃ blocks : List OpenBlock, m.scope = (⟨v.name, blocks⟩ : BlockStack).path ∧
              (m.shift (lines a).length).scope
                = (⟨v.name, blocks.map (·.shift (lines a).length)⟩ : BlockStack).path) ∧
      ((∀ code ∈ lines (stripComments b), Declaration.ofLine? code = none) →
        parseFile label (a ++ '\n' :: b) = parseFile label a) := by
  have hsplit := splitUnits_append ha hb hr hc
  refine ⟨hsplit, ?_, ?_⟩
  · intro hlimit us vs hus hvs
    obtain ⟨husne, hus⟩ := parseFile_eq_ok_iff.mp hus
    obtain ⟨-, hvs⟩ := parseFile_eq_ok_iff.mp hvs
    -- the lines of `b` fit, since those of the joined text do
    have hfits : ∀ s ∈ splitUnits b,
        s.lineOffset + (lines (normalizeLineEndings s.text)).length < limit64 := by
      intro s hs
      refine lineOffset_add_lt hs ?_
      rw [lines_append_newline, List.length_append] at hlimit
      rw [normalizeLineEndings_eq_self hb]
      omega
    constructor
    · rw [parseFile_eq_ok_iff, hsplit]
      refine ⟨?_, List.rel_append hus (forall₂_ofSegment_shift hfits hvs (lines a).length)⟩
      intro hnil
      exact husne (List.append_eq_nil_iff.mp hnil).1
    · intro v hv m hm
      obtain ⟨s, hs, hsv⟩ := exists_left_of_forall₂ hvs hv
      have hlabelled := labelledIn_of_ofSegment hsv (hfits s hs)
      exact ⟨Node.line_shift _ m, exists_blocks_of_labelledIn hlabelled hm _⟩
  · intro hnone
    rw [parseFile, hsplit, splitUnits_eq_nil hnone, List.map_nil, List.append_nil, parseFile]

/-- A file of one unit that ends with its last line. -/
def closedFile : List Char := "PROGRAM A\nEND_PROGRAM".toList

/-- A file with a comment above a unit that has a statement. -/
def fileBehind : List Char := "// B\nFUNCTION_BLOCK B\nIF x THEN y := 1; END_IF;\nEND_FUNCTION_BLOCK".toList

/-- The law on the two files, which are both read. -/
theorem parseFile_append_fileBehind :
    ('\r' ∉ closedFile ∧ '\r' ∉ fileBehind ∧ Region.after .code closedFile ≠ .blockComment ∧
        ClosesLastUnit closedFile) ∧
      (lines (closedFile ++ '\n' :: fileBehind)).length < limit64 ∧
      (parseFile "f.st" closedFile).toBool = true ∧ (parseFile "f.st" fileBehind).toBool = true ∧
      ∀ us vs, parseFile "f.st" closedFile = .ok us → parseFile "f.st" fileBehind = .ok vs →
        parseFile "f.st" (closedFile ++ '\n' :: fileBehind) = .ok (us ++ vs.map (shift 2)) := by
  have hcloses : ClosesLastUnit closedFile :=
    ⟨["PROGRAM A".toList], "END_PROGRAM".toList, .program, by decide, by decide, by decide⟩
  refine ⟨⟨by decide, by decide, by decide, hcloses⟩, by decide, by decide, by decide, ?_⟩
  intro us vs hus hvs
  exact ((parseFile_append "f.st" (by decide) (by decide) (by decide) hcloses).2.1 (by decide)
    us vs hus hvs).1

end Pou

end StLint

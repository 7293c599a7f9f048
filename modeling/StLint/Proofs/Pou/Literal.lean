import StLint.Proofs.Pou.Seam
import StLint.Proofs.Source.Quote
import StLint.Proofs.Source.Span

/-!
# What a string holds and where a file is cut

The cut looks at the code of each line for a closing keyword and for a declaration. A closing keyword
leads its line, where no string stands before it; a declaration is looked for in strings, too. So
**the content of a string changes nothing but itself as long as it spells the same declaration**, in
particular as long as it spells none. A string that spells one may cut the file.

* `SameCut` — two lines of code at which the cut does the same.
* `Replaced` — segments that differ in one text within one of them.
* `replaced_segmentsFrom` — the walk over lines that differ at one place.
* `replaced_literal` — **which contents are harmless**, for the cut and for the units of a file.
* `not_replaced_programInString` — a string that cuts a program in two.
-/

namespace StLint

open Text Source

/-! ## Lines at which the cut does the same -/

/-- Two lines of code that close the same units and declare the same one. -/
structure SameCut (code code' : List Char) : Prop where
  closes : ∀ kind : UnitKind,
    startsWithKeyword kind.endKeyword code = startsWithKeyword kind.endKeyword code'
  declares : (Declaration.ofLine? code).map (fun d => (d.kind, d.name))
    = (Declaration.ofLine? code').map fun d => (d.kind, d.name)

/-- **A literal in a line** does nothing for the cut but by the declaration that it spells. -/
theorem sameCut_literal {q : Char} (hq : isQuote q = true) {c c' : List Char}
    (h : spelled? c = spelled? c') (x y : List Char) :
    SameCut (x ++ (literal q c ++ y)) (x ++ (literal q c' ++ y)) := by
  constructor
  · intro kind
    have hk := isKeyword_endKeyword kind
    rw [literal, literal, List.cons_append, List.cons_append,
      startsWithKeyword_append_quote hq hk, startsWithKeyword_append_quote hq hk]
  · rw [map_ofLine?_eq_spelled?, map_ofLine?_eq_spelled?, spelled?_literal hq, spelled?_literal hq, h]

variable {code code' : List Char}

theorem SameCut.kind_eq (h : SameCut code code') :
    (Declaration.ofLine? code).map (·.kind) = (Declaration.ofLine? code').map (·.kind) := by
  have hkind := congrArg (Option.map Prod.fst) h.declares
  rw [Option.map_map, Option.map_map] at hkind
  exact hkind

theorem SameCut.openAfterLine_eq (h : SameCut code code') (open? : Option UnitKind) :
    openAfterLine open? code = openAfterLine open? code' := by
  cases open? with
  | none => exact h.kind_eq
  | some kind => rw [openAfterLine, openAfterLine, h.closes, h.kind_eq]

/-- The kind and the name with which a unit is declared. -/
def kindAndName (d : Declaration) : UnitKind × List Char := (d.kind, d.name)

/-- The recognised declarations have the same kinds and names. -/
theorem SameCut.map_openersFrom_eq (h : SameCut code code') (open? : Option UnitKind)
    (above below : List (List Char)) :
    (openersFrom open? (above ++ code :: below)).map kindAndName
      = (openersFrom open? (above ++ code' :: below)).map kindAndName := by
  induction above generalizing open? with
  | nil =>
      have hopened : (opened? open? code).map kindAndName = (opened? open? code').map kindAndName := by
        cases open? with
        | none => exact h.declares
        | some kind =>
            rw [opened?, opened?, h.closes]
            by_cases hend : startsWithKeyword kind.endKeyword code' = true
            · rw [if_pos hend, if_pos hend]
            · rw [if_neg hend, if_neg hend]
              exact h.declares
      rw [List.nil_append, List.nil_append, openersFrom, openersFrom, List.map_append,
        List.map_append, ← Option.toList_map, ← Option.toList_map, hopened, h.openAfterLine_eq]
  | cons l above ih =>
      rw [List.cons_append, List.cons_append, openersFrom, openersFrom, List.map_append,
        List.map_append, ih]

/-! ## One text replaced -/

/-- Segments that are the same, or differ in one place of one of them, where `t` stands in one and
    `t'` in the other. -/
inductive Replaced (t t' : List Char) : List UnitSegment → List UnitSegment → Prop
  | nowhere (ss : List UnitSegment) : Replaced t t' ss ss
  | here (offset : Nat) (u v : List Char) (ss : List UnitSegment) :
      Replaced t t' (⟨offset, u ++ (t ++ v)⟩ :: ss) (⟨offset, u ++ (t' ++ v)⟩ :: ss)
  | later (s : UnitSegment) {ss ss' : List UnitSegment} (h : Replaced t t' ss ss') :
      Replaced t t' (s :: ss) (s :: ss')

variable {t t' x y : List Char}

theorem Replaced.length_eq {ss ss' : List UnitSegment} (h : Replaced t t' ss ss') :
    ss.length = ss'.length := by
  induction h with
  | nowhere => rfl
  | here => rfl
  | later s _ ih => rw [List.length_cons, List.length_cons, ih]

/-- The text is replaced in a segment that has collected its line. -/
private theorem replaced_ofLines (start : Nat) (later earlier : List (List Char))
    (ss : List UnitSegment) :
    Replaced t t' (.ofLines start (later ++ (x ++ (t ++ y)) :: earlier) :: ss)
      (.ofLines start (later ++ (x ++ (t' ++ y)) :: earlier) :: ss) := by
  obtain ⟨u, v, h⟩ := exists_unlines_append earlier.reverse later.reverse x y
  have hof : ∀ s, UnitSegment.ofLines start (later ++ (x ++ (s ++ y)) :: earlier)
      = ⟨start, u ++ (s ++ v)⟩ := by
    intro s
    rw [UnitSegment.ofLines, List.reverse_append, List.reverse_cons, List.append_assoc,
      List.singleton_append, h]
  rw [hof, hof]
  exact Replaced.here start u v ss

/-- **Behind the line** the walk goes on alike, by induction on the lines ahead: the line ends up in
    the segment that is open, or in none. -/
private theorem replaced_collected (index start : Nat) (open? : Option UnitKind)
    (later earlier : List (List Char)) (ls : List (List Char × List Char)) :
    Replaced t t' (segmentsFrom index start open? (later ++ (x ++ (t ++ y)) :: earlier) ls)
      (segmentsFrom index start open? (later ++ (x ++ (t' ++ y)) :: earlier) ls) := by
  induction ls generalizing index start open? later with
  | nil =>
      rw [segmentsFrom, segmentsFrom]
      cases open? with
      | none => exact Replaced.nowhere []
      | some kind => exact replaced_ofLines start later earlier []
  | cons l ls ih =>
      obtain ⟨code, raw⟩ := l
      cases open? with
      | none =>
          rw [segmentsFrom_outside, segmentsFrom_outside]
          exact ih _ _ _ (raw :: later)
      | some kind =>
          by_cases hend : startsWithKeyword kind.endKeyword code = true
          · rw [segmentsFrom_end hend, segmentsFrom_end hend]
            exact replaced_ofLines start (raw :: later) earlier _
          · cases hd : Declaration.ofLine? code with
            | some next =>
                rw [segmentsFrom_next hend hd, segmentsFrom_next hend hd]
                exact replaced_ofLines start later earlier _
            | none =>
                rw [segmentsFrom_inside hend hd, segmentsFrom_inside hend hd]
                exact ih _ _ _ (raw :: later)

/-- At the line itself the walk takes the same step. -/
private theorem replaced_here (h : SameCut code code') (index start : Nat)
    (open? : Option UnitKind) (collected : List (List Char)) (ls : List (List Char × List Char)) :
    Replaced t t' (segmentsFrom index start open? collected ((code, x ++ (t ++ y)) :: ls))
      (segmentsFrom index start open? collected ((code', x ++ (t' ++ y)) :: ls)) := by
  cases open? with
  | none =>
      rw [segmentsFrom_outside, segmentsFrom_outside, h.kind_eq]
      exact replaced_collected _ _ _ [] collected ls
  | some kind =>
      by_cases hend : startsWithKeyword kind.endKeyword code = true
      · have hend' : startsWithKeyword kind.endKeyword code' = true := h.closes kind ▸ hend
        rw [segmentsFrom_end hend, segmentsFrom_end hend']
        exact replaced_ofLines start [] collected _
      · have hend' : ¬ startsWithKeyword kind.endKeyword code' = true := h.closes kind ▸ hend
        have hkind := h.kind_eq
        cases hd : Declaration.ofLine? code with
        | some next =>
            rw [hd] at hkind
            obtain ⟨next', hd', hnext⟩ := Option.map_eq_some_iff.mp hkind.symm
            rw [segmentsFrom_next hend hd, segmentsFrom_next hend' hd', hnext]
            exact Replaced.later _ (replaced_collected _ _ _ [] [] ls)
        | none =>
            rw [hd] at hkind
            have hd' := Option.map_eq_none_iff.mp hkind.symm
            rw [segmentsFrom_inside hend hd, segmentsFrom_inside hend' hd']
            exact replaced_collected _ _ _ [] collected ls

/-- **The walk over lines that differ at one place** cuts them at the same places, by induction on the
    lines before it. -/
theorem replaced_segmentsFrom (h : SameCut code code') (index start : Nat)
    (open? : Option UnitKind) (collected : List (List Char))
    (above below : List (List Char × List Char)) :
    Replaced t t'
      (segmentsFrom index start open? collected (above ++ (code, x ++ (t ++ y)) :: below))
      (segmentsFrom index start open? collected (above ++ (code', x ++ (t' ++ y)) :: below)) := by
  induction above generalizing index start open? collected with
  | nil => exact replaced_here h index start open? collected below
  | cons l above ih =>
      obtain ⟨c, r⟩ := l
      rw [List.cons_append, List.cons_append]
      cases open? with
      | none =>
          rw [segmentsFrom_outside, segmentsFrom_outside]
          exact ih ..
      | some kind =>
          by_cases hend : startsWithKeyword kind.endKeyword c = true
          · rw [segmentsFrom_end hend, segmentsFrom_end hend]
            exact Replaced.later _ (ih ..)
          · cases hd : Declaration.ofLine? c with
            | some next =>
                rw [segmentsFrom_next hend hd, segmentsFrom_next hend hd]
                exact Replaced.later _ (ih ..)
            | none =>
                rw [segmentsFrom_inside hend hd, segmentsFrom_inside hend hd]
                exact ih ..

/-! ## A source with a gap -/

namespace Source.Gap

variable {g : Gap} {q : Char} {c c' : List Char}

/-- The lines of the code with those of the source. -/
private theorem zip_fill (hg : g.InCode) (hq : isQuote q = true) (hc : isContent q c = true) :
    (stripLines .code (g.fill (literal q c))).zip (g.fill (literal q c))
      = g.strip.above.zip g.above ++
          (g.strip.left ++ (literal q c ++ g.strip.right), g.left ++ (literal q c ++ g.right)) ::
          g.strip.below.zip g.below := by
  rw [stripLines_fill hg hq hc, fill, fill, List.zip_append]
  · rfl
  · exact length_stripLines .code g.above

end Source.Gap

/-- The two sources of a gap in code, cut alike. -/
private theorem replaced_of_gap {s s' c c' : List Char} {q : Char} {g : Gap} (hg : g.InCode)
    (hq : isQuote q = true) (hc : isContent q c = true) (hc' : isContent q c' = true)
    (hs : lines (normalizeLineEndings s) = g.fill (literal q c))
    (hs' : lines (normalizeLineEndings s') = g.fill (literal q c'))
    (h : spelled? c = spelled? c') :
    Replaced (literal q c) (literal q c') (splitUnits s) (splitUnits s') ∧
      (openers s).map kindAndName = (openers s').map kindAndName := by
  have hcut := sameCut_literal hq h g.strip.left g.strip.right
  constructor
  · rw [splitUnits, splitUnits, lines_stripComments, lines_stripComments, normalizeLineEndings_idem,
      normalizeLineEndings_idem, hs, hs', Gap.zip_fill hg hq hc, Gap.zip_fill hg hq hc']
    exact replaced_segmentsFrom hcut ..
  · rw [openers, openers, lines_stripComments, lines_stripComments, hs, hs',
      Gap.stripLines_fill hg hq hc, Gap.stripLines_fill hg hq hc']
    exact hcut.map_openersFrom_eq ..

/-! ## The units of the two sources -/

namespace Pou

/-- The kinds and names of the units of a file, or why there are none. -/
def headings (r : Except ParseError (List Pou)) : Except ParseError (List (UnitKind × String)) :=
  r.map fun us => us.map fun u => (u.kind, u.name)

/-- A segment is read with the kind and the name of the declaration that it begins with. -/
private theorem map_ofSegment_congr (label : String) {s s' : UnitSegment}
    (h : (declaration? s.text).map kindAndName = (declaration? s'.text).map kindAndName) :
    (ofSegment label s).map (fun u => (u.kind, u.name))
      = (ofSegment label s').map fun u => (u.kind, u.name) := by
  -- both are what the declaration says
  have hread : ∀ s : UnitSegment, (ofSegment label s).map (fun u => (u.kind, u.name))
      = match (declaration? s.text).map kindAndName with
        | none => .error (.noUnitDeclaration label)
        | some d => .ok (d.1, String.ofList d.2) := by
    intro s
    rw [ofSegment]
    cases hd : declaration? s.text with
    | none =>
        rw [parse_eq_error label hd]
        rfl
    | some d =>
        obtain ⟨u, hu, hkind, hname⟩ := exists_parse_eq_ok label hd
        rw [hu]
        show Except.ok ((u.shift s.lineOffset).kind, (u.shift s.lineOffset).name) = _
        rw [kind_shift, name_shift, hkind, hname]
        rfl
  rw [hread, hread, h]

/-- Readers that agree on each element agree on all of them, up to what is looked at. -/
private theorem map_mapM_congr {α β γ ε : Type} {f : α → Except ε β} {g : β → γ} {as as' : List α}
    (h : List.Forall₂ (fun a a' => (f a).map g = (f a').map g) as as') :
    (as.mapM f).map (List.map g) = (as'.mapM f).map (List.map g) := by
  induction h with
  | nil => rfl
  | @cons a a' as as' ha _ ih =>
      have hcons : ∀ (b : α) (bs : List α), ((b :: bs).mapM f).map (List.map g)
          = ((f b).map g).bind fun c => ((bs.mapM f).map (List.map g)).map (c :: ·) := by
        intro b bs
        rw [List.mapM_cons]
        cases f b with
        | error e => rfl
        | ok c => cases bs.mapM f <;> rfl
      rw [hcons, hcons, ha, ih]

/-- Files whose segments begin with the same declarations have units of the same kinds and names. -/
theorem headings_parseFile_congr (label : String) {s s' : List Char}
    (h : List.Forall₂ (fun s s' => (declaration? s.text).map kindAndName
      = (declaration? s'.text).map kindAndName) (splitUnits s) (splitUnits s')) :
    headings (parseFile label s) = headings (parseFile label s') := by
  have hread := map_mapM_congr (h.imp fun _ _ => map_ofSegment_congr label)
  rw [parseFile, parseFile]
  generalize (splitUnits s).mapM (ofSegment label) = r at hread ⊢
  generalize (splitUnits s').mapM (ofSegment label) = r' at hread ⊢
  cases r with
  | error e =>
      cases r' with
      | error e' => rw [Except.error.inj hread]
      | ok us' => cases hread
  | ok us =>
      cases r' with
      | error e' => cases hread
      | ok us' =>
          have hus := Except.ok.inj hread
          -- no unit is an error, in both files or in neither
          cases us with
          | nil =>
              cases us' with
              | nil => rfl
              | cons u' us' => exact absurd hus (List.cons_ne_nil _ _).symm
          | cons u us =>
              cases us' with
              | nil => exact absurd hus (List.cons_ne_nil _ _)
              | cons u' us' => exact congrArg Except.ok hus

end Pou

/-- The segments in front of which no block comment is open where they differ begin with the same
    declarations, by induction on where they differ. -/
private theorem forall₂_declaration_of_replaced {s s' : List Char}
    (hregion : ∀ n, Region.afterLines .code ((lines (normalizeLineEndings s)).take n)
      = Region.afterLines .code ((lines (normalizeLineEndings s')).take n))
    {ss ss' : List UnitSegment} (h : Replaced t t' ss ss') {ds ds' : List Declaration}
    (hds : List.Forall₂ (UnitSegment.Opens (lines (normalizeLineEndings s))) ss ds)
    (hds' : List.Forall₂ (UnitSegment.Opens (lines (normalizeLineEndings s'))) ss' ds')
    (hnames : ds.map kindAndName = ds'.map kindAndName)
    (hcode : ∀ p ∈ ss.zip ss', p.1 ≠ p.2 →
      Region.afterLines .code ((lines (normalizeLineEndings s)).take p.1.lineOffset) ≠ .blockComment) :
    List.Forall₂ (fun r r' => (declaration? r.text).map kindAndName
      = (declaration? r'.text).map kindAndName) ss ss' := by
  induction h generalizing ds ds' with
  | nowhere ss => exact List.forall₂_same.mpr fun _ _ => rfl
  | here offset u v ss =>
      refine List.Forall₂.cons ?_ (List.forall₂_same.mpr fun _ _ => rfl)
      obtain ⟨d, _, hd, -, rfl⟩ := List.forall₂_cons_left_iff.mp hds
      obtain ⟨d', _, hd', -, rfl⟩ := List.forall₂_cons_left_iff.mp hds'
      by_cases hsame : u ++ (t ++ v) = u ++ (t' ++ v)
      · show (declaration? (u ++ (t ++ v))).map kindAndName = _
        rw [hsame]
      · have hne := hcode _ (List.mem_cons_self ..)
          fun h => hsame (congrArg UnitSegment.text h)
        rw [hd.declaration?_eq hne, hd'.declaration?_eq (by rw [← hregion]; exact hne)]
        exact congrArg some (List.cons.inj hnames).1
  | later r _ ih =>
      obtain ⟨d, ds, -, htail, rfl⟩ := List.forall₂_cons_left_iff.mp hds
      obtain ⟨d', ds', -, htail', rfl⟩ := List.forall₂_cons_left_iff.mp hds'
      exact List.Forall₂.cons rfl (ih htail htail' (List.cons.inj hnames).2
        fun p hp => hcode p (List.mem_cons_of_mem _ hp))

namespace Pou

/-- **Which contents of a string are harmless.** If the old and the new content of a string literal
    spell the same declaration, and in particular if neither spells one, then the file is cut at the
    same places into the same segments up to the literal. Its units have the same kinds and names,
    unless a block comment is open in front of the segment with the literal. -/
theorem replaced_literal {a b c c' : List Char} {q : Char} (hq : isQuote q = true)
    (ha : Region.after .code (normalizeLineEndings a) = .code) (hc : isContent q c = true)
    (hc' : isContent q c' = true) (h : spelled? c = spelled? c') :
    Replaced (literal q c) (literal q c') (splitUnits (a ++ (literal q c ++ b)))
        (splitUnits (a ++ (literal q c' ++ b))) ∧
      ((∀ p ∈ (splitUnits (a ++ (literal q c ++ b))).zip (splitUnits (a ++ (literal q c' ++ b))),
          p.1 ≠ p.2 → Region.afterLines .code
            ((lines (normalizeLineEndings (a ++ (literal q c ++ b)))).take p.1.lineOffset)
              ≠ .blockComment) →
        ∀ label, headings (parseFile label (a ++ (literal q c ++ b)))
          = headings (parseFile label (a ++ (literal q c' ++ b)))) := by
  obtain ⟨g, hg, hlines⟩ := exists_gap_literal hq ha b
  obtain ⟨hreplaced, hnames⟩ := replaced_of_gap hg hq hc hc' (hlines c hc) (hlines c' hc') h
  refine ⟨hreplaced, ?_⟩
  intro hcode label
  refine headings_parseFile_congr label ?_
  refine forall₂_declaration_of_replaced ?_ hreplaced (forall₂_opens _) (forall₂_opens _) hnames hcode
  intro n
  rw [hlines c hc, hlines c' hc']
  exact Gap.afterLines_take_fill hg hq hc hc' n

/-- A program that assigns a string. -/
def stringInProgram (content : List Char) : List Char :=
  "PROGRAM A\nx := ".toList ++ (literal '\'' content ++ ";\nEND_PROGRAM".toList)

/-- A closing keyword in the string closes nothing, since a quote leads its line. -/
theorem replaced_literal_endInString :
    spelled? "go".toList = spelled? "END_PROGRAM".toList ∧
      Replaced (literal '\'' "go".toList) (literal '\'' "END_PROGRAM".toList)
        (splitUnits (stringInProgram "go".toList))
        (splitUnits (stringInProgram "END_PROGRAM".toList)) ∧
      headings (parseFile "a.st" (stringInProgram "go".toList))
        = headings (parseFile "a.st" (stringInProgram "END_PROGRAM".toList)) := by
  have hspelled : spelled? "go".toList = spelled? "END_PROGRAM".toList := by decide +kernel
  have h := replaced_literal (a := "PROGRAM A\nx := ".toList) (b := ";\nEND_PROGRAM".toList)
    (q := '\'') (by decide) (by decide) (isContent_of_plain (by decide) (plain_of_all (by decide)))
    (isContent_of_plain (by decide) (plain_of_all (by decide))) hspelled
  exact ⟨hspelled, h.1, h.2 (by decide +kernel) "a.st"⟩

/-- **A declaration in the string cuts the program in two**: the line with the string is taken for the
    first one of another unit. -/
theorem not_replaced_programInString :
    isQuote '\'' = true ∧
      Region.after .code (normalizeLineEndings "PROGRAM A\nx := ".toList) = .code ∧
      (∀ d ∈ "go".toList ++ "PROGRAM b".toList,
        isQuote d = false ∧ d ≠ '$' ∧ isLineBreak d = false) ∧
      ¬ Replaced (literal '\'' "go".toList) (literal '\'' "PROGRAM b".toList)
        (splitUnits (stringInProgram "go".toList)) (splitUnits (stringInProgram "PROGRAM b".toList)) ∧
      headings (parseFile "a.st" (stringInProgram "go".toList)) = .ok [(.program, "A")] ∧
      headings (parseFile "a.st" (stringInProgram "PROGRAM b".toList))
        = .ok [(.program, "A"), (.program, "b")] := by
  refine ⟨by decide, by decide, plain_of_all (by decide), ?_, by decide +kernel, by decide +kernel⟩
  intro h
  exact absurd h.length_eq (by decide +kernel)

end Pou

end StLint

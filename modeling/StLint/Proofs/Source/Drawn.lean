import StLint.Proofs.Source.Quote
import StLint.Proofs.Source.Removal
import StLint.Proofs.Source.Upward

/-!
# Descriptions and code

The way up from a declaration ends with the first line of code, as far as the walk can tell: it looks at the
ends of a line, and a line of code may hold comments there. So the description **may hold code, and comments
from above it**. This depends on the last line with code and on how the walk comes to it.

* `codeFrom` — the code of a line from a column on.
* `DrawnFromComments` — no code stands between the beginning of what is taken over and the declaration.
* `isDrawn_of_blank`, `not_isDrawn_of_lt` — what is taken over below the last line with code, and above it.
* `settles_false_iff`, `settles_true_iff` — what is taken over of the line itself.
* `descriptionAbove?_drawn` — the description in terms of this line.
-/

namespace StLint.Source

open Text

variable {r : Region} {s t w l : List Char} {ls : List (List Char)} {b : Bool}

/-! ## Code of a line -/

/-- The code of a text from a column on, where the scan of the text starts in a region. -/
def codeFrom (r : Region) (s : List Char) (column : Nat) : List Char :=
  stripFrom (r.after (s.take column)) (s.drop column)

theorem codeFrom_zero (r : Region) (s : List Char) : codeFrom r s 0 = stripFrom r s := by
  rw [codeFrom, List.take_zero, List.drop_zero]
  cases r <;> rfl

/-- **At an opening mark** the code is cut in two. -/
theorem stripFrom_eq_append_codeFrom {column : Nat} (h : find? "(*".toList s = some column) (r : Region) :
    stripFrom r s = stripFrom r (s.take column) ++ codeFrom r s column := by
  obtain ⟨v, hv⟩ := prefix_drop_of_find? h
  have hs : s = s.take column ++ '(' :: ('*' :: v) := by
    conv_lhs => rw [← List.take_append_drop column s, ← hv]
    rfl
  have hseam : IsSeam '(' := by decide
  conv_lhs => rw [hs, stripFrom_append_of_seam hseam]
  rw [codeFrom, ← hv]
  rfl

/-- What is left of a text with nothing but white space is blank. -/
theorem allBlank_of_sublist (h : s.Sublist t) (ht : allBlank t = true) : allBlank s = true := by
  rw [allBlank_iff] at ht ⊢
  exact fun c hc => ht c (h.subset hc)

theorem allBlank_append : allBlank (s ++ t) = (allBlank s && allBlank t) := List.all_append

/-- Where a line has no code, none stands from a column on at which something is taken over. -/
theorem allBlank_codeFrom {column : Nat} (h : allBlank (stripFrom r s) = true)
    (hcolumn : column = 0 ∨ find? "(*".toList s = some column) : allBlank (codeFrom r s column) = true := by
  rcases hcolumn with rfl | hcolumn
  · rwa [codeFrom_zero]
  · rw [stripFrom_eq_append_codeFrom hcolumn, allBlank_append, Bool.and_eq_true] at h
    exact h.2

/-- White space in front of a line changes nothing. -/
theorem allBlank_stripFrom_blank_append (hr : r.nextLine = r) (hw : ∀ c ∈ w, isBlank c = true) :
    allBlank (stripFrom r (w ++ s)) = allBlank (stripFrom r s) := by
  induction w with
  | nil => rfl
  | cons c w ih =>
      have hc : isBlank c = true := hw c (List.mem_cons_self ..)
      have hne : ∀ d, isBlank d = false → c ≠ d := fun d hd hcd => absurd (hcd ▸ hc) (by rw [hd]; decide)
      rw [← ih fun d hd => hw d (List.mem_cons_of_mem c hd), List.cons_append]
      cases r with
      | code =>
          rw [stripFrom_code_cons (fun _ h => absurd h (hne '/' (by decide)))
            (fun _ h => absurd h (hne '(' (by decide)))]
          have hquote : ¬ isQuote c = true := fun h => absurd hc (by rw [not_blank_of_quote h]; decide)
          rw [Region.ofCode, if_neg hquote, allBlank, List.all_cons, hc, Bool.true_and]
          rfl
      | blockComment =>
          rw [stripFrom_blockComment_cons (fun _ h => absurd h (hne '*' (by decide))), allBlank_append]
          split <;> rfl
      | lineComment | quoted | escaped => cases hr

/-- White space behind a line changes nothing. -/
theorem allBlank_stripFrom_append_blank (r : Region) (s : List Char) (hw : ∀ c ∈ w, isBlank c = true) :
    allBlank (stripFrom r (s ++ w)) = allBlank (stripFrom r s) := by
  cases w with
  | nil => rw [List.append_nil]
  | cons c w =>
      have hc : isBlank c = true := hw c (List.mem_cons_self ..)
      have hseam : IsSeam c := by
        refine ⟨?_, ?_, ?_⟩ <;> rintro rfl <;> exact absurd hc (by decide)
      rw [stripFrom_append_of_seam hseam, allBlank_append,
        allBlank_of_sublist (stripFrom_sublist _ _) (allBlank_iff.mpr hw), Bool.and_true]

theorem allBlank_stripFrom_trim (hr : r.nextLine = r) (l : List Char) :
    allBlank (stripFrom r (trim l)) = allBlank (stripFrom r l) := by
  obtain ⟨v, w, hv, hw, hl⟩ := exists_trim_parts l
  conv_rhs => rw [← hl, allBlank_stripFrom_blank_append hr hv, allBlank_stripFrom_append_blank r _ hw]

/-! ## The lines above a declaration -/

/-- The code of the lines above the line with a number. -/
def codeAbove (source : List Char) (number : Nat) : List (List Char) :=
  (lines (stripComments source)).take (number - 1)

/-- Where the scan of the line with an index starts. -/
def regionAbove (source : List Char) (number row : Nat) : Region :=
  Region.afterLines .code ((linesAbove source number).take row)

/-- **No code stands between the place from which on a text is taken over and the declaration**: none on
    the line behind the place, and none on the lines below. -/
def IsDrawn (source : List Char) (number : Nat) (q : Nat × Piece) : Prop :=
  ((linesAbove source number)[q.1]?.all fun l =>
    allBlank (codeFrom (regionAbove source number q.1) (trim l) q.2.column)) = true ∧
  ∀ c ∈ (codeAbove source number).drop (q.1 + 1), allBlank c = true

/-- **The description of a line is drawn from comments**, and from those below all code above the line. -/
def DrawnFromComments (source : List Char) (number : Nat) : Prop :=
  ∀ q ∈ piecesAbove source number, q.2.text ≠ [] → IsDrawn source number q

/-- The line with an index is the last one above the declaration with code. -/
def IsLastCode (source : List Char) (number row : Nat) : Prop :=
  (∃ c, (codeAbove source number)[row]? = some c ∧ allBlank c = false) ∧
    ∀ c ∈ (codeAbove source number).drop (row + 1), allBlank c = true

/-- Nothing is collected above the line with an index, on a walk that seeks the beginning of a block comment
    there or does not. -/
def CollectsNothing (source : List Char) (number row : Nat) (b : Bool) : Prop :=
  ∀ t ∈ commentsUpward b ((linesAbove source number).take row).reverse, t = []

variable {source : List Char} {number row : Nat} {q : Nat × Piece}

theorem nextLine_regionAbove (source : List Char) (number row : Nat) :
    (regionAbove source number row).nextLine = regionAbove source number row := by
  rw [regionAbove]
  rcases Region.afterLines_code ((linesAbove source number).take row) with h | h
  · rw [h]
    rfl
  · rw [h]
    rfl

/-- The code of each line is what removal leaves of it. -/
theorem getElem?_codeAbove (source : List Char) (number row : Nat) :
    (codeAbove source number)[row]? =
      (linesAbove source number)[row]?.map (stripFrom (regionAbove source number row)) := by
  rw [codeAbove, lines_stripComments, regionAbove, linesAbove, List.getElem?_take, List.getElem?_take,
    List.take_take]
  split
  · next h => rw [getElem?_stripLines, Nat.min_eq_left (Nat.le_of_lt h)]
  · rfl

theorem mem_drop_of_getElem? {α : Type} {as : List α} {a : α} {i n : Nat} (h : as[i]? = some a)
    (hn : n ≤ i) : a ∈ as.drop n := by
  refine List.mem_of_getElem? (i := i - n) ?_
  rw [List.getElem?_drop, Nat.add_sub_cancel' hn, h]

/-- **A line without code** lets the texts that are taken over of it be drawn from comments. -/
theorem isDrawn_of_blank (hq : q ∈ piecesAbove source number)
    (h : ∀ c ∈ (codeAbove source number).drop q.1, allBlank c = true) : IsDrawn source number q := by
  obtain ⟨l, hl, hcolumn⟩ := exists_line_of_mem_piecesUpward (List.mem_reverse.mp hq)
  rw [List.reverse_reverse] at hl
  have hcode : (codeAbove source number)[q.1]? = some (stripFrom (regionAbove source number q.1) l) := by
    rw [getElem?_codeAbove, hl]
    rfl
  have hblank := h _ (mem_drop_of_getElem? hcode (Nat.le_refl _))
  rw [← allBlank_stripFrom_trim (nextLine_regionAbove ..)] at hblank
  refine ⟨?_, fun c hc => h c (List.drop_subset_drop_left _ (Nat.le_succ _) hc)⟩
  rw [hl]
  exact allBlank_codeFrom hblank hcolumn

/-- **What is taken over above a line with code** is not drawn from the comments below it. -/
theorem not_isDrawn_of_lt (hlast : IsLastCode source number row) (h : q.1 < row) :
    ¬ IsDrawn source number q := by
  intro hdrawn
  obtain ⟨⟨c, hc, hcode⟩, -⟩ := hlast
  rw [hdrawn.2 c (mem_drop_of_getElem? hc h)] at hcode
  cases hcode

/-! ## The last line with code -/

/-- How the walk treats a line with code: what it takes over of the line stands behind the code, and above it
    nothing is collected. -/
def Settles (source : List Char) (number row : Nat) (l : List Char) (b : Bool) : Prop :=
  ∀ p? b', pieceOfLine? b l = some (p?, b') →
    (∀ p ∈ p?, p.text ≠ [] →
      allBlank (codeFrom (regionAbove source number row) (trim l) p.column) = true) ∧
    CollectsNothing source number row b'

theorem drawnFromComments_iff_settles (hlast : IsLastCode source number row)
    (hl : (linesAbove source number)[row]? = some l) :
    DrawnFromComments source number ↔
      ∀ b, arrival false ((linesAbove source number).drop (row + 1)).reverse = some b →
        Settles source number row l b := by
  obtain ⟨hrow, hlrow⟩ := List.getElem?_eq_some_iff.mp hl
  have hreverse : (linesAbove source number).reverse =
      ((linesAbove source number).drop (row + 1)).reverse ++
        l :: ((linesAbove source number).take row).reverse := by
    conv_lhs =>
      rw [← List.take_append_drop row (linesAbove source number), List.drop_eq_getElem_cons hrow, hlrow]
    simp
  have habove : (((linesAbove source number).take row).reverse).length = row := by
    rw [List.length_reverse, List.length_take, Nat.min_eq_left (Nat.le_of_lt hrow)]
  have hmem : ∀ q : Nat × Piece, q.1 ≤ row → (q ∈ piecesAbove source number ↔
      ∃ b, arrival false ((linesAbove source number).drop (row + 1)).reverse = some b ∧
        q ∈ piecesUpward b (l :: ((linesAbove source number).take row).reverse)) := by
    intro q hq
    rw [piecesAbove, List.mem_reverse, hreverse, mem_piecesUpward_append_iff]
    rw [List.length_cons, habove]
    exact Nat.lt_succ_of_le hq
  constructor
  · intro hdrawn b harrival p? b' hpiece
    refine ⟨?_, ?_⟩
    · rintro p rfl hne
      have hq : (row, p) ∈ piecesAbove source number := by
        refine (hmem _ (Nat.le_refl row)).mpr ⟨b, harrival, ?_⟩
        refine mem_piecesUpward_cons_iff.mpr ⟨_, b', hpiece, Or.inl ?_⟩
        rw [habove]
        rfl
      have hblank := (hdrawn _ hq hne).1
      rwa [hl] at hblank
    · intro t ht
      rw [← map_text_piecesUpward] at ht
      obtain ⟨q, hq, rfl⟩ := List.mem_map.mp ht
      have hlt : q.1 < row := habove ▸ row_lt_of_mem_piecesUpward hq
      by_contra hne
      refine not_isDrawn_of_lt hlast hlt (hdrawn q ((hmem q hlt.le).mpr ⟨b, harrival, ?_⟩) hne)
      exact mem_piecesUpward_cons_iff.mpr ⟨p?, b', hpiece, Or.inr hq⟩
  · intro hsettles q hq hne
    rcases Nat.lt_or_ge row q.1 with hlt | hle
    · exact isDrawn_of_blank hq fun c hc => hlast.2 c (List.drop_subset_drop_left _ hlt hc)
    · obtain ⟨b, harrival, hq⟩ := (hmem q hle).mp hq
      obtain ⟨p?, b', hpiece, hq | hq⟩ := mem_piecesUpward_cons_iff.mp hq
      · obtain ⟨p, rfl, rfl⟩ := Option.map_eq_some_iff.mp hq
        rw [habove]
        refine ⟨?_, hlast.2⟩
        rw [hl]
        exact (hsettles b harrival _ b' hpiece).1 p rfl hne
      · refine absurd ((hsettles b harrival p? b' hpiece).2 q.2.text ?_) hne
        rw [← map_text_piecesUpward]
        exact List.mem_map_of_mem hq

/-- The code that white space in a line comment leaves is blank. -/
theorem allBlank_stripFrom_lineComment (hr : r.nextLine = r) (hs : allBlank s = true) :
    allBlank (stripFrom r ("//".toList ++ s)) = true := by
  refine allBlank_of_sublist ?_ hs
  cases r with
  | code => exact stripFrom_sublist .lineComment s
  | blockComment =>
      have hskip : ∀ t : List Char, stripFrom .blockComment ('/' :: t) = stripFrom .blockComment t := by
        intro t
        rw [stripFrom_blockComment_cons fun _ h => absurd h (by decide)]
        rfl
      show (stripFrom .blockComment ('/' :: '/' :: s)).Sublist s
      rw [hskip, hskip]
      exact stripFrom_sublist .blockComment s
  | lineComment | quoted | escaped => cases hr

/-- So is the code that white space in a block comment leaves. -/
theorem allBlank_stripFrom_blockComment (hr : r.nextLine = r) (hs : allBlank s = true) :
    allBlank (stripFrom r ("(*".toList ++ (s ++ "*)".toList))) = true := by
  have hinside : allBlank (stripFrom .blockComment (s ++ "*)".toList)) = true := by
    rw [allBlank_stripFrom_blank_append rfl (allBlank_iff.mp hs)]
    rfl
  cases r with
  | code => exact hinside
  | blockComment =>
      have hopen : ∀ t, '*' = '*' → s ++ "*)".toList = ')' :: t → False := by
        intro t _ h
        cases s with
        | nil => exact absurd (List.cons.inj h).1 (by decide)
        | cons c s =>
            have hc := allBlank_iff.mp hs c (List.mem_cons_self ..)
            rw [(List.cons.inj h).1] at hc
            exact absurd hc (by decide)
      show allBlank (stripFrom .blockComment ('*' :: (s ++ "*)".toList))) = true
      rw [stripFrom_blockComment_cons hopen]
      exact hinside
  | lineComment | quoted | escaped => cases hr

theorem settles_iff_of_piece {p : Piece} {b' : Bool} (h : pieceOfLine? b l = some (some p, b')) :
    Settles source number row l b ↔
      (p.text ≠ [] → allBlank (codeFrom (regionAbove source number row) (trim l) p.column) = true) ∧
        CollectsNothing source number row b' := by
  constructor
  · intro hsettles
    exact (hsettles _ b' h).imp_left fun hplace => hplace p rfl
  · rintro ⟨hplace, hnothing⟩ p? c hpiece
    rw [h] at hpiece
    obtain ⟨rfl, rfl⟩ := Prod.mk.inj (Option.some.inj hpiece)
    refine ⟨?_, hnothing⟩
    rintro _ hp
    rwa [← Option.some.inj hp]

section Settles

variable (hcode : allBlank (stripFrom (regionAbove source number row) (trim l)) = false)
include hcode

/-- A line with code that is taken over whole leaves nothing to be collected. -/
theorem settles_iff_of_whole {text : List Char} {b' : Bool}
    (h : pieceOfLine? b l = some (some ⟨0, text⟩, b')) :
    Settles source number row l b ↔ text = [] ∧ CollectsNothing source number row b' := by
  rw [settles_iff_of_piece h, codeFrom_zero, hcode]
  simp

/-- **A line with code in a walk that seeks no beginning**: it has to end the walk, or to be no more than the
    mark that closes a block comment. -/
theorem settles_false_iff :
    Settles source number row l false ↔
      (¬ "//".toList <+: trim l ∧ ¬ "*)".toList <:+ trim l) ∨
        (trim l = "*)".toList ∧ CollectsNothing source number row true) := by
  have hr := nextLine_regionAbove source number row
  have hne : trim l ≠ [] := by
    intro hnil
    rw [hnil, allBlank_of_sublist (stripFrom_sublist _ []) rfl] at hcode
    cases hcode
  rcases pieceOfLine?_false hne with ⟨text, ht, hpiece⟩ | ⟨text, ht, hpiece⟩ | ⟨text, ht, hnot, hpiece⟩ |
    ⟨hline, hblock, hpiece⟩
  · -- a comment to the end of the line, with code in it: the line starts in a block comment
    rw [settles_iff_of_whole hcode hpiece, ht]
    refine iff_of_false ?_ (by simp)
    rintro ⟨hblank, -⟩
    rw [ht, allBlank_stripFrom_lineComment hr (allBlank_iff.mpr (trim_eq_nil_iff.mp hblank))] at hcode
    cases hcode
  · -- a mark at each end, with code between them
    rw [settles_iff_of_whole hcode hpiece, ht]
    refine iff_of_false ?_ ?_
    · rintro ⟨hblank, -⟩
      rw [ht, allBlank_stripFrom_blockComment hr (allBlank_iff.mpr (trim_eq_nil_iff.mp hblank))] at hcode
      cases hcode
    · rintro (⟨-, hend⟩ | ⟨hclose, -⟩)
      · exact hend ⟨"(*".toList ++ text, by rw [List.append_assoc]⟩
      · exact absurd (List.cons.inj hclose).1 (by decide)
  · rw [settles_iff_of_whole hcode hpiece, ht]
    have hclose : trim text = [] ↔ text ++ "*)".toList = "*)".toList := by
      rw [List.append_left_eq_self]
      refine ⟨fun hblank => ?_, fun hnil => by rw [hnil]; rfl⟩
      cases text with
      | nil => rfl
      | cons c text =>
          have hhead : trimStart (trim l) = c :: (text ++ "*)".toList) := by rw [trimStart_trim, ht]; rfl
          have hc := trim_eq_nil_iff.mp hblank c (List.mem_cons_self ..)
          rw [isBlank_head_trimStart hhead] at hc
          cases hc
    rw [hclose, or_iff_right fun h => h.2 (List.suffix_append ..)]
  · refine iff_of_true ?_ (Or.inl ⟨hline, hblock⟩)
    intro p? b' h
    rw [hpiece] at h
    cases h

/-- **A line with code where the beginning of a block comment is sought** has to hold an opening mark with no
    code behind it. -/
theorem settles_true_iff :
    Settles source number row l true ↔
      ∃ i, find? "(*".toList (trim l) = some i ∧
        (trim ((trim l).drop (i + 2)) = [] ∨
          allBlank (codeFrom (regionAbove source number row) (trim l) i) = true) ∧
        CollectsNothing source number row false := by
  rcases pieceOfLine?_true l with ⟨i, hi, hpiece⟩ | ⟨hnone, hpiece⟩
  · rw [settles_iff_of_piece hpiece, hi]
    simp only [Option.some.injEq, exists_eq_left', ne_eq, Classical.or_iff_not_imp_left]
  · rw [settles_iff_of_whole hcode hpiece]
    refine iff_of_false ?_ ?_
    · rintro ⟨hblank, -⟩
      rw [hblank, allBlank_of_sublist (stripFrom_sublist _ []) rfl] at hcode
      cases hcode
    · rintro ⟨i, hi, -⟩
      rw [hnone] at hi
      cases hi

end Settles

/-- Nothing is collected above a line if it has no description of its own. -/
theorem collectsNothing_false_iff (h : row < (linesAbove source number).length) :
    CollectsNothing source number row false ↔ descriptionAbove? source (row + 1) = none := by
  have hlines : (linesAbove source number).take row
      = (lines (normalizeLineEndings source)).take (row + 1 - 1) := by
    rw [linesAbove, List.length_take] at h
    rw [linesAbove, List.take_take, Nat.add_sub_cancel, Nat.min_eq_left (by omega)]
  have hnothing : CollectsNothing source number row false ↔
      (commentsUpward false ((linesAbove source number).take row).reverse).reverse.filter (!·.isEmpty)
        = [] := by
    simp [CollectsNothing, List.filter_eq_nil_iff]
  rw [hnothing, hlines, descriptionAbove?]
  split
  · next hnil => exact iff_of_true hnil rfl
  · next hne => exact iff_of_false hne (Option.some_ne_none _)

/-! ## The description -/

/-- **What a description is drawn from.** Without code above, from comments only. Else it depends on the last
    line with code and on how the walk comes to it. If the walk has ended below, the description is drawn from
    comments. If it comes there and seeks no beginning of a block comment, the line must neither begin with
    `//` nor end with `*)`, unless it is no more than the closing mark and nothing is collected above. If
    it seeks a beginning there, the line must hold an opening mark, with no code from there on, and it must
    have no description of its own. -/
theorem descriptionAbove?_drawn (source : List Char) (number : Nat) :
    (descriptionAbove? source number =
      match ((piecesAbove source number).map fun q => q.2.text).filter (!·.isEmpty) with
      | [] => none
      | ls => some (unlines ls)) ∧
    ((∀ c ∈ codeAbove source number, allBlank c = true) → DrawnFromComments source number) ∧
    ∀ row l, IsLastCode source number row → (linesAbove source number)[row]? = some l →
      (DrawnFromComments source number ↔
        match arrival false ((linesAbove source number).drop (row + 1)).reverse with
        | none => True
        | some false => (¬ "//".toList <+: trim l ∧ ¬ "*)".toList <:+ trim l) ∨
            (trim l = "*)".toList ∧ CollectsNothing source number row true)
        | some true => ∃ i, find? "(*".toList (trim l) = some i ∧
            (trim ((trim l).drop (i + 2)) = [] ∨
              allBlank (codeFrom (regionAbove source number row) (trim l) i) = true) ∧
            descriptionAbove? source (row + 1) = none) := by
  refine ⟨descriptionAbove?_eq source number, ?_, ?_⟩
  · exact fun hblank q hq _ => isDrawn_of_blank hq fun c hc => hblank c (List.mem_of_mem_drop hc)
  · intro row l hlast hl
    have hcode : allBlank (stripFrom (regionAbove source number row) (trim l)) = false := by
      obtain ⟨⟨c, hc, hcode⟩, -⟩ := hlast
      rw [getElem?_codeAbove, hl] at hc
      rw [allBlank_stripFrom_trim (nextLine_regionAbove ..), Option.some.inj hc, hcode]
    rw [drawnFromComments_iff_settles hlast hl]
    cases arrival false ((linesAbove source number).drop (row + 1)).reverse with
    | none => simp
    | some b =>
        cases b with
        | false => simp [settles_false_iff hcode]
        | true =>
            have hrow := (List.getElem?_eq_some_iff.mp hl).1
            simp [settles_true_iff hcode, collectsNothing_false_iff hrow]

instance (source : List Char) (number : Nat) (q : Nat × Piece) : Decidable (IsDrawn source number q) :=
  inferInstanceAs (Decidable (_ ∧ _))

instance (source : List Char) (number : Nat) : Decidable (DrawnFromComments source number) :=
  inferInstanceAs (Decidable (∀ q ∈ piecesAbove source number, _ → _))

/-- A block comment that begins behind code. -/
def commentBehindCode : List Char := "x := 1; (* start\nrest *)\nPROGRAM A".toList

/-- The walk seeks the beginning of the comment on the line with code, takes over what stands behind the mark
    there, and finds nothing above. -/
theorem descriptionAbove?_drawn_commentBehindCode :
    DrawnFromComments commentBehindCode 3 ∧
      descriptionAbove? commentBehindCode 3 = some "start\nrest".toList := by
  refine ⟨?_, by decide +kernel⟩
  have hlast : IsLastCode commentBehindCode 3 0 := ⟨⟨_, rfl, by decide +kernel⟩, by decide +kernel⟩
  have harrival : arrival false ((linesAbove commentBehindCode 3).drop 1).reverse = some true := by
    decide +kernel
  rw [(descriptionAbove?_drawn commentBehindCode 3).2.2 0 "x := 1; (* start".toList hlast
    (by decide +kernel), harrival]
  exact ⟨8, by decide +kernel, Or.inr (by decide +kernel), by decide +kernel⟩

/-- A line of code that ends with a block comment. -/
def commentEndsLine : List Char := "x := 1; (* note *)\nPROGRAM A".toList

/-- The same comment behind code, with a comment above the code. -/
def commentAboveCode : List Char := "// above\nx := 1; (* start\nrest *)\nPROGRAM A".toList

/-- Code between two comments. -/
def codeBetweenComments : List Char := "(* a *) x := 1; (* b *)\nPROGRAM A".toList

/-- **Code in descriptions, and comments from above it**: three lines of code that do not end the walk. -/
theorem exists_code_in_description :
    (¬ DrawnFromComments commentEndsLine 2 ∧
      descriptionAbove? commentEndsLine 2 = some "x := 1; (* note".toList) ∧
    (¬ DrawnFromComments commentAboveCode 4 ∧
      descriptionAbove? commentAboveCode 4 = some "above\nstart\nrest".toList) ∧
    ¬ DrawnFromComments codeBetweenComments 2 ∧
      descriptionAbove? codeBetweenComments 2 = some "a *) x := 1; (* b".toList := by
  refine ⟨⟨?_, ?_⟩, ⟨?_, ?_⟩, ?_, ?_⟩
  all_goals decide +kernel

end StLint.Source

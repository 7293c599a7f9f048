import Mathlib.Data.List.Forall2
import StLint.Pou.Segment
import StLint.Proofs.Source.Declaration

/-!
# The segments of a file

A file is cut in one walk over its lines of code, which remembers the kind of the unit that is open.
Every segment belongs to **one declaration that the walk recognised**, and the walk starts afresh
after each line that closes a unit.

* `openAfterLine`, `opened?` — one step of the walk: what is open after it, and what it opened.
* `segmentsFrom_append_closed` — a line that closes a unit is a seam of the walk.
* `segmentsFrom_add` — the segments of lines that stand further down.
* `forall₂_opens` — the segments are those of the recognised declarations, in order.
-/

namespace StLint

open Text Source

/-! ## The walk -/

/-- The declaration that a line opens a unit with, where `open?` is the kind of the unit that is
    open. A line that closes a unit opens none. -/
def opened? (open? : Option UnitKind) (code : List Char) : Option Declaration :=
  match open? with
  | none => Declaration.ofLine? code
  | some kind =>
    if startsWithKeyword kind.endKeyword code then none else Declaration.ofLine? code

/-- The kind of the unit that is open after a line. -/
def openAfterLine (open? : Option UnitKind) (code : List Char) : Option UnitKind :=
  match open? with
  | none => (Declaration.ofLine? code).map (·.kind)
  | some kind =>
    if startsWithKeyword kind.endKeyword code then none
    else some (((Declaration.ofLine? code).map (·.kind)).getD kind)

/-- The kind of the unit that is open after some lines of code. -/
def openAfter (open? : Option UnitKind) (codes : List (List Char)) : Option UnitKind :=
  codes.foldl openAfterLine open?

/-- The declarations that open a unit on some lines of code, in order. -/
def openersFrom (open? : Option UnitKind) : List (List Char) → List Declaration
  | [] => []
  | code :: codes => (opened? open? code).toList ++ openersFrom (openAfterLine open? code) codes

/-- The declarations that open the units of a source. -/
def openers (source : List Char) : List Declaration :=
  openersFrom none (lines (stripComments source))

/-! ## The steps of the cut -/

section Steps

variable {index start : Nat} {kind : UnitKind} {collected : List (List Char)}
  {code raw : List Char} {rest : List (List Char × List Char)}

theorem segmentsFrom_outside :
    segmentsFrom index start none collected ((code, raw) :: rest)
      = segmentsFrom (index + 1) start ((Declaration.ofLine? code).map (·.kind)) (raw :: collected)
          rest := by
  rw [segmentsFrom]

/-- A line that closes the unit is the last of its segment. -/
theorem segmentsFrom_end (h : startsWithKeyword kind.endKeyword code = true) :
    segmentsFrom index start (some kind) collected ((code, raw) :: rest)
      = .ofLines start (raw :: collected) :: segmentsFrom (index + 1) (index + 1) none [] rest := by
  rw [segmentsFrom, if_pos h]

/-- A declaration inside a unit is the first line of the next segment. -/
theorem segmentsFrom_next {next : Declaration} (h : ¬ startsWithKeyword kind.endKeyword code = true)
    (hd : Declaration.ofLine? code = some next) :
    segmentsFrom index start (some kind) collected ((code, raw) :: rest)
      = .ofLines start collected :: segmentsFrom (index + 1) index (some next.kind) [raw] rest := by
  rw [segmentsFrom, if_neg h, hd]

theorem segmentsFrom_inside (h : ¬ startsWithKeyword kind.endKeyword code = true)
    (hd : Declaration.ofLine? code = none) :
    segmentsFrom index start (some kind) collected ((code, raw) :: rest)
      = segmentsFrom (index + 1) start (some kind) (raw :: collected) rest := by
  rw [segmentsFrom, if_neg h, hd]

end Steps

/-! ## Seams -/

/-- A segment, moved down by `n` lines. -/
def UnitSegment.shift (n : Nat) (s : UnitSegment) : UnitSegment :=
  { s with lineOffset := s.lineOffset + n }

/-- Lines that stand further down have the same segments, moved down. -/
theorem segmentsFrom_add (n index start : Nat) (open? : Option UnitKind)
    (collected : List (List Char)) (ls : List (List Char × List Char)) :
    segmentsFrom (index + n) (start + n) open? collected ls
      = (segmentsFrom index start open? collected ls).map (UnitSegment.shift n) := by
  induction ls generalizing index start open? collected with
  | nil =>
      rw [segmentsFrom, segmentsFrom]
      cases open? <;> rfl
  | cons l ls ih =>
      obtain ⟨code, raw⟩ := l
      have hindex : index + n + 1 = index + 1 + n := Nat.add_right_comm ..
      cases open? with
      | none => rw [segmentsFrom_outside, segmentsFrom_outside, hindex, ih]
      | some kind =>
          by_cases hend : startsWithKeyword kind.endKeyword code = true
          · rw [segmentsFrom_end hend, segmentsFrom_end hend, hindex, ih]
            rfl
          · cases hd : Declaration.ofLine? code with
            | some next =>
                rw [segmentsFrom_next hend hd, segmentsFrom_next hend hd, hindex, ih]
                rfl
            | none => rw [segmentsFrom_inside hend hd, segmentsFrom_inside hend hd, hindex, ih]

/-- **A line that closes a unit is a seam**: what follows it is cut as if it began there, by
    induction on the lines before it. -/
theorem segmentsFrom_append_closed {before : List (List Char × List Char)} {code raw : List Char}
    {kind : UnitKind} {open? : Option UnitKind}
    (hopen : openAfter open? (before.map Prod.fst) = some kind)
    (hend : startsWithKeyword kind.endKeyword code = true) (index start : Nat)
    (collected : List (List Char)) (ls : List (List Char × List Char)) :
    segmentsFrom index start open? collected (before ++ (code, raw) :: ls)
      = segmentsFrom index start open? collected (before ++ [(code, raw)]) ++
          segmentsFrom (index + before.length + 1) (index + before.length + 1) none [] ls := by
  induction before generalizing index start open? collected with
  | nil =>
      obtain rfl : open? = some kind := hopen
      rw [List.nil_append, List.nil_append, segmentsFrom_end hend, segmentsFrom_end hend]
      rfl
  | cons l before ih =>
      obtain ⟨c, r⟩ := l
      have hlength : index + (before.length + 1) = index + 1 + before.length := by omega
      rw [List.map_cons, openAfter, List.foldl_cons] at hopen
      rw [List.cons_append, List.cons_append, List.length_cons, hlength]
      cases open? with
      | none =>
          rw [segmentsFrom_outside, segmentsFrom_outside]
          exact ih hopen ..
      | some k =>
          rw [openAfterLine] at hopen
          by_cases hc : startsWithKeyword k.endKeyword c = true
          · rw [if_pos hc] at hopen
            rw [segmentsFrom_end hc, segmentsFrom_end hc, List.cons_append]
            exact congrArg _ (ih hopen ..)
          · rw [if_neg hc] at hopen
            cases hd : Declaration.ofLine? c with
            | some next =>
                rw [hd] at hopen
                rw [segmentsFrom_next hc hd, segmentsFrom_next hc hd, List.cons_append]
                exact congrArg _ (ih hopen ..)
            | none =>
                rw [hd] at hopen
                rw [segmentsFrom_inside hc hd, segmentsFrom_inside hc hd]
                exact ih hopen ..

/-! ## The declaration of a segment -/

/-- A segment stands in the lines of a source, and its code there begins with a declaration. -/
structure UnitSegment.Opens (ls : List (List Char)) (s : UnitSegment) (d : Declaration) : Prop where
  stands : ∃ later, ls.take s.lineOffset ++ lines s.text ++ later = ls
  inside : s.lineOffset ≤ ls.length
  opens : (stripLines (Region.afterLines .code (ls.take s.lineOffset)) (lines s.text)).findSome?
    Declaration.ofLine? = some d

/-- A segment stands in normal lines, so it is normal. -/
theorem UnitSegment.Opens.normal {source : List Char} {s : UnitSegment} {d : Declaration}
    (h : s.Opens (lines (normalizeLineEndings source)) d) : normalizeLineEndings s.text = s.text := by
  refine normalizeLineEndings_eq_self ?_
  intro hcr
  obtain ⟨l, hl, hcl⟩ := exists_mem_splitOn hcr (show '\r' ≠ '\n' by decide)
  obtain ⟨later, hstands⟩ := h.stands
  have hl' : l ∈ lines (normalizeLineEndings source) := by
    rw [← hstands]
    exact List.mem_append_left _ (List.mem_append_right _ hl)
  exact cr_not_mem_normalizeLineEndings source (mem_and_ne_of_mem_splitOn hl' hcl).1

/-- A segment ends within the lines of the source. -/
theorem UnitSegment.Opens.length_le {ls : List (List Char)} {s : UnitSegment} {d : Declaration}
    (h : s.Opens ls d) : s.lineOffset + (lines s.text).length ≤ ls.length := by
  obtain ⟨later, hstands⟩ := h.stands
  have hlength := congrArg List.length hstands
  rw [List.length_append, List.length_append, List.length_take, Nat.min_eq_left h.inside] at hlength
  omega

/-- The lines since `start` make a segment, if their code begins with a declaration. -/
private theorem opens_ofLines {done later : List (List Char)} {start : Nat} {d : Declaration}
    (hstart : start ≤ done.length) (hdone : ∀ l ∈ done, '\n' ∉ l)
    (hd : (stripLines (Region.afterLines .code (done.take start)) (done.drop start)).findSome?
      Declaration.ofLine? = some d) :
    (UnitSegment.ofLines start (done.drop start).reverse).Opens (done ++ later) d := by
  have hne : done.drop start ≠ [] := by
    intro h
    rw [h] at hd
    exact nomatch hd
  have hlines : lines (UnitSegment.ofLines start (done.drop start).reverse).text = done.drop start := by
    rw [UnitSegment.ofLines, List.reverse_reverse]
    exact lines_unlines hne fun l hl => hdone l (List.mem_of_mem_drop hl)
  have htake : (done ++ later).take start = done.take start :=
    List.take_append_of_le_length hstart
  refine ⟨⟨later, ?_⟩, ?_, ?_⟩
  · rw [hlines]
    show (done ++ later).take start ++ done.drop start ++ later = done ++ later
    rw [htake, List.take_append_drop]
  · show start ≤ (done ++ later).length
    rw [List.length_append]
    omega
  · rw [hlines]
    show (stripLines (Region.afterLines .code ((done ++ later).take start)) _).findSome? _ = _
    rw [htake, hd]

/-- One more line joins the lines since `start`, and counts if none of them holds a declaration. -/
private theorem findSome?_concat {done : List (List Char)} {start : Nat} (l : List Char)
    (hstart : start ≤ done.length) :
    (stripLines (Region.afterLines .code ((done ++ [l]).take start)) ((done ++ [l]).drop start)).findSome?
        Declaration.ofLine?
      = ((stripLines (Region.afterLines .code (done.take start)) (done.drop start)).findSome?
          Declaration.ofLine?).or
          (Declaration.ofLine? (stripFrom (Region.afterLines .code done) l)) := by
  have hregion : (Region.afterLines .code (done.take start)).afterLines (done.drop start)
      = Region.afterLines .code done := by
    rw [← Region.afterLines_append, List.take_append_drop]
  rw [List.take_append_of_le_length hstart, List.drop_append_of_le_length hstart, stripLines_append,
    hregion, List.findSome?_append]
  congr 1
  rw [stripLines, stripLines, List.findSome?_singleton]

/-! ### The walk -/

/-- The walk goes right from a place in the middle. The lines `done` have been passed, `start` of them
    belong to earlier segments, and `pending` is the declaration of the segment that is open. -/
private def WalksFrom (done rest : List (List Char)) (start : Nat)
    (pending : Option Declaration) : Prop :=
  List.Forall₂ (UnitSegment.Opens (done ++ rest))
    (segmentsFrom done.length start (pending.map (·.kind)) (done.drop start).reverse
      ((stripLines (Region.afterLines .code done) rest).zip rest))
    (pending.toList ++
      openersFrom (pending.map (·.kind)) (stripLines (Region.afterLines .code done) rest))

section

variable {done rest : List (List Char)} {l : List Char} {start : Nat} {d : Declaration}

private theorem stripLines_next :
    stripLines (Region.afterLines .code done) (l :: rest)
      = stripFrom (Region.afterLines .code done) l ::
          stripLines (Region.afterLines .code (done ++ [l])) rest := by
  rw [stripLines, Region.afterLines_append]
  rfl

private theorem length_concat : (done ++ [l]).length = done.length + 1 := List.length_append

/-- A line that has been read is the last of the lines since `start`. -/
theorem reverse_drop_concat (hstart : start ≤ done.length) :
    ((done ++ [l]).drop start).reverse = l :: (done.drop start).reverse := by
  rw [List.drop_append_of_le_length hstart, List.reverse_append]
  rfl

/-- Outside the units a line opens a segment, or it does not count. -/
private theorem WalksFrom.outside (hstart : start ≤ done.length)
    (h : WalksFrom (done ++ [l]) rest start
      (Declaration.ofLine? (stripFrom (Region.afterLines .code done) l))) :
    WalksFrom done (l :: rest) start none := by
  rw [WalksFrom, stripLines_next, List.zip_cons_cons, openersFrom, List.append_cons]
  rw [WalksFrom, length_concat, reverse_drop_concat hstart] at h
  show List.Forall₂ _ (segmentsFrom _ start none _ _) _
  rw [segmentsFrom_outside]
  exact h

/-- A line inside a unit joins its segment. -/
private theorem WalksFrom.inside (hstart : start ≤ done.length)
    (hend : ¬ startsWithKeyword d.kind.endKeyword (stripFrom (Region.afterLines .code done) l) = true)
    (hd : Declaration.ofLine? (stripFrom (Region.afterLines .code done) l) = none)
    (h : WalksFrom (done ++ [l]) rest start (some d)) : WalksFrom done (l :: rest) start (some d) := by
  rw [WalksFrom, stripLines_next, List.zip_cons_cons, openersFrom, List.append_cons]
  rw [WalksFrom, length_concat, reverse_drop_concat hstart] at h
  show List.Forall₂ _ (segmentsFrom _ start (some d.kind) _ _)
    (d :: ((opened? (some d.kind) _).toList ++ openersFrom (openAfterLine (some d.kind) _) _))
  rw [segmentsFrom_inside hend hd, opened?, if_neg hend, hd, openAfterLine, if_neg hend, hd]
  exact h

/-- The line that closes a unit is the last one of its segment. -/
private theorem WalksFrom.closes (hstart : start ≤ done.length)
    (hend : startsWithKeyword d.kind.endKeyword (stripFrom (Region.afterLines .code done) l) = true)
    (hseg : (UnitSegment.ofLines start ((done ++ [l]).drop start).reverse).Opens (done ++ [l] ++ rest) d)
    (h : WalksFrom (done ++ [l]) rest (done ++ [l]).length none) :
    WalksFrom done (l :: rest) start (some d) := by
  rw [WalksFrom, stripLines_next, List.zip_cons_cons, openersFrom, List.append_cons]
  rw [WalksFrom, List.drop_length, length_concat] at h
  rw [reverse_drop_concat hstart] at hseg
  show List.Forall₂ _ (segmentsFrom _ start (some d.kind) _ _)
    (d :: ((opened? (some d.kind) _).toList ++ openersFrom (openAfterLine (some d.kind) _) _))
  rw [segmentsFrom_end hend, opened?, if_pos hend, openAfterLine, if_pos hend]
  exact List.Forall₂.cons hseg h

/-- The line that declares the next unit is the first one of the next segment. -/
private theorem WalksFrom.opens {next : Declaration}
    (hend : ¬ startsWithKeyword d.kind.endKeyword (stripFrom (Region.afterLines .code done) l) = true)
    (hd : Declaration.ofLine? (stripFrom (Region.afterLines .code done) l) = some next)
    (hseg : (UnitSegment.ofLines start (done.drop start).reverse).Opens (done ++ l :: rest) d)
    (h : WalksFrom (done ++ [l]) rest done.length (some next)) :
    WalksFrom done (l :: rest) start (some d) := by
  rw [List.append_cons] at hseg
  rw [WalksFrom, stripLines_next, List.zip_cons_cons, openersFrom, List.append_cons]
  rw [WalksFrom, List.drop_left, length_concat] at h
  show List.Forall₂ _ (segmentsFrom _ start (some d.kind) _ _)
    (d :: ((opened? (some d.kind) _).toList ++ openersFrom (openAfterLine (some d.kind) _) _))
  rw [segmentsFrom_next hend hd, opened?, if_neg hend, hd, openAfterLine, if_neg hend, hd]
  exact List.Forall₂.cons hseg h

end

/-- **The walk from a place in the middle**: what is pending is the first declaration among the lines
    since `start`. -/
private theorem walksFrom (done rest : List (List Char)) {start : Nat}
    {pending : Option Declaration} (hstart : start ≤ done.length)
    (hls : ∀ l ∈ done ++ rest, '\n' ∉ l)
    (hpending : (stripLines (Region.afterLines .code (done.take start)) (done.drop start)).findSome?
      Declaration.ofLine? = pending) : WalksFrom done rest start pending := by
  -- on the lines ahead; the lines behind grow by one at each step
  induction rest generalizing done start pending with
  | nil =>
      cases pending with
      | none => exact List.Forall₂.nil
      | some d =>
          refine List.Forall₂.cons (opens_ofLines hstart ?_ hpending) List.Forall₂.nil
          intro l hl
          exact hls l (List.mem_append_left _ hl)
  | cons l rest ih =>
      have hdone : ∀ m ∈ done, '\n' ∉ m := fun m hm => hls m (List.mem_append_left _ hm)
      have hconcat := @findSome?_concat done start l hstart
      have hle : start ≤ (done ++ [l]).length := by
        rw [length_concat]
        omega
      rw [List.append_cons] at hls
      rw [hpending] at hconcat
      cases pending with
      | none => exact WalksFrom.outside hstart (ih (done ++ [l]) hle hls hconcat)
      | some d =>
          by_cases hend : startsWithKeyword d.kind.endKeyword
              (stripFrom (Region.afterLines .code done) l) = true
          · have hseg := @opens_ofLines (done ++ [l]) rest start d hle
              (fun m hm => hls m (List.mem_append_left _ hm)) hconcat
            refine WalksFrom.closes hstart hend hseg (ih (done ++ [l]) (Nat.le_refl _) hls ?_)
            rw [List.drop_length]
            rfl
          · cases hd : Declaration.ofLine? (stripFrom (Region.afterLines .code done) l) with
            | some next =>
                have hseg := @opens_ofLines done (l :: rest) start d hstart hdone hpending
                have hlast : done.length ≤ (done ++ [l]).length := by
                  rw [length_concat]
                  omega
                refine WalksFrom.opens hend hd hseg (ih (done ++ [l]) hlast hls ?_)
                rw [findSome?_concat l (Nat.le_refl _), List.drop_length]
                exact hd
            | none => exact WalksFrom.inside hstart hend hd (ih (done ++ [l]) hle hls hconcat)

/-- **The segments of a source are those of the declarations that the walk recognised**, in
    order. -/
theorem forall₂_opens (source : List Char) :
    List.Forall₂ (UnitSegment.Opens (lines (normalizeLineEndings source))) (splitUnits source)
      (openers source) := by
  have h := @walksFrom [] (lines (normalizeLineEndings source)) 0 none (Nat.le_refl _)
    (fun l hl => newline_not_mem_of_mem_lines hl) rfl
  rw [splitUnits, openers, lines_stripComments, lines_stripComments, normalizeLineEndings_idem]
  exact h

/-- A walk that recognises nothing has met no declaration. -/
theorem openersFrom_none_eq_nil_iff {codes : List (List Char)} :
    openersFrom none codes = [] ↔ ∀ code ∈ codes, Declaration.ofLine? code = none := by
  induction codes with
  | nil => simp [openersFrom]
  | cons code codes ih =>
      rw [openersFrom, List.append_eq_nil_iff, List.forall_mem_cons, opened?, Option.toList_eq_nil_iff]
      refine and_congr_right ?_
      intro hcode
      rw [openAfterLine, hcode]
      exact ih

/-- **A file has a unit** exactly when one of its lines of code declares one. -/
theorem splitUnits_ne_nil_iff (source : List Char) :
    splitUnits source ≠ []
      ↔ ∃ code ∈ lines (stripComments source), (Declaration.ofLine? code).isSome = true := by
  have hlength := (forall₂_opens source).length_eq
  have hnil : splitUnits source = [] ↔ openers source = [] := by
    rw [← List.length_eq_zero_iff, hlength, List.length_eq_zero_iff]
  rw [Ne, hnil, openers, openersFrom_none_eq_nil_iff]
  simp only [Option.isSome_iff_ne_none, not_forall, exists_prop]

end StLint

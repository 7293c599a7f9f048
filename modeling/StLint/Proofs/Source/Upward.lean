import StLint.Proofs.Source.Declaration
import StLint.Proofs.Text.Occurrence

/-!
# The way up from a declaration

A description is collected on the way up from a declaration, line by line. A line ends the walk, or something
of it is taken over; and it may be the last one of a block comment, whose beginning is then sought above.
**The walk looks at marks at the ends of a line only**, and never at what stands between them.

* `Piece`, `pieceOfLine?` — what is taken over of one line.
* `piecesUpward`, `descriptionAbove?_eq` — what is taken over on the whole way, and the description.
* `arrival` — whether the walk comes to the end of some lines, and whether it is in a block comment there.
* `mem_piecesUpward_append_iff` — what is taken over above some lines.
-/

namespace StLint.Source

open Text

/-- A text that is taken over of a line, without the marks of comments: the column of the trimmed line from
    which on it is taken. A line that is taken over whole is taken from column 0 on, marks included. -/
structure Piece where
  column : Nat
  text : List Char
  deriving DecidableEq, Repr

/-- **One line on the way up**: nothing if the walk ends there, else what is taken over of the line, if it is
    not blank, and whether the beginning of a block comment is sought above. -/
def pieceOfLine? (inBlock : Bool) (l : List Char) : Option (Option Piece × Bool) :=
  let t := trim l
  if inBlock then
    match find? "(*".toList t with
    | some i => some (some ⟨i, trim (t.drop (i + 2))⟩, false)
    | none => some (some ⟨0, t⟩, true)
  else if t.isEmpty then some (none, false)
  else match dropPrefix? "//".toList t with
    | some text => some (some ⟨0, trim text⟩, false)
    | none => match (dropPrefix? "(*".toList t).bind (dropSuffix? "*)".toList) with
      | some text => some (some ⟨0, trim text⟩, false)
      | none => (dropSuffix? "*)".toList t).map fun text => (some ⟨0, trim text⟩, true)

/-- What is taken over on the way up, from lines of which the nearest comes first. Each piece has the number
    of lines above its own. -/
def piecesUpward (inBlock : Bool) : List (List Char) → List (Nat × Piece)
  | [] => []
  | l :: above =>
    match pieceOfLine? inBlock l with
    | none => []
    | some (p, b) => (p.map fun p => (above.length, p)).toList ++ piecesUpward b above

/-- Whether the walk comes to the end of some lines, and whether it then seeks the beginning of a block
    comment. -/
def arrival (inBlock : Bool) : List (List Char) → Option Bool
  | [] => some inBlock
  | l :: above => (pieceOfLine? inBlock l).bind fun step => arrival step.2 above

variable {b b' : Bool} {l : List Char} {ls xs ys : List (List Char)} {p : Piece} {q : Nat × Piece}

/-- **The texts are those that are collected.** -/
theorem map_text_piecesUpward (b : Bool) (ls : List (List Char)) :
    (piecesUpward b ls).map (fun q => q.2.text) = commentsUpward b ls := by
  induction ls generalizing b with
  | nil => rfl
  | cons l above ih =>
      rw [piecesUpward, commentsUpward, pieceOfLine?]
      cases b with
      | true =>
          simp only [if_pos]
          cases find? "(*".toList (trim l) with
          | some i => exact congrArg (List.cons _) (ih false)
          | none => exact congrArg (List.cons _) (ih true)
      | false =>
          simp only [Bool.false_eq_true, if_false]
          by_cases ht : (trim l).isEmpty = true
          · rw [if_pos ht, if_pos ht]
            exact ih false
          · rw [if_neg ht, if_neg ht]
            cases dropPrefix? "//".toList (trim l) with
            | some text => exact congrArg (List.cons _) (ih false)
            | none =>
                dsimp only
                cases (dropPrefix? "(*".toList (trim l)).bind (dropSuffix? "*)".toList) with
                | some text => exact congrArg (List.cons _) (ih false)
                | none =>
                    dsimp only
                    cases dropSuffix? "*)".toList (trim l) with
                    | some text => exact congrArg (List.cons _) (ih true)
                    | none => rfl

/-- The lines above the line with a number. -/
def linesAbove (source : List Char) (number : Nat) : List (List Char) :=
  (lines (normalizeLineEndings source)).take (number - 1)

/-- What is taken over for the description of the line with a number, in the order of the source. -/
def piecesAbove (source : List Char) (number : Nat) : List (Nat × Piece) :=
  (piecesUpward false (linesAbove source number).reverse).reverse

/-- **The description is made of what is taken over**: of the texts that are not empty. -/
theorem descriptionAbove?_eq (source : List Char) (number : Nat) :
    descriptionAbove? source number =
      match ((piecesAbove source number).map fun q => q.2.text).filter (!·.isEmpty) with
      | [] => none
      | ls => some (unlines ls) := by
  rw [piecesAbove, List.map_reverse, map_text_piecesUpward]
  rfl

/-! ## One line -/

theorem dropPrefix?_eq_some_iff {phrase s r : List Char} :
    dropPrefix? phrase s = some r ↔ s = phrase ++ r := by
  rw [dropPrefix?]
  constructor
  · intro h
    split at h
    · next hp =>
        obtain ⟨t, rfl⟩ := List.isPrefixOf_iff_prefix.mp hp
        rw [List.drop_left] at h
        rw [Option.some.inj h]
    · cases h
  · rintro rfl
    rw [if_pos (List.isPrefixOf_iff_prefix.mpr (List.prefix_append ..)), List.drop_left]

theorem dropSuffix?_eq_some_iff {phrase s r : List Char} :
    dropSuffix? phrase s = some r ↔ s = r ++ phrase := by
  rw [dropSuffix?]
  constructor
  · intro h
    split at h
    · next hp =>
        obtain ⟨t, rfl⟩ := List.isSuffixOf_iff_suffix.mp hp
        rw [List.length_append, Nat.add_sub_cancel, List.take_left] at h
        rw [Option.some.inj h]
    · cases h
  · rintro rfl
    rw [if_pos (List.isSuffixOf_iff_suffix.mpr (List.suffix_append ..)), List.length_append,
      Nat.add_sub_cancel, List.take_left]

/-- In a block comment a line is taken over from its first opening mark on, or whole. -/
theorem pieceOfLine?_true (l : List Char) :
    (∃ i, find? "(*".toList (trim l) = some i ∧
      pieceOfLine? true l = some (some ⟨i, trim ((trim l).drop (i + 2))⟩, false)) ∨
    (find? "(*".toList (trim l) = none ∧ pieceOfLine? true l = some (some ⟨0, trim l⟩, true)) := by
  rw [pieceOfLine?]
  cases find? "(*".toList (trim l) with
  | some i => exact Or.inl ⟨i, rfl, rfl⟩
  | none => exact Or.inr ⟨rfl, rfl⟩

theorem pieceOfLine?_false_of_blank (h : trim l = []) :
    pieceOfLine? false l = some (none, false) := by
  rw [pieceOfLine?, h]
  rfl

/-- **How a line is taken over outside a block comment**: behind `//`, between the marks of a block comment
    at both ends, or in front of the mark that closes one. A line without such marks ends the walk. -/
theorem pieceOfLine?_false (h : trim l ≠ []) :
    (∃ text, trim l = "//".toList ++ text ∧
      pieceOfLine? false l = some (some ⟨0, trim text⟩, false)) ∨
    (∃ text, trim l = "(*".toList ++ (text ++ "*)".toList) ∧
      pieceOfLine? false l = some (some ⟨0, trim text⟩, false)) ∨
    (∃ text, trim l = text ++ "*)".toList ∧ ¬ "//".toList <+: trim l ∧
      pieceOfLine? false l = some (some ⟨0, trim text⟩, true)) ∨
    (¬ "//".toList <+: trim l ∧ ¬ "*)".toList <:+ trim l ∧ pieceOfLine? false l = none) := by
  rw [pieceOfLine?, if_neg Bool.false_ne_true, if_neg (fun hempty => h (List.isEmpty_iff.mp hempty))]
  cases hline : dropPrefix? "//".toList (trim l) with
  | some text => exact Or.inl ⟨text, dropPrefix?_eq_some_iff.mp hline, rfl⟩
  | none =>
      right
      have hnot : ¬ "//".toList <+: trim l := by
        rintro ⟨text, htext⟩
        rw [dropPrefix?_eq_some_iff.mpr htext.symm] at hline
        cases hline
      cases hblock : (dropPrefix? "(*".toList (trim l)).bind (dropSuffix? "*)".toList) with
      | some text =>
          obtain ⟨rest, hrest, htext⟩ := Option.bind_eq_some_iff.mp hblock
          left
          refine ⟨text, ?_, rfl⟩
          rw [dropPrefix?_eq_some_iff.mp hrest, dropSuffix?_eq_some_iff.mp htext]
      | none =>
          right
          cases hend : dropSuffix? "*)".toList (trim l) with
          | some text => exact Or.inl ⟨text, dropSuffix?_eq_some_iff.mp hend, hnot, rfl⟩
          | none =>
              refine Or.inr ⟨hnot, ?_, rfl⟩
              rintro ⟨text, htext⟩
              rw [dropSuffix?_eq_some_iff.mpr htext.symm] at hend
              cases hend

/-- A piece is taken from the beginning of its line or from an opening mark. -/
theorem column_of_pieceOfLine? (h : pieceOfLine? b l = some (some p, b')) :
    p.column = 0 ∨ find? "(*".toList (trim l) = some p.column := by
  have hwhole : ∀ {text : List Char} {c : Bool}, pieceOfLine? b l = some (some ⟨0, text⟩, c) →
      p.column = 0 ∨ find? "(*".toList (trim l) = some p.column := by
    intro text c hpiece
    rw [hpiece] at h
    obtain rfl := Option.some.inj (Prod.mk.inj (Option.some.inj h)).1
    exact Or.inl rfl
  cases b with
  | true =>
      rcases pieceOfLine?_true l with ⟨i, hi, hpiece⟩ | ⟨-, hpiece⟩
      · rw [hpiece] at h
        obtain rfl := Option.some.inj (Prod.mk.inj (Option.some.inj h)).1
        exact Or.inr hi
      · exact hwhole hpiece
  | false =>
      by_cases hblank : trim l = []
      · rw [pieceOfLine?_false_of_blank hblank] at h
        cases (Prod.mk.inj (Option.some.inj h)).1
      · rcases pieceOfLine?_false hblank with ⟨_, -, hpiece⟩ | ⟨_, -, hpiece⟩ | ⟨_, -, -, hpiece⟩ |
          ⟨-, -, hpiece⟩
        · exact hwhole hpiece
        · exact hwhole hpiece
        · exact hwhole hpiece
        · rw [hpiece] at h
          cases h

/-! ## Several lines -/

theorem mem_piecesUpward_cons_iff :
    q ∈ piecesUpward b (l :: ls) ↔ ∃ p? b', pieceOfLine? b l = some (p?, b') ∧
      (p?.map (fun p => (ls.length, p)) = some q ∨ q ∈ piecesUpward b' ls) := by
  rw [piecesUpward]
  cases pieceOfLine? b l with
  | none => simp
  | some step =>
      obtain ⟨p?, c⟩ := step
      dsimp only
      rw [List.mem_append, Option.mem_toList]
      constructor
      · exact fun h => ⟨p?, c, rfl, h⟩
      · rintro ⟨_, _, hstep, h⟩
        obtain ⟨rfl, rfl⟩ := Prod.mk.inj (Option.some.inj hstep)
        exact h

/-- **A piece has its line**: the number of lines above is the index of the line in the source. -/
theorem exists_line_of_mem_piecesUpward (h : q ∈ piecesUpward b ls) : ∃ l, ls.reverse[q.1]? = some l ∧
    (q.2.column = 0 ∨ find? "(*".toList (trim l) = some q.2.column) := by
  induction ls generalizing b with
  | nil => cases h
  | cons l above ih =>
      obtain ⟨p?, b', hpiece, hq | hq⟩ := mem_piecesUpward_cons_iff.mp h
      · obtain ⟨p, rfl, rfl⟩ := Option.map_eq_some_iff.mp hq
        exact ⟨l, by simp, column_of_pieceOfLine? hpiece⟩
      · obtain ⟨m, hm, hcolumn⟩ := ih hq
        refine ⟨m, ?_, hcolumn⟩
        rw [List.reverse_cons, List.getElem?_append_left (List.getElem?_eq_some_iff.mp hm).1, hm]

theorem row_lt_of_mem_piecesUpward (h : q ∈ piecesUpward b ls) : q.1 < ls.length := by
  obtain ⟨l, hl, -⟩ := exists_line_of_mem_piecesUpward h
  have hlt : q.1 < ls.reverse.length := (List.getElem?_eq_some_iff.mp hl).1
  rwa [List.length_reverse] at hlt

/-- **What is taken over above some lines** is what the walk takes over once it has come to their end. -/
theorem mem_piecesUpward_append_iff (hrow : q.1 < ys.length) :
    q ∈ piecesUpward b (xs ++ ys) ↔ ∃ b', arrival b xs = some b' ∧ q ∈ piecesUpward b' ys := by
  induction xs generalizing b with
  | nil => simp [arrival]
  | cons l xs ih =>
      rw [List.cons_append, mem_piecesUpward_cons_iff, arrival]
      constructor
      · rintro ⟨p?, b', hpiece, hq | hq⟩
        · obtain ⟨p, -, rfl⟩ := Option.map_eq_some_iff.mp hq
          rw [List.length_append] at hrow
          omega
        · rw [hpiece]
          exact ih.mp hq
      · rintro ⟨b', harrival, hq⟩
        obtain ⟨⟨p?, b''⟩, hpiece, harrival⟩ := Option.bind_eq_some_iff.mp harrival
        exact ⟨p?, b'', hpiece, Or.inr (ih.mpr ⟨b', harrival, hq⟩)⟩

end StLint.Source

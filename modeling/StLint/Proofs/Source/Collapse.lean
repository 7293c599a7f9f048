import Mathlib.Data.List.Chain
import StLint.Proofs.Source.Span

/-!
# The lines that are kept

Everything that is reported of a source carries the number of a kept line, so the numbers are right only if
nothing else is left out than what has to be. **Left out is a blank line right below a blank line**, however
long the run is and whatever white space it is made of.

* `collapse_cons_eq_append` — one line in front of the others, with what it tells them.
* `mem_collapse_iff` — which lines are kept.
* `isChain_collapse` — two lines that come to stand next to each other are not both blank.
* `numbers_filter_collapse` — the lines that hold code are all kept, each once and in order.
* `IsCollapse` — what the lines of code of a text have to be, and `isCollapse_codeLines`, that they are.
-/

namespace StLint.Source

open Text

variable {previousBlank : Bool} {k : Nat} {ls : List (List Char)}

/-- Only a blank line has no text that is kept. -/
theorem trimEnd_eq_nil_iff_allBlank {l : List Char} : trimEnd l = [] ↔ allBlank l = true :=
  trimEnd_eq_nil_iff.trans allBlank_iff.symm

theorem trimEnd_ne_nil_of_not_allBlank {l : List Char} (h : allBlank l = false) : trimEnd l ≠ [] := by
  intro hnil
  rw [trimEnd_eq_nil_iff_allBlank, h] at hnil
  exact Bool.noConfusion hnil

/-- What is kept of a text does not end in white space. -/
theorem not_blank_getLast_trimEnd (l : List Char) : ∀ c ∈ (trimEnd l).getLast?, isBlank c = false := by
  intro c hc
  obtain ⟨r, hr⟩ := List.getLast?_eq_some_iff.mp hc
  rw [Bool.eq_false_iff]
  intro hblank
  -- white space at the end would go with another trim
  have hlast : ∀ d ∈ [c], isBlank d = true := by
    intro d hd
    rw [List.mem_singleton.mp hd]
    exact hblank
  have htwice := trimEnd_trimEnd l
  rw [hr, trimEnd_append_of_blank r hlast] at htwice
  have hshorter := length_trimEnd_le r
  rw [htwice, List.length_append, List.length_singleton] at hshorter
  omega

/-! ## One line after the other -/

/-- **A line is left out if it and the line above are blank**, and tells the next one whether it is blank. -/
theorem collapse_cons_eq_append (previousBlank : Bool) (k : Nat) (l : List Char) (ls : List (List Char)) :
    collapse previousBlank k (l :: ls)
      = (if allBlank l && previousBlank then [] else [⟨k, trimEnd l⟩]) ++
          collapse (allBlank l) (k + 1) ls := by
  rw [collapse_cons]
  cases hl : allBlank l with
  | true =>
      rw [if_pos (trimEnd_eq_nil_iff_allBlank.mpr hl), trimEnd_eq_nil_iff_allBlank.mpr hl, Bool.true_and]
  | false =>
      have hne : trimEnd l ≠ [] := trimEnd_ne_nil_of_not_allBlank hl
      rw [if_neg hne, Bool.false_and, if_neg Bool.false_ne_true]
      rfl

/-- The line at a place stands below a blank line, where `previousBlank` tells it of the first line. -/
def BelowBlank (previousBlank : Bool) (ls : List (List Char)) (i : Nat) : Prop :=
  (previousBlank :: ls.map allBlank)[i]? = some true

/-- **The lines that are kept** are those that are not blank or not below a blank line. -/
theorem mem_collapse_iff {c : CodeLine} :
    c ∈ collapse previousBlank k ls ↔ ∃ i l, ls[i]? = some l ∧ c = ⟨k + i, trimEnd l⟩ ∧
      ¬ (allBlank l = true ∧ BelowBlank previousBlank ls i) := by
  induction ls generalizing previousBlank k with
  | nil => simp [collapse]
  | cons l ls ih =>
      rw [collapse_cons_eq_append, List.mem_append, ih]
      refine Iff.trans (or_congr ?_ (exists_congr fun i => ?_)) Nat.or_exists_add_one
      · -- the first line
        have hkept : c ∈ (if (allBlank l && previousBlank) = true then [] else [⟨k, trimEnd l⟩])
            ↔ c = ⟨k, trimEnd l⟩ ∧ ¬ (allBlank l = true ∧ previousBlank = true) := by
          cases allBlank l <;> cases previousBlank <;> simp
        rw [hkept]
        simp [BelowBlank]
      · -- the lines below it, one place further down
        refine exists_congr fun m => and_congr Iff.rfl (and_congr ?_ Iff.rfl)
        rw [Nat.add_right_comm, Nat.add_assoc]

/-- **Two lines next to each other are not both blank**, also not the first one and a line `above` them all
    that `previousBlank` tells of. -/
theorem isChain_cons_collapse {above : CodeLine} (habove : above.text = [] → previousBlank = true) :
    (above :: collapse previousBlank k ls).IsChain fun c d => c.text ≠ [] ∨ d.text ≠ [] := by
  induction ls generalizing previousBlank k above with
  | nil => exact List.IsChain.singleton above
  | cons l ls ih =>
      rw [collapse_cons_eq_append]
      cases hl : allBlank l with
      | true =>
          cases previousBlank with
          | true => exact ih fun _ => rfl
          | false =>
              refine List.isChain_cons_cons.mpr ⟨Or.inl ?_, ih fun _ => rfl⟩
              intro hnil
              exact Bool.noConfusion (habove hnil)
      | false =>
          have hne : trimEnd l ≠ [] := trimEnd_ne_nil_of_not_allBlank hl
          exact List.isChain_cons_cons.mpr ⟨Or.inr hne, ih fun hnil => absurd hnil hne⟩

theorem isChain_collapse :
    (collapse false k ls).IsChain fun c d => c.text ≠ [] ∨ d.text ≠ [] := by
  have habove : (⟨0, [' ']⟩ : CodeLine).text = [] → false = true := nofun
  exact (isChain_cons_collapse habove).of_cons

/-- **The lines that hold code** are all kept, each once and in order. -/
theorem numbers_filter_collapse (previousBlank : Bool) (k : Nat) (ls : List (List Char)) :
    ((collapse previousBlank k ls).filter fun c => c.text ≠ []).map CodeLine.number
      = ((ls.zipIdx k).filter fun p => !allBlank p.1).map Prod.snd := by
  induction ls generalizing previousBlank k with
  | nil => rfl
  | cons l ls ih =>
      rw [collapse_cons_eq_append, List.filter_append, List.map_append, ih, List.zipIdx_cons]
      cases hl : allBlank l with
      | true =>
          have htext : trimEnd l = [] := trimEnd_eq_nil_iff_allBlank.mpr hl
          rw [List.filter_cons_of_neg (by simp [hl])]
          cases previousBlank
          · simp [htext]
          · rfl
      | false =>
          have hne : trimEnd l ≠ [] := trimEnd_ne_nil_of_not_allBlank hl
          rw [List.filter_cons_of_pos (by simp [hl])]
          simp [hne]

/-! ## The lines of a text -/

/-- Line `n` of a text, counted from 1, is blank. -/
def IsBlankLine (input : List (List Char)) (n : Nat) : Prop :=
  ∃ i l, n = i + 1 ∧ input[i]? = some l ∧ allBlank l = true

/-- Some lines with their numbers are what is kept of a text. -/
structure IsCollapse (input : List (List Char)) (kept : List CodeLine) : Prop where
  /-- Each text that is kept has a number. -/
  length_eq : (kept.map CodeLine.text).length = (kept.map CodeLine.number).length
  first : (kept.map CodeLine.number).head? = some 1
  increasing : (kept.map CodeLine.number).Pairwise (· < ·)
  bounded : ∀ n ∈ kept.map CodeLine.number, n ≤ input.length
  /-- Kept is the text of the line with this number, without the white space at its end. -/
  trimmed : ∀ c ∈ kept, ∃ l blanks, input[c.number - 1]? = some l ∧ l = c.text ++ blanks ∧
    allBlank blanks = true ∧ (∀ x ∈ c.text.getLast?, isBlank x = false) ∧
    (allBlank l = true → c.text = [])
  /-- The lines that are not blank are all kept, each once and in order. -/
  code : (kept.filter fun c => c.text ≠ []).map CodeLine.number
    = ((input.zipIdx 1).filter fun p => !allBlank p.1).map Prod.snd
  apart : kept.IsChain fun c d => c.text ≠ [] ∨ d.text ≠ []
  /-- A line that is left out is blank, and so is the line above it. -/
  skipped : ∀ n, 0 < n → n ≤ input.length →
    (n ∉ kept.map CodeLine.number ↔ IsBlankLine input n ∧ IsBlankLine input (n - 1))

/-- A line is kept with its number unless it is blank and below a blank line. -/
theorem mem_numbers_collapse_iff {i : Nat} {l : List Char} (hl : ls[i]? = some l) :
    i + 1 ∈ (collapse false 1 ls).map CodeLine.number ↔
      ¬ (allBlank l = true ∧ BelowBlank false ls i) := by
  rw [List.mem_map]
  constructor
  · rintro ⟨c, hc, hnumber⟩
    obtain ⟨j, m, hm, rfl, hkept⟩ := mem_collapse_iff.mp hc
    obtain rfl : j = i := by
      have hplace : 1 + j = i + 1 := hnumber
      omega
    rw [hl] at hm
    rw [Option.some.inj hm]
    exact hkept
  · intro hkept
    exact ⟨⟨1 + i, trimEnd l⟩, mem_collapse_iff.mpr ⟨i, l, hl, rfl, hkept⟩, Nat.add_comm 1 i⟩

/-- A line stands below a blank line if the one with the number before its own is blank. -/
theorem isBlankLine_iff_belowBlank {i : Nat} : IsBlankLine ls i ↔ BelowBlank false ls i := by
  rw [BelowBlank]
  cases i with
  | zero =>
      constructor
      · rintro ⟨j, m, hj, -⟩
        exact absurd hj.symm (Nat.succ_ne_zero j)
      · intro h
        exact nomatch h
  | succ i =>
      rw [List.getElem?_cons_succ, List.getElem?_map, Option.map_eq_some_iff]
      constructor
      · rintro ⟨j, m, hij, hm, hblank⟩
        obtain rfl : j = i := by omega
        exact ⟨m, hm, hblank⟩
      · rintro ⟨m, hm, hblank⟩
        exact ⟨i, m, rfl, hm, hblank⟩

theorem isBlankLine_succ_iff {i : Nat} {l : List Char} (hl : ls[i]? = some l) :
    IsBlankLine ls (i + 1) ↔ allBlank l = true := by
  rw [isBlankLine_iff_belowBlank, BelowBlank, List.getElem?_cons_succ, List.getElem?_map, hl,
    Option.map_some, Option.some_inj]

/-- **What is kept of some lines**, if there are any. -/
theorem isCollapse_collapse (hne : ls ≠ []) : IsCollapse ls (collapse false 1 ls) where
  length_eq := by rw [List.length_map, List.length_map]
  first := by
    obtain ⟨l, ms, rfl⟩ := List.exists_cons_of_ne_nil hne
    rw [collapse_cons_eq_append, Bool.and_false]
    rfl
  increasing := List.pairwise_map.mpr (pairwise_number_collapse false 1 ls)
  bounded := by
    intro n hn
    obtain ⟨c, hc, rfl⟩ := List.mem_map.mp hn
    have hlt := (number_of_mem_collapse hc).2
    omega
  trimmed := by
    intro c hc
    obtain ⟨i, l, hl, rfl, -⟩ := mem_collapse_iff.mp hc
    obtain ⟨blanks, hblanks, happend⟩ := exists_trimEnd_append l
    refine ⟨l, blanks, ?_, happend.symm, allBlank_iff.mpr hblanks, not_blank_getLast_trimEnd l,
      trimEnd_eq_nil_iff_allBlank.mpr⟩
    show ls[1 + i - 1]? = some l
    rw [Nat.add_sub_cancel_left]
    exact hl
  code := numbers_filter_collapse false 1 ls
  apart := isChain_collapse
  skipped := by
    intro n hpos hle
    obtain ⟨i, rfl⟩ := Nat.exists_eq_add_of_lt hpos
    rw [Nat.zero_add] at hle ⊢
    have hl : ls[i]? = some ls[i] := List.getElem?_eq_getElem hle
    rw [mem_numbers_collapse_iff hl, not_not, isBlankLine_succ_iff hl, Nat.add_sub_cancel,
      isBlankLine_iff_belowBlank]

/-- **The lines of code of a text** are kept of its lines without comments, of which there are as many as
    lines of the text. -/
theorem isCollapse_codeLines (s : List Char) :
    (lines (stripComments s)).length = (lines (normalizeLineEndings s)).length ∧
      IsCollapse (lines (stripComments s)) (codeLines s) := by
  refine ⟨?_, isCollapse_collapse (lines_ne_nil _)⟩
  rw [lines_stripComments, length_stripLines]

/-- A run of blank lines, of which one is a comment and one an ideographic space. -/
example : codeLines "a; \r\n\r\n(* b *)\r\n\u3000\r\nc;\rd;".toList
    = [⟨1, "a;".toList⟩, ⟨2, []⟩, ⟨5, "c;".toList⟩, ⟨6, "d;".toList⟩] := by
  decide

end StLint.Source

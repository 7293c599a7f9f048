import Mathlib.Data.List.Forall2
import StLint.Proofs.Source.Comment

/-!
# Line ends

The lines of a text may end with a carriage return and a line feed, or with a carriage return alone,
instead of with a line feed. **Normal line ends undo both**, while the text as it is written has other
lines at its line feeds: each but the last with a carriage return behind it, or one line only.

* `LineEnd`, `LineEnd.write` — the same lines with other ends.
* `normalizeLineEndings_write` — normal line ends undo it.
* `forall₂_lines_write_crlf`, `lines_write_cr` — the lines of the text at its line feeds.
-/

namespace StLint.Source

open Text

/-- Another way to end lines. -/
inductive LineEnd where
  /-- A carriage return and a line feed. -/
  | crlf
  /-- A carriage return alone. -/
  | cr
  deriving DecidableEq, Repr

namespace LineEnd

/-- The characters of a line end. -/
def chars : LineEnd → List Char
  | crlf => ['\r', '\n']
  | cr => ['\r']

/-- A text with another end for each of its lines. -/
def write (e : LineEnd) (s : List Char) : List Char :=
  s.flatMap fun c => if c = '\n' then e.chars else [c]

theorem write_newline (e : LineEnd) (r : List Char) : e.write ('\n' :: r) = e.chars ++ e.write r := rfl

theorem write_cons_of_ne (e : LineEnd) {c : Char} (hc : c ≠ '\n') (r : List Char) :
    e.write (c :: r) = c :: e.write r := by
  rw [write, List.flatMap_cons, if_neg hc]
  rfl

/-- No text with other line ends begins with a line feed. -/
theorem head?_write_ne (e : LineEnd) (s : List Char) : (e.write s).head? ≠ some '\n' := by
  cases s with
  | nil => exact nofun
  | cons c r =>
      by_cases hc : c = '\n'
      · subst hc
        cases e <;> exact nofun
      · rw [write_cons_of_ne e hc]
        intro h
        exact hc (Option.some.inj h)

end LineEnd

/-- A carriage return that no line feed follows ends a line. -/
theorem normalizeLineEndings_cr {r : List Char} (hr : r.head? ≠ some '\n') :
    normalizeLineEndings ('\r' :: r) = '\n' :: normalizeLineEndings r := by
  rw [normalizeLineEndings]
  rintro t rfl
  exact hr rfl

/-- **Normal line ends undo other ones.** -/
theorem normalizeLineEndings_write (e : LineEnd) {s : List Char} (hs : '\r' ∉ s) :
    normalizeLineEndings (e.write s) = s := by
  induction s with
  | nil => rfl
  | cons c r ih =>
      rw [List.mem_cons, not_or] at hs
      obtain ⟨hc, hr⟩ := hs
      by_cases hn : c = '\n'
      · subst hn
        rw [LineEnd.write_newline]
        cases e with
        | crlf =>
            show normalizeLineEndings ('\r' :: '\n' :: LineEnd.crlf.write r) = _
            rw [normalizeLineEndings, ih hr]
        | cr =>
            show normalizeLineEndings ('\r' :: LineEnd.cr.write r) = _
            rw [normalizeLineEndings_cr (LineEnd.cr.head?_write_ne r), ih hr]
      · rw [LineEnd.write_cons_of_ne e hn, normalizeLineEndings_cons_of_ne (Ne.symm hc), ih hr]

/-! ## Lines at line feeds -/

/-- **Before a line feed stands a carriage return** that belongs to its line. -/
theorem forall₂_lines_write_crlf (s : List Char) :
    List.Forall₂ (fun l m => m = l ∨ m = l ++ ['\r']) (lines s) (lines (LineEnd.crlf.write s)) := by
  induction s with
  | nil => exact List.Forall₂.cons (Or.inl rfl) List.Forall₂.nil
  | cons c r ih =>
      by_cases hc : c = '\n'
      · subst hc
        show List.Forall₂ _ (lines ([] ++ '\n' :: r)) (lines (['\r'] ++ '\n' :: LineEnd.crlf.write r))
        rw [lines_append_newline, lines_append_newline]
        exact List.Forall₂.cons (Or.inr rfl) ih
      · obtain ⟨l, ls, hl⟩ := List.exists_cons_of_ne_nil (lines_ne_nil r)
        rw [hl] at ih
        obtain ⟨m, ms, hlm, hls, hm⟩ := List.forall₂_cons_left_iff.mp ih
        rw [LineEnd.write_cons_of_ne _ hc, lines, splitOn_cons_of_ne hc hl, lines,
          splitOn_cons_of_ne hc hm]
        refine List.Forall₂.cons ?_ hls
        rcases hlm with rfl | rfl
        · exact Or.inl rfl
        · exact Or.inr rfl

/-- **Without line feeds there is one line**: the lines, with carriage returns between them. -/
theorem lines_write_cr (s : List Char) :
    lines (LineEnd.cr.write s) = [['\r'].intercalate (lines s)] := by
  have hwrite : LineEnd.cr.write s = ['\r'].intercalate (lines s) := by
    induction s with
    | nil => rfl
    | cons c r ih =>
        obtain ⟨l, ls, hl⟩ := List.exists_cons_of_ne_nil (lines_ne_nil r)
        by_cases hc : c = '\n'
        · subst hc
          have hlines : lines ('\n' :: r) = [] :: lines r := splitOn_cons_sep '\n' r
          rw [hlines, hl, List.intercalate_cons_cons, ← hl, ← ih]
          rfl
        · have hlines : lines (c :: r) = (c :: l) :: ls := splitOn_cons_of_ne hc hl
          rw [LineEnd.write_cons_of_ne _ hc, ih, hlines, hl]
          cases ls with
          | nil => simp
          | cons m ms => simp [List.intercalate_cons_cons]
  have hnone : '\n' ∉ LineEnd.cr.write s := by
    rw [LineEnd.write, List.mem_flatMap]
    rintro ⟨c, -, hc⟩
    by_cases hn : c = '\n'
    · rw [if_pos hn] at hc
      exact absurd hc (by decide)
    · rw [if_neg hn, List.mem_singleton] at hc
      exact hn hc.symm
  rw [lines, splitOn_of_not_mem hnone, hwrite]

end StLint.Source

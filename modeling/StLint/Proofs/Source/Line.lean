import StLint.Proofs.Source.Comment
import StLint.Source.Line

/-!
# Lines of code

Lines of code carry their numbers, so blank lines in front of a source only **move** the lines that
stand in it. The one other trace they leave is the blank line that stands for the whole run.

* `CodeLine.shift` — a line of code, moved down.
* `collapse_add` — lines that start further down are the same lines, moved down.
* `exists_collapse_append` — what is kept of lines does not depend on the lines below them.
* `exists_codeLines_newlines` — line feeds in front of a source.
* `findSome?_collapse` — a search that ignores blank ends finds the same in the kept lines.
* `codeLines_unlines` — the lines of code of lines without comments.
-/

namespace StLint.Source

open Text

/-- A line of code, moved down by `n` lines. -/
def CodeLine.shift (n : Nat) (l : CodeLine) : CodeLine := { l with number := l.number + n }

theorem collapse_cons (previousBlank : Bool) (n : Nat) (l : List Char) (ls : List (List Char)) :
    collapse previousBlank n (l :: ls)
      = if trimEnd l = [] then
          (if previousBlank then [] else [⟨n, []⟩]) ++ collapse true (n + 1) ls
        else ⟨n, trimEnd l⟩ :: collapse false (n + 1) ls := by
  rw [collapse]
  cases h : trimEnd l with
  | nil =>
      rw [if_pos rfl]
      cases previousBlank <;> rfl
  | cons c r => rw [if_neg (List.cons_ne_nil c r)]

/-- Lines that start further down are the same lines, moved down. -/
theorem collapse_add (previousBlank : Bool) (k n : Nat) (ls : List (List Char)) :
    collapse previousBlank (k + n) ls = (collapse previousBlank k ls).map (CodeLine.shift n) := by
  induction ls generalizing previousBlank k with
  | nil => rfl
  | cons l ls ih =>
      have hk : k + n + 1 = k + 1 + n := by omega
      rw [collapse_cons, collapse_cons, hk, ih, ih]
      by_cases hl : trimEnd l = []
      · rw [if_pos hl, if_pos hl, List.map_append]
        cases previousBlank <;> rfl
      · rw [if_neg hl, if_neg hl]
        rfl

/-- **What is kept of lines** does not depend on the lines below them. -/
theorem exists_collapse_append (previousBlank : Bool) (k : Nat) (ls ms : List (List Char)) :
    ∃ b, collapse previousBlank k (ls ++ ms)
      = collapse previousBlank k ls ++ collapse b (k + ls.length) ms := by
  induction ls generalizing previousBlank k with
  | nil => exact ⟨previousBlank, rfl⟩
  | cons l ls ih =>
      rw [List.cons_append, collapse_cons, collapse_cons, List.length_cons,
        show k + (ls.length + 1) = k + 1 + ls.length by omega]
      by_cases hl : trimEnd l = []
      · obtain ⟨b, hb⟩ := ih true (k + 1)
        refine ⟨b, ?_⟩
        rw [if_pos hl, if_pos hl, hb, List.append_assoc]
      · obtain ⟨b, hb⟩ := ih false (k + 1)
        refine ⟨b, ?_⟩
        rw [if_neg hl, if_neg hl, hb, List.cons_append]

/-- A line that is not blank is kept. -/
theorem exists_mem_collapse {previousBlank : Bool} {k : Nat} {ls : List (List Char)} {l : List Char}
    (hl : l ∈ ls) (hne : trimEnd l ≠ []) :
    ∃ m ∈ collapse previousBlank k ls, m.text = trimEnd l := by
  induction ls generalizing previousBlank k with
  | nil => exact nomatch hl
  | cons n ls ih =>
      rw [collapse_cons]
      rcases List.mem_cons.mp hl with rfl | hl
      · rw [if_neg hne]
        exact ⟨_, List.mem_cons_self .., rfl⟩
      · by_cases hn : trimEnd n = []
        · obtain ⟨m, hm, htext⟩ := ih hl
          rw [if_pos hn]
          exact ⟨m, List.mem_append_right _ hm, htext⟩
        · obtain ⟨m, hm, htext⟩ := ih hl
          rw [if_neg hn]
          exact ⟨m, List.mem_cons_of_mem _ hm, htext⟩

/-- After a blank line more of them leave no trace. -/
theorem collapse_true_replicate_nil_append (k n : Nat) (ls : List (List Char)) :
    collapse true k (List.replicate n [] ++ ls) = collapse true (k + n) ls := by
  induction n generalizing k with
  | zero => rfl
  | succ n ih =>
      have hk : k + (n + 1) = k + 1 + n := by omega
      rw [List.replicate_succ, List.cons_append, collapse_cons, if_pos rfl, hk, ← ih]
      rfl

/-- At the start of a source a blank line is kept, and that is all. -/
theorem exists_collapse_false (k : Nat) (ls : List (List Char)) :
    ∃ p : List CodeLine, (∀ l ∈ p, l.text = []) ∧ collapse false k ls = p ++ collapse true k ls := by
  cases ls with
  | nil => exact ⟨[], fun _ h => (nomatch h), rfl⟩
  | cons l ls =>
      rw [collapse_cons, collapse_cons]
      by_cases hl : trimEnd l = []
      · rw [if_pos hl, if_pos hl]
        refine ⟨[⟨k, []⟩], fun m hm => ?_, rfl⟩
        rw [List.mem_singleton.mp hm]
      · rw [if_neg hl, if_neg hl]
        exact ⟨[], fun _ h => (nomatch h), rfl⟩

/-- **Line feeds in front of a source** move its lines of code down. Apart from that the two sources
    differ in blank lines at their start only. -/
theorem exists_codeLines_newlines (n : Nat) (s : List Char) :
    ∃ core p q : List CodeLine, (∀ l ∈ p, l.text = []) ∧ (∀ l ∈ q, l.text = []) ∧
      codeLines s = p ++ core ∧
      codeLines (List.replicate n '\n' ++ s) = q ++ core.map (CodeLine.shift n) := by
  have hlines : lines (stripComments (List.replicate n '\n' ++ s))
      = List.replicate n [] ++ lines (stripComments s) := by
    rw [lines_stripComments, normalizeLineEndings_replicate_newline_append,
      lines_replicate_newline_append, stripLines_replicate_nil_append, ← lines_stripComments]
  obtain ⟨p, hp, hs⟩ := exists_collapse_false 1 (lines (stripComments s))
  -- without line feeds the blank line at the start, if there is one, is in both
  cases n with
  | zero =>
      refine ⟨collapse true 1 (lines (stripComments s)), p, p, hp, hp, hs, ?_⟩
      rw [codeLines, hlines, List.replicate_zero, List.nil_append, hs, ← collapse_add]
  | succ n =>
      obtain ⟨q, hq, ht⟩ := exists_collapse_false 1 (List.replicate (n + 1) [] ++ lines (stripComments s))
      refine ⟨collapse true 1 (lines (stripComments s)), p, q, hp, hq, hs, ?_⟩
      rw [codeLines, hlines, ht, collapse_true_replicate_nil_append, ← collapse_add]

/-- The kept lines have numbers of the given lines. -/
theorem number_of_mem_collapse {previousBlank : Bool} {k : Nat} {ls : List (List Char)}
    {l : CodeLine} (h : l ∈ collapse previousBlank k ls) :
    k ≤ l.number ∧ l.number < k + ls.length := by
  induction ls generalizing previousBlank k with
  | nil => exact nomatch h
  | cons m ms ih =>
      have hlater : ∀ b, l ∈ collapse b (k + 1) ms → k ≤ l.number ∧ l.number < k + (m :: ms).length := by
        intro b hb
        obtain ⟨h1, h2⟩ := ih hb
        rw [List.length_cons]
        omega
      have hhere : l.number = k → k ≤ l.number ∧ l.number < k + (m :: ms).length := by
        intro hk
        rw [List.length_cons]
        omega
      -- a blank line is kept only behind a line of code
      rw [collapse_cons] at h
      by_cases hm : trimEnd m = []
      · rw [if_pos hm] at h
        rcases List.mem_append.mp h with h | h
        · cases previousBlank with
          | true => exact nomatch h
          | false =>
              rw [List.mem_singleton.mp h]
              exact ⟨Nat.le_refl k, by simp⟩
        · exact hlater _ h
      · rw [if_neg hm] at h
        rcases List.mem_cons.mp h with rfl | h
        · exact hhere rfl
        · exact hlater _ h

/-- The lines of code of a source have numbers from 1 up to the number of its lines. -/
theorem number_of_mem_codeLines {s : List Char} {l : CodeLine} (h : l ∈ codeLines s) :
    0 < l.number ∧ l.number ≤ (lines (normalizeLineEndings s)).length := by
  obtain ⟨h1, h2⟩ := number_of_mem_collapse h
  rw [lines_stripComments, length_stripLines] at h2
  omega

/-- A search that finds nothing in an empty line and ignores blank ends finds the same in the kept
    lines. -/
theorem findSome?_collapse {α : Type} {f : List Char → Option α} (hnil : f [] = none)
    (htrim : ∀ l, f (trimEnd l) = f l) (previousBlank : Bool) (k : Nat) (ls : List (List Char)) :
    (collapse previousBlank k ls).findSome? (fun l => f l.text) = ls.findSome? f := by
  induction ls generalizing previousBlank k with
  | nil => rfl
  | cons l ls ih =>
      rw [collapse_cons, List.findSome?_cons]
      by_cases hl : trimEnd l = []
      · rw [if_pos hl, ← htrim l, hl, hnil, List.findSome?_append, ih]
        cases previousBlank
        · simp [hnil]
        · rfl
      · rw [if_neg hl, List.findSome?_cons, ih]
        show (match f (trimEnd l) with | some b => some b | none => _) = _
        rw [htrim]
        cases f l <;> rfl

/-- All lines. -/
theorem slice_zero_length {α : Type} (ls : List α) : slice ls 0 ls.length = ls := by
  rw [slice, List.take_length, List.drop_zero]

/-! ## Lines without comments -/

section Unlines

variable {ls : List (List Char)}

/-- The line ends between lines without any are line feeds. -/
theorem normalizeLineEndings_unlines (hne : ls ≠ []) (h : ∀ l ∈ ls, '\n' ∉ l ∧ '\r' ∉ l) :
    normalizeLineEndings (unlines ls) = unlines ls := by
  refine normalizeLineEndings_eq_self ?_
  intro hreturn
  obtain ⟨l, hl, hc⟩ := @exists_mem_splitOn '\n' _ _ hreturn (by decide)
  rw [← lines, lines_unlines hne fun m hm => (h m hm).1] at hl
  exact (h l hl).2 hc

/-- **The lines of code of lines without comments** are these lines. -/
theorem codeLines_unlines (hne : ls ≠ []) (h : ∀ l ∈ ls, '\n' ∉ l ∧ '\r' ∉ l)
    (hkept : ∀ l ∈ ls, IsKept l) : codeLines (unlines ls) = collapse false 1 ls := by
  rw [codeLines, lines_stripComments, normalizeLineEndings_unlines hne h,
    lines_unlines hne fun l hl => (h l hl).1, stripLines_of_isKept hkept]

end Unlines

end StLint.Source

import StLint.Proofs.Text.Blank

/-!
# Pieces and lines

`splitOn` cuts a text at every separator, and joining the pieces gives the text back. So a text is
the same as **its non-empty list of pieces without the separator**, and every statement about a text
can be made line by line.

* `splitOn_eq_list_splitOn` — the cut is that of the standard library, whose laws carry over.
* `splitOn_append` — where two texts meet, two pieces are joined.
* `lines_append_newline` — a line feed is a seam: the lines of both sides stay as they are.
* `lines_unlines`, `unlines_lines` — cutting into lines and joining lines are inverse.
-/

namespace StLint.Text

variable {sep : Char}

/-! ## Pieces -/

/-- The pieces are those of the library's `List.splitOn`. -/
theorem splitOn_eq_list_splitOn (sep : Char) (s : List Char) : splitOn sep s = s.splitOn sep := by
  induction s with
  | nil => rfl
  | cons c r ih =>
      rw [splitOn, List.splitOn_cons_eq_if_modifyHead, ih]
      by_cases hc : c = sep
      · rw [if_pos hc, if_pos (by rw [hc]; exact beq_self_eq_true sep)]
      · rw [if_neg hc, if_neg (by rw [beq_iff_eq]; exact hc)]
        obtain ⟨p, ps, hp⟩ := List.exists_cons_of_ne_nil (List.splitOn_ne_nil sep r)
        rw [hp]
        rfl

theorem splitOn_ne_nil (sep : Char) (s : List Char) : splitOn sep s ≠ [] := by
  rw [splitOn_eq_list_splitOn]
  exact List.splitOn_ne_nil sep s

theorem splitOn_cons_sep (sep : Char) (r : List Char) :
    splitOn sep (sep :: r) = [] :: splitOn sep r := by
  rw [splitOn, if_pos rfl]

/-- Another character joins the first piece. -/
theorem splitOn_cons_of_ne {c : Char} (hc : c ≠ sep) {r p : List Char} {ps : List (List Char)}
    (h : splitOn sep r = p :: ps) : splitOn sep (c :: r) = (c :: p) :: ps := by
  rw [splitOn, if_neg hc, h]

/-- A separator is a seam between the pieces of its two sides. -/
theorem splitOn_append_sep (a b : List Char) :
    splitOn sep (a ++ sep :: b) = splitOn sep a ++ splitOn sep b := by
  simp only [splitOn_eq_list_splitOn, List.splitOn_append_cons_self]

/-- **Where two texts meet** the last piece of one and the first piece of the other are joined. -/
theorem splitOn_append {a b x y : List Char} {xs ys : List (List Char)}
    (ha : splitOn sep a = xs ++ [x]) (hb : splitOn sep b = y :: ys) :
    splitOn sep (a ++ b) = xs ++ (x ++ y) :: ys := by
  induction a generalizing xs x with
  | nil =>
      cases xs with
      | nil =>
          rw [← (List.cons.inj ha).1]
          exact hb
      | cons p ps => exact absurd (List.cons.inj ha).2 (by simp)
  | cons c r ih =>
      obtain ⟨q, qs, hq⟩ := List.exists_cons_of_ne_nil (splitOn_ne_nil sep r)
      by_cases hc : c = sep
      · rw [hc, splitOn_cons_sep] at ha
        rw [hc, List.cons_append, splitOn_cons_sep]
        cases xs with
        | nil =>
            rw [hq] at ha
            exact nomatch (List.cons.inj ha).2
        | cons p ps =>
            rw [ih (List.cons.inj ha).2, ← (List.cons.inj ha).1]
            rfl
      · rw [splitOn_cons_of_ne hc hq] at ha
        cases xs with
        | nil =>
            obtain ⟨rfl, rfl⟩ := List.cons.inj ha
            exact splitOn_cons_of_ne hc (ih (show splitOn sep r = [] ++ [q] from hq))
        | cons p ps =>
            obtain ⟨rfl, rfl⟩ := List.cons.inj ha
            exact splitOn_cons_of_ne hc (ih (show splitOn sep r = (q :: ps) ++ [x] from hq))

/-- A text without the separator is one piece. -/
theorem splitOn_of_not_mem {s : List Char} (h : sep ∉ s) : splitOn sep s = [s] := by
  rw [splitOn_eq_list_splitOn]
  exact List.splitOn_eq_singleton h

/-- A piece holds characters of the text, but not the separator. -/
theorem mem_and_ne_of_mem_splitOn {s p : List Char} {c : Char} (hp : p ∈ splitOn sep s)
    (hc : c ∈ p) : c ∈ s ∧ c ≠ sep := by
  induction s generalizing p with
  | nil =>
      rw [splitOn, List.mem_singleton] at hp
      rw [hp] at hc
      exact nomatch hc
  | cons d r ih =>
      obtain ⟨q, qs, hq⟩ := List.exists_cons_of_ne_nil (splitOn_ne_nil sep r)
      by_cases hd : d = sep
      · rw [hd, splitOn_cons_sep] at hp
        rcases List.mem_cons.mp hp with rfl | hp
        · exact nomatch hc
        · exact ⟨List.mem_cons_of_mem _ (ih hp hc).1, (ih hp hc).2⟩
      · rw [splitOn_cons_of_ne hd hq] at hp
        rcases List.mem_cons.mp hp with rfl | hp
        · rcases List.mem_cons.mp hc with rfl | hc
          · exact ⟨List.mem_cons_self .., hd⟩
          · have hr := ih (hq ▸ List.mem_cons_self ..) hc
            exact ⟨List.mem_cons_of_mem _ hr.1, hr.2⟩
        · have hr := ih (hq ▸ List.mem_cons_of_mem _ hp) hc
          exact ⟨List.mem_cons_of_mem _ hr.1, hr.2⟩

/-- Every character but the separator stands in a piece. -/
theorem exists_mem_splitOn {s : List Char} {c : Char} (hc : c ∈ s) (hne : c ≠ sep) :
    ∃ p ∈ splitOn sep s, c ∈ p := by
  induction s with
  | nil => exact nomatch hc
  | cons d r ih =>
      by_cases hd : d = sep
      · rw [hd, splitOn_cons_sep]
        rcases List.mem_cons.mp hc with rfl | hc
        · exact absurd hd hne
        · obtain ⟨p, hp, hcp⟩ := ih hc
          exact ⟨p, List.mem_cons_of_mem _ hp, hcp⟩
      · obtain ⟨p, ps, hps⟩ := List.exists_cons_of_ne_nil (splitOn_ne_nil sep r)
        rw [splitOn_cons_of_ne hd hps]
        rcases List.mem_cons.mp hc with rfl | hc
        · exact ⟨c :: p, List.mem_cons_self .., List.mem_cons_self ..⟩
        · obtain ⟨q, hq, hcq⟩ := ih hc
          rw [hps] at hq
          rcases List.mem_cons.mp hq with rfl | hq
          · exact ⟨d :: q, List.mem_cons_self .., List.mem_cons_of_mem d hcq⟩
          · exact ⟨q, List.mem_cons_of_mem _ hq, hcq⟩

/-! ## Lines -/

theorem lines_ne_nil (s : List Char) : lines s ≠ [] := splitOn_ne_nil '\n' s

theorem lines_append_newline (a b : List Char) : lines (a ++ '\n' :: b) = lines a ++ lines b :=
  splitOn_append_sep a b

theorem newline_not_mem_of_mem_lines {s l : List Char} (h : l ∈ lines s) : '\n' ∉ l :=
  fun hl => (mem_and_ne_of_mem_splitOn h hl).2 rfl

theorem unlines_lines (s : List Char) : unlines (lines s) = s := by
  rw [unlines, lines, splitOn_eq_list_splitOn]
  exact List.intercalate_splitOn '\n'

theorem lines_unlines {ls : List (List Char)} (hne : ls ≠ []) (h : ∀ l ∈ ls, '\n' ∉ l) :
    lines (unlines ls) = ls := by
  rw [unlines, lines, splitOn_eq_list_splitOn]
  exact List.splitOn_intercalate '\n' h hne

/-- A text within one of several lines stands in the text of the lines. -/
theorem exists_unlines_append (xs ys : List (List Char)) (x y : List Char) :
    ∃ u v, ∀ t, unlines (xs ++ (x ++ (t ++ y)) :: ys) = u ++ (t ++ v) := by
  induction xs with
  | nil =>
      cases ys with
      | nil => exact ⟨x, y, fun t => List.intercalate_singleton ..⟩
      | cons z zs =>
          refine ⟨x, y ++ (['\n'] ++ unlines (z :: zs)), ?_⟩
          intro t
          rw [List.nil_append, unlines, List.intercalate_cons_cons, List.append_assoc,
            List.append_assoc, List.append_assoc]
          rfl
  | cons z zs ih =>
      obtain ⟨u, v, h⟩ := ih
      refine ⟨z ++ (['\n'] ++ u), v, ?_⟩
      intro t
      rw [List.cons_append, unlines, List.intercalate_cons_of_ne_nil (by simp), List.append_assoc,
        List.append_assoc, List.append_assoc, ← h t]
      rfl

/-- Line feeds in front of a text are empty lines in front of its lines. -/
theorem lines_replicate_newline_append (n : Nat) (s : List Char) :
    lines (List.replicate n '\n' ++ s) = List.replicate n [] ++ lines s := by
  induction n with
  | zero => rfl
  | succ n ih =>
      rw [List.replicate_succ, List.replicate_succ, List.cons_append, List.cons_append, ← ih]
      exact splitOn_cons_sep '\n' _

end StLint.Text

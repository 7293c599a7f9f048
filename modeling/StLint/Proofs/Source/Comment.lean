import StLint.Proofs.Text.Lines
import StLint.Source.Comment

/-!
# Comments, line by line

Comment removal is an automaton over characters. What matters of it at a line end is one bit:
**only a block comment goes on in the next line**, since line comments and strings end with their
line. So the code of a text is found line by line, where each line starts in a block comment or in
code.

* `Region.after` — where the scanner stands after a text.
* `stripFrom_append_of_seam` — removal goes on at a character that completes no mark of a comment.
* `stripFrom_append_newline` — removal on both sides of a line feed.
* `lines_stripFrom` — the lines of the code are the lines of the text, each stripped.
* `IsBare.isKept`, `stripLines_of_isKept` — lines that open no comment are kept as they are.
* `normalizeLineEndings_eq_self` — a text without carriage returns is normal.
-/

namespace StLint.Source

open Text

/-! ## Line endings -/

theorem normalizeLineEndings_cons_of_ne {c : Char} (hc : c ≠ '\r') (r : List Char) :
    normalizeLineEndings (c :: r) = c :: normalizeLineEndings r := by
  rw [normalizeLineEndings]
  · intro _ h
    exact absurd h hc
  · exact hc

/-- A text without carriage returns is normal. -/
theorem normalizeLineEndings_eq_self {s : List Char} (h : '\r' ∉ s) :
    normalizeLineEndings s = s := by
  induction s with
  | nil => rfl
  | cons c r ih =>
      have hc : c ≠ '\r' := fun hc => h (hc ▸ List.mem_cons_self ..)
      rw [normalizeLineEndings_cons_of_ne hc, ih fun hr => h (List.mem_cons_of_mem _ hr)]

/-- No carriage return is left. -/
theorem cr_not_mem_normalizeLineEndings (s : List Char) : '\r' ∉ normalizeLineEndings s := by
  fun_induction normalizeLineEndings s with
  | case1 => exact List.not_mem_nil
  | case2 r ih => exact List.not_mem_cons_of_ne_of_not_mem (by decide) ih
  | case3 r _ ih => exact List.not_mem_cons_of_ne_of_not_mem (by decide) ih
  | case4 c r _ hc ih => exact List.not_mem_cons_of_ne_of_not_mem (fun h => hc h.symm) ih

theorem normalizeLineEndings_idem (s : List Char) :
    normalizeLineEndings (normalizeLineEndings s) = normalizeLineEndings s :=
  normalizeLineEndings_eq_self (cr_not_mem_normalizeLineEndings s)

/-- White space stays white space. -/
theorem isBlank_normalizeLineEndings {s : List Char} (h : ∀ c ∈ s, isBlank c = true) :
    ∀ c ∈ normalizeLineEndings s, isBlank c = true := by
  have hnewline : isBlank '\n' = true := by decide
  fun_induction normalizeLineEndings s with
  | case1 => exact h
  | case2 r ih =>
      intro c hc
      rcases List.mem_cons.mp hc with rfl | hc
      · exact hnewline
      · exact ih (fun d hd => h d (List.mem_cons_of_mem _ (List.mem_cons_of_mem _ hd))) c hc
  | case3 r _ ih =>
      intro c hc
      rcases List.mem_cons.mp hc with rfl | hc
      · exact hnewline
      · exact ih (fun d hd => h d (List.mem_cons_of_mem _ hd)) c hc
  | case4 d r _ _ ih =>
      intro c hc
      rcases List.mem_cons.mp hc with rfl | hc
      · exact h c (List.mem_cons_self ..)
      · exact ih (fun d hd => h d (List.mem_cons_of_mem _ hd)) c hc

/-- Line feeds in front of a text stay. -/
theorem normalizeLineEndings_replicate_newline_append (n : Nat) (s : List Char) :
    normalizeLineEndings (List.replicate n '\n' ++ s)
      = List.replicate n '\n' ++ normalizeLineEndings s := by
  induction n with
  | zero => rfl
  | succ n ih =>
      rw [List.replicate_succ, List.cons_append, List.cons_append, ← ih]
      exact normalizeLineEndings_cons_of_ne (by decide) _

/-! ## Where the scanner stands -/

/-- The region in which the scanner stands after a text. -/
def Region.after : Region → List Char → Region
  | r, [] => r
  | .code, '/' :: '/' :: s => after .lineComment s
  | .code, '(' :: '*' :: s => after .blockComment s
  | .code, c :: s => after (Region.ofCode c) s
  | .lineComment, '\n' :: s => after .code s
  | .lineComment, _ :: s => after .lineComment s
  | .blockComment, '*' :: ')' :: s => after .code s
  | .blockComment, _ :: s => after .blockComment s
  | .quoted q, c :: s => after (Region.ofQuoted q c) s
  | .escaped _, '\n' :: s => after .code s
  | .escaped q, _ :: s => after (.quoted q) s

/-- The region in which the next line starts. -/
def Region.nextLine : Region → Region
  | .blockComment => .blockComment
  | _ => .code

/-- A line starts in a block comment or in code. -/
theorem Region.nextLine_nextLine (r : Region) : r.nextLine.nextLine = r.nextLine := by
  cases r <;> rfl

/-- What is kept of a text stands in the text in the same order. -/
theorem stripFrom_sublist (r : Region) (s : List Char) : (stripFrom r s).Sublist s := by
  fun_induction stripFrom r s with
  | case1 => exact List.Sublist.refl _
  | case2 r ih | case3 r ih | case8 r ih => exact (ih.cons _).cons _
  | case4 c r _ _ ih | case5 r ih | case7 r ih | case10 q c r ih | case11 _ r ih
  | case12 q c r _ ih => exact ih.cons_cons _
  | case6 c r _ ih | case9 c r _ _ ih => exact ih.cons _

/-- A character that completes no mark of a comment. -/
def IsSeam (c : Char) : Prop := c ≠ '/' ∧ c ≠ '*' ∧ c ≠ ')'

instance (c : Char) : Decidable (IsSeam c) := inferInstanceAs (Decidable (_ ∧ _))

/-- Two characters that another one separates open and close nothing. -/
private theorem not_pair_append {c d x y : Char} {s b : List Char} (hy : d ≠ y)
    (h : ∀ t, c = x → s = y :: t → False) : ∀ t, c = x → s ++ d :: b = y :: t → False := by
  intro t hc hs
  cases s with
  | nil => exact hy (List.cons.inj hs).1
  | cons e r =>
      obtain ⟨he, -⟩ := List.cons.inj hs
      exact h r hc (by rw [he])

/-- A character of code that opens no comment is kept. -/
theorem stripFrom_code_cons {c : Char} {s : List Char} (h1 : ∀ t, c = '/' → s = '/' :: t → False)
    (h2 : ∀ t, c = '(' → s = '*' :: t → False) :
    stripFrom .code (c :: s) = c :: stripFrom (Region.ofCode c) s := by
  rw [stripFrom]
  · exact h1
  · exact h2

/-- A block comment goes on over a character that does not close it, of which only line feeds are
    kept. -/
theorem stripFrom_blockComment_cons {c : Char} {s : List Char}
    (h : ∀ t, c = '*' → s = ')' :: t → False) :
    stripFrom .blockComment (c :: s)
      = (if c = '\n' then ['\n'] else []) ++ stripFrom .blockComment s := by
  by_cases hc : c = '\n'
  · rw [hc, if_pos rfl, stripFrom]
    rfl
  · rw [if_neg hc, stripFrom]
    · rfl
    · exact hc
    · exact h

/-- **Comment removal goes on from where it stands** at a character that completes no mark: no mark
    lies across the place before it. -/
theorem stripFrom_append_of_seam {d : Char} (hd : IsSeam d) (r : Region) (a b : List Char) :
    stripFrom r (a ++ d :: b) = stripFrom r a ++ stripFrom (r.after a) (d :: b) := by
  fun_induction Region.after r a with
  | case1 r => cases r <;> rfl
  | case2 s ih | case3 s ih | case5 s ih | case7 s ih | case9 _ _ s ih | case10 _ s ih =>
      simp only [List.cons_append, stripFrom, ih]
  -- code goes on: the character does not complete an opening pair
  | case4 c s h1 h2 ih =>
      rw [List.cons_append, stripFrom_code_cons h1 h2,
        stripFrom_code_cons (not_pair_append hd.1 h1) (not_pair_append hd.2.1 h2), ih]
      rfl
  | case6 c s hc ih =>
      rw [List.cons_append, stripFrom, stripFrom, ih] <;> exact hc
  -- it does not complete a closing pair either
  | case8 c s h ih =>
      rw [List.cons_append, stripFrom_blockComment_cons h,
        stripFrom_blockComment_cons (not_pair_append hd.2.2 h), ih, List.append_assoc]
  | case11 q c s hc ih =>
      rw [List.cons_append, stripFrom, stripFrom, ih]
      · rfl
      · exact hc
      · exact hc

/-- So does the region in which the scanner stands. -/
theorem Region.after_append_of_seam {d : Char} (hd : IsSeam d) (r : Region) (a b : List Char) :
    r.after (a ++ d :: b) = (r.after a).after (d :: b) := by
  fun_induction Region.after r a with
  | case1 r => rfl
  | case2 s ih | case3 s ih | case5 s ih | case7 s ih | case9 _ _ s ih | case10 _ s ih =>
      simp only [List.cons_append, Region.after, ih]
  | case4 c s h1 h2 ih =>
      rw [List.cons_append, Region.after, ih]
      · exact not_pair_append hd.1 h1
      · exact not_pair_append hd.2.1 h2
  | case6 c s hc ih =>
      rw [List.cons_append, Region.after, ih]
      exact hc
  | case8 c s h ih =>
      rw [List.cons_append, Region.after, ih]
      exact not_pair_append hd.2.2 h
  | case11 q c s hc ih =>
      rw [List.cons_append, Region.after, ih]
      exact hc

/-- The next line starts in code, or in the block comment that is still open. -/
theorem stripFrom_newline (r : Region) (s : List Char) :
    stripFrom r ('\n' :: s) = '\n' :: stripFrom r.nextLine s := by
  cases r <;> simp [stripFrom, Region.nextLine, Region.ofCode, Region.ofQuoted, isQuote]

theorem Region.after_newline (r : Region) (s : List Char) :
    r.after ('\n' :: s) = r.nextLine.after s := by
  cases r <;> simp [Region.after, Region.nextLine, Region.ofCode, Region.ofQuoted, isQuote]

theorem isSeam_newline : IsSeam '\n' := by decide

/-- **A line feed is a seam of comment removal**: the other side starts in code, or in the block
    comment that this side leaves open. -/
theorem stripFrom_append_newline (r : Region) (a b : List Char) :
    stripFrom r (a ++ '\n' :: b) = stripFrom r a ++ '\n' :: stripFrom (r.after a).nextLine b := by
  rw [stripFrom_append_of_seam isSeam_newline, stripFrom_newline]

/-! ## Lines -/

/-- The code of lines, where the first starts in region `r`. -/
def stripLines : Region → List (List Char) → List (List Char)
  | _, [] => []
  | r, l :: ls => stripFrom r l :: stripLines (r.after l).nextLine ls

/-- The region in which the line after some lines starts. -/
def Region.afterLines : Region → List (List Char) → Region
  | r, [] => r
  | r, l :: ls => afterLines (r.after l).nextLine ls

theorem length_stripLines (r : Region) (ls : List (List Char)) :
    (stripLines r ls).length = ls.length := by
  induction ls generalizing r with
  | nil => rfl
  | cons l ls ih => rw [stripLines, List.length_cons, List.length_cons, ih]

theorem stripLines_append (r : Region) (ls ms : List (List Char)) :
    stripLines r (ls ++ ms) = stripLines r ls ++ stripLines (r.afterLines ls) ms := by
  induction ls generalizing r with
  | nil => rfl
  | cons l ls ih =>
      rw [List.cons_append, stripLines, ih]
      rfl

theorem Region.afterLines_append (r : Region) (ls ms : List (List Char)) :
    r.afterLines (ls ++ ms) = (r.afterLines ls).afterLines ms := by
  induction ls generalizing r with
  | nil => rfl
  | cons l ls ih => exact ih _

/-- A line starts in code or in a block comment. -/
theorem Region.afterLines_code (ls : List (List Char)) :
    Region.afterLines .code ls = .code ∨ Region.afterLines .code ls = .blockComment := by
  have hstart : ∀ r : Region, r.nextLine = r → r.afterLines ls = .code ∨
      r.afterLines ls = .blockComment := by
    induction ls with
    | nil =>
        intro r hr
        cases r <;> first | exact Or.inl rfl | exact Or.inr rfl | exact nomatch hr
    | cons l ls ih => exact fun r _ => ih _ (Region.nextLine_nextLine _)
  exact hstart .code rfl

/-- Empty lines in front leave the scanner in code. -/
theorem stripLines_replicate_nil_append (n : Nat) (ls : List (List Char)) :
    stripLines .code (List.replicate n [] ++ ls) = List.replicate n [] ++ stripLines .code ls := by
  induction n with
  | zero => rfl
  | succ n ih =>
      rw [List.replicate_succ, List.cons_append, stripLines]
      exact congrArg ([] :: ·) ih

private theorem lines_stripFrom_unlines (r : Region) {ls : List (List Char)} (hne : ls ≠ [])
    (h : ∀ l ∈ ls, '\n' ∉ l) : lines (stripFrom r (unlines ls)) = stripLines r ls := by
  induction ls generalizing r with
  | nil => exact absurd rfl hne
  | cons l ls ih =>
      have hl : lines (stripFrom r l) = [stripFrom r l] := by
        refine splitOn_of_not_mem ?_
        intro hm
        exact h l (List.mem_cons_self ..) ((stripFrom_sublist r l).subset hm)
      cases ls with
      | nil =>
          rw [unlines, List.intercalate_singleton, hl]
          rfl
      | cons m ms =>
          have hms := ih (r.after l).nextLine (List.cons_ne_nil m ms)
            fun k hk => h k (List.mem_cons_of_mem _ hk)
          rw [unlines, List.intercalate_cons_of_ne_nil (List.cons_ne_nil m ms), List.append_assoc]
          show lines (stripFrom r (l ++ '\n' :: unlines (m :: ms))) = _
          rw [stripFrom_append_newline, lines_append_newline, hl, hms]
          rfl

/-- **The lines of the code are the lines of the text, each stripped** from where it starts. -/
theorem lines_stripFrom (r : Region) (s : List Char) :
    lines (stripFrom r s) = stripLines r (lines s) := by
  have h := lines_stripFrom_unlines r (lines_ne_nil s) fun l hl => newline_not_mem_of_mem_lines hl
  rwa [unlines_lines] at h

/-- The lines of the code of a source. -/
theorem lines_stripComments (s : List Char) :
    lines (stripComments s) = stripLines .code (lines (normalizeLineEndings s)) :=
  lines_stripFrom .code _

/-! ## Code without comments -/

/-- A line that opens no comment: it holds no quote and neither opening phrase. -/
structure IsBare (s : List Char) : Prop where
  no_quote : ∀ c ∈ s, isQuote c = false
  no_lineComment : ¬ "//".toList <:+: s
  no_blockComment : ¬ "(*".toList <:+: s

theorem IsBare.tail {c : Char} {s : List Char} (h : IsBare (c :: s)) : IsBare s where
  no_quote := fun d hd => h.no_quote d (List.mem_cons_of_mem c hd)
  no_lineComment := fun hs => h.no_lineComment (List.infix_cons hs)
  no_blockComment := fun hs => h.no_blockComment (List.infix_cons hs)

/-- No comment begins with the first character. -/
private theorem not_opening_of_not_infix {c x y : Char} {s : List Char} (h : ¬ [x, y] <:+: (c :: s)) :
    ∀ t, c = x → s = y :: t → False := by
  rintro t rfl rfl
  exact h (List.prefix_append [c, y] t).isInfix

/-- Comment removal keeps a line as it is, and the next line starts as code again. -/
def IsKept (s : List Char) : Prop := stripFrom .code s = s ∧ Region.after .code s = .code

/-- **Code without comments is kept as it is.** -/
theorem IsBare.isKept {s : List Char} (h : IsBare s) : IsKept s := by
  induction s with
  | nil => exact ⟨rfl, rfl⟩
  | cons c s ih =>
      have hline := not_opening_of_not_infix h.no_lineComment
      have hblock := not_opening_of_not_infix h.no_blockComment
      have hcode : Region.ofCode c = .code := by
        rw [Region.ofCode, h.no_quote c (List.mem_cons_self ..)]
        rfl
      obtain ⟨hstrip, hafter⟩ := ih h.tail
      constructor
      · rw [stripFrom_code_cons hline hblock, hcode, hstrip]
      · rw [Region.after]
        · rw [hcode, hafter]
        · exact hline
        · exact hblock

theorem stripLines_of_isKept {ls : List (List Char)} (h : ∀ l ∈ ls, IsKept l) :
    stripLines .code ls = ls := by
  induction ls with
  | nil => rfl
  | cons l ls ih =>
      obtain ⟨hstrip, hafter⟩ := h l (List.mem_cons_self ..)
      rw [stripLines, hstrip, hafter]
      show l :: stripLines .code ls = l :: ls
      rw [ih fun m hm => h m (List.mem_cons_of_mem l hm)]

end StLint.Source

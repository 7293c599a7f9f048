import StLint.Proofs.Source.Comment

/-!
# String literals in code

A string literal stands on one line, and the comment scanner passes over it: it keeps every character
of it and stands in code again behind it. So **what a literal holds does not matter to the code
around it**, and a source with a literal is a text with a gap that any literal fills.

* `isContent`, `literal` — what may stand between two quotes.
* `stripFrom_literal`, `Region.after_literal` — the scanner passes over a literal.
* `Gap` — lines with a gap in one of them; `Gap.strip` is the code around it.
* `exists_gap` — the gap of a source in which a literal stands.
-/

namespace StLint.Source

open Text

/-- A character that ends a line. -/
def isLineBreak (c : Char) : Bool := c = '\n' || c = '\r'

/-- What may stand between the quotes of a string: no line break and no closing quote, where `$`
    escapes the character behind it. -/
def isContent (quote : Char) : List Char → Bool
  | [] => true
  | '$' :: c :: r => !isLineBreak c && isContent quote r
  | c :: r => c != '$' && c != quote && !isLineBreak c && isContent quote r

/-- A string literal. -/
def literal (quote : Char) (content : List Char) : List Char := quote :: (content ++ [quote])

theorem isQuote_iff {c : Char} : isQuote c = true ↔ c = '\'' ∨ c = '"' := by
  rw [isQuote, Bool.or_eq_true, decide_eq_true_eq, decide_eq_true_eq]

/-- A text without quotes, `$` and line breaks can stand in any string. -/
theorem isContent_of_plain {q : Char} (hq : isQuote q = true) {c : List Char}
    (h : ∀ d ∈ c, isQuote d = false ∧ d ≠ '$' ∧ isLineBreak d = false) : isContent q c = true := by
  induction c with
  | nil => rfl
  | cons d r ih =>
      obtain ⟨hquote, hdollar, hbreak⟩ := h d (List.mem_cons_self ..)
      have hne : d ≠ q := by
        rintro rfl
        rw [hq] at hquote
        exact nomatch hquote
      rw [isContent]
      · simp [hdollar, hne, hbreak, ih fun e he => h e (List.mem_cons_of_mem d he)]
      · intro _ _ hd _
        exact hdollar hd

/-- The same of characters that are all looked at. -/
theorem plain_of_all {c : List Char}
    (h : c.all (fun d => !isQuote d && d != '$' && !isLineBreak d) = true) :
    ∀ d ∈ c, isQuote d = false ∧ d ≠ '$' ∧ isLineBreak d = false := by
  intro d hd
  have hall := List.all_eq_true.mp h d hd
  rw [Bool.and_eq_true, Bool.and_eq_true, Bool.not_eq_true', bne_iff_ne, Bool.not_eq_true'] at hall
  exact ⟨hall.1.1, hall.1.2, hall.2⟩

/-! ## The scanner in a literal -/

section Scan

variable {q : Char} {c : List Char}

theorem isSeam_quote (hq : isQuote q = true) : IsSeam q := by
  rcases isQuote_iff.mp hq with rfl | rfl <;> decide

private theorem ne_dollar_of_quote (hq : isQuote q = true) : q ≠ '$' := by
  rintro rfl
  exact absurd hq (by decide)

/-- The closing quote leads back to code. -/
private theorem ofQuoted_self (hq : isQuote q = true) : Region.ofQuoted q q = .code := by
  rw [Region.ofQuoted, if_neg (ne_dollar_of_quote hq), if_pos (by simp)]

/-- No character of the content closes the string. -/
private theorem ofQuoted_content {d : Char} (hdollar : d ≠ '$') (hquote : d ≠ q)
    (hbreak : isLineBreak d = false) : Region.ofQuoted q d = .quoted q := by
  have hline : d ≠ '\n' := by
    rintro rfl
    exact absurd hbreak (by decide)
  rw [Region.ofQuoted, if_neg hdollar, if_neg (by simp [hquote, hline])]

/-- **The scanner passes over the content** and stands in code behind the closing quote, by induction
    on the content, two characters at a time after a `$`. -/
private theorem scan_content (hq : isQuote q = true) (hc : isContent q c = true) (r : List Char) :
    stripFrom (.quoted q) (c ++ q :: r) = c ++ q :: stripFrom .code r ∧
      Region.after (.quoted q) (c ++ q :: r) = Region.after .code r := by
  induction c using isContent.induct with
  | case1 =>
      rw [List.nil_append, stripFrom, Region.after, ofQuoted_self hq]
      exact ⟨rfl, rfl⟩
  | case2 d t ih =>
      rw [isContent, Bool.and_eq_true, Bool.not_eq_true'] at hc
      obtain ⟨hstrip, hafter⟩ := ih hc.2
      have hline : d ≠ '\n' := by
        rintro rfl
        exact absurd hc.1 (by decide)
      have hdollar : Region.ofQuoted q '$' = .escaped q := if_pos rfl
      rw [List.cons_append, List.cons_append, stripFrom, Region.after, hdollar]
      constructor
      · rw [stripFrom, hstrip]
        · rfl
        · exact hline
      · rw [Region.after, hafter]
        exact hline
  | case3 d t hpair ih =>
      rw [isContent] at hc
      · simp only [Bool.and_eq_true, bne_iff_ne, Bool.not_eq_true'] at hc
        obtain ⟨⟨⟨hdollar, hquote⟩, hbreak⟩, ht⟩ := hc
        obtain ⟨hstrip, hafter⟩ := ih ht
        rw [List.cons_append, stripFrom, Region.after, ofQuoted_content hdollar hquote hbreak,
          hstrip, hafter]
        exact ⟨rfl, rfl⟩
      · exact hpair

private theorem literal_append (q : Char) (c r : List Char) :
    literal q c ++ r = q :: (c ++ q :: r) := by
  rw [literal, List.cons_append, List.append_assoc]
  rfl

/-- A quote opens a string. -/
private theorem stripFrom_after_quote (hq : isQuote q = true) (t : List Char) :
    stripFrom .code (q :: t) = q :: stripFrom (.quoted q) t ∧
      Region.after .code (q :: t) = Region.after (.quoted q) t := by
  have hcode : Region.ofCode q = .quoted q := if_pos hq
  have hslash : ∀ s, q = '/' → t = '/' :: s → False := fun _ h _ => (isSeam_quote hq).1 h
  have hparen : ∀ s, q = '(' → t = '*' :: s → False := by
    rintro s rfl _
    exact absurd hq (by decide)
  constructor
  · rw [stripFrom_code_cons hslash hparen, hcode]
  · rw [Region.after, hcode]
    · exact hslash
    · exact hparen

/-- **The scanner keeps a literal** and goes on in code. -/
theorem stripFrom_literal (hq : isQuote q = true) (hc : isContent q c = true) (r : List Char) :
    stripFrom .code (literal q c ++ r) = literal q c ++ stripFrom .code r := by
  rw [literal_append, literal_append, (stripFrom_after_quote hq _).1, (scan_content hq hc r).1]

theorem Region.after_literal (hq : isQuote q = true) (hc : isContent q c = true) (r : List Char) :
    Region.after .code (literal q c ++ r) = Region.after .code r := by
  rw [literal_append, (stripFrom_after_quote hq _).2, (scan_content hq hc r).2]

/-- The same behind a text that leaves the scanner in code. -/
theorem stripFrom_append_literal (hq : isQuote q = true) (hc : isContent q c = true) {r : Region}
    {x : List Char} (hx : r.after x = .code) (y : List Char) :
    stripFrom r (x ++ (literal q c ++ y)) = stripFrom r x ++ (literal q c ++ stripFrom .code y) := by
  rw [← stripFrom_literal hq hc, literal_append, stripFrom_append_of_seam (isSeam_quote hq), hx]

theorem Region.after_append_literal (hq : isQuote q = true) (hc : isContent q c = true) {r : Region}
    {x : List Char} (hx : r.after x = .code) (y : List Char) :
    r.after (x ++ (literal q c ++ y)) = Region.after .code y := by
  rw [← Region.after_literal hq hc, literal_append, Region.after_append_of_seam (isSeam_quote hq), hx]

/-- Behind code that is kept, a literal is kept too. -/
theorem IsKept.append_literal (hq : isQuote q = true) (hc : isContent q c = true) {x y : List Char}
    (hx : IsKept x) (hy : IsKept y) : IsKept (x ++ (literal q c ++ y)) := by
  constructor
  · rw [stripFrom_append_literal hq hc hx.2, hx.1, hy.1]
  · rw [Region.after_append_literal hq hc hx.2, hy.2]

/-- A literal stands on one line. -/
theorem not_lineBreak_of_mem_literal (hq : isQuote q = true) (hc : isContent q c = true) :
    ∀ d ∈ literal q c, isLineBreak d = false := by
  have hquote : isLineBreak q = false := by
    rcases isQuote_iff.mp hq with rfl | rfl <;> rfl
  have hcontent : ∀ d ∈ c, isLineBreak d = false := by
    induction c using isContent.induct with
    | case1 => exact fun d hd => nomatch hd
    | case2 e t ih =>
        rw [isContent, Bool.and_eq_true, Bool.not_eq_true'] at hc
        intro d hd
        rcases List.mem_cons.mp hd with rfl | hd
        · rfl
        · rcases List.mem_cons.mp hd with rfl | hd
          · exact hc.1
          · exact ih hc.2 d hd
    | case3 e t hpair ih =>
        rw [isContent] at hc
        · simp only [Bool.and_eq_true, Bool.not_eq_true'] at hc
          intro d hd
          rcases List.mem_cons.mp hd with rfl | hd
          · exact hc.1.2
          · exact ih hc.2 d hd
        · exact hpair
  intro d hd
  rcases List.mem_cons.mp hd with rfl | hd
  · exact hquote
  · rcases List.mem_append.mp hd with hd | hd
    · exact hcontent d hd
    · rw [List.mem_singleton.mp hd]
      exact hquote

end Scan

/-! ## The comment that trails a literal -/

/-- The search goes on behind a character that opens no comment. -/
theorem trailingCommentFrom?_cons {quote : Option Char} {c : Char} {r : List Char}
    (hslash : quote = none → c ≠ '/') (hparen : quote = none → c = '(' → r.head? ≠ some '*') :
    trailingCommentFrom? quote (c :: r) = trailingCommentFrom? (Nesting.stepQuote quote c) r := by
  rw [trailingCommentFrom?]
  · exact fun _ hquote hc _ => hslash hquote hc
  · rintro t hquote hc rfl
    exact hparen hquote hc rfl

/-- No comment trails code without quotes and marks of comments, up to what follows it. -/
theorem trailingCommentFrom?_append {s r : List Char}
    (hs : ∀ c ∈ s, isQuote c = false ∧ c ≠ '/' ∧ c ≠ '*') (hr : r.head? ≠ some '*') :
    trailingCommentFrom? none (s ++ r) = trailingCommentFrom? none r := by
  induction s with
  | nil => rfl
  | cons c s ih =>
      obtain ⟨hquote, hslash, -⟩ := hs c (List.mem_cons_self ..)
      have hrest := fun d hd => hs d (List.mem_cons_of_mem c hd)
      have hstep : Nesting.stepQuote none c = none := by
        rw [Nesting.stepQuote, hquote]
        rfl
      -- a bracket opens no comment, since no star follows it
      have hhead : (s ++ r).head? ≠ some '*' := by
        cases s with
        | nil => exact hr
        | cons d s =>
            intro h
            exact (hrest d (List.mem_cons_self ..)).2.2 (Option.some.inj h)
      rw [List.cons_append, trailingCommentFrom?_cons (fun _ => hslash) (fun _ _ => hhead), hstep,
        ih hrest]

/-- No comment begins in a string. -/
theorem trailingCommentFrom?_literal {q : Char} (hq : isQuote q = true) {c : List Char} (hc : q ∉ c)
    (r : List Char) :
    trailingCommentFrom? none (literal q c ++ r) = trailingCommentFrom? none r := by
  have hopen : Nesting.stepQuote none q = some q := if_pos hq
  have hinside : ∀ d t, trailingCommentFrom? (some q) (d :: t)
      = trailingCommentFrom? (if d = q then none else some q) t := by
    intro d t
    exact trailingCommentFrom?_cons (fun h => nomatch h) (fun h => nomatch h)
  have hcontent : trailingCommentFrom? (some q) (c ++ q :: r) = trailingCommentFrom? none r := by
    induction c with
    | nil => rw [List.nil_append, hinside, if_pos rfl]
    | cons d c ih =>
        have hd : d ≠ q := fun h => hc (h ▸ List.mem_cons_self ..)
        rw [List.cons_append, hinside, if_neg hd]
        exact ih fun h => hc (List.mem_cons_of_mem d h)
  have hslash : q ≠ '/' := (isSeam_quote hq).1
  have hparen : q ≠ '(' := by
    rintro rfl
    exact absurd hq (by decide)
  rw [literal_append, trailingCommentFrom?_cons (fun _ => hslash) (fun _ h => absurd h hparen), hopen,
    hcontent]

/-! ## Line ends around a literal -/

/-- A line end is not completed by another character than a line feed. -/
theorem normalizeLineEndings_append_of_ne {d : Char} (hd : d ≠ '\n') (a t : List Char) :
    normalizeLineEndings (a ++ d :: t) = normalizeLineEndings a ++ normalizeLineEndings (d :: t) := by
  fun_induction normalizeLineEndings a with
  | case1 => rfl
  | case2 r ih => rw [List.cons_append, List.cons_append, normalizeLineEndings, ih]; rfl
  | case3 r hr ih =>
      rw [List.cons_append, normalizeLineEndings, ih]
      · rfl
      · intro s hs
        cases r with
        | nil => exact hd (List.cons.inj hs).1
        | cons e r =>
            obtain ⟨rfl, -⟩ := List.cons.inj hs
            exact hr r rfl
  | case4 c r _ hc ih =>
      rw [List.cons_append, normalizeLineEndings_cons_of_ne hc, ih]
      rfl

theorem normalizeLineEndings_append_of_not_mem {t : List Char} (ht : '\r' ∉ t) (s : List Char) :
    normalizeLineEndings (t ++ s) = t ++ normalizeLineEndings s := by
  induction t with
  | nil => rfl
  | cons c r ih =>
      have hc : c ≠ '\r' := fun h => ht (h ▸ List.mem_cons_self ..)
      rw [List.cons_append, normalizeLineEndings_cons_of_ne hc,
        ih fun h => ht (List.mem_cons_of_mem c h)]
      rfl

/-- The line ends on both sides of a literal are normalized on their own. -/
theorem normalizeLineEndings_append_literal {q : Char} (hq : isQuote q = true) {c : List Char}
    (hc : isContent q c = true) (a b : List Char) :
    normalizeLineEndings (a ++ (literal q c ++ b))
      = normalizeLineEndings a ++ (literal q c ++ normalizeLineEndings b) := by
  have hbreak := not_lineBreak_of_mem_literal hq hc
  have hcr : '\r' ∉ literal q c := fun h => absurd (hbreak _ h) (by decide)
  have hq' : q ≠ '\n' := by
    rintro rfl
    exact absurd hq (by decide)
  rw [← normalizeLineEndings_append_of_not_mem hcr, literal_append,
    normalizeLineEndings_append_of_ne hq']

/-! ## Lines with a gap -/

/-- Lines with a gap in one of them. -/
structure Gap where
  above : List (List Char)
  left : List Char
  right : List Char
  below : List (List Char)

namespace Gap

/-- The lines with a text in the gap. -/
def fill (g : Gap) (t : List Char) : List (List Char) :=
  g.above ++ (g.left ++ (t ++ g.right)) :: g.below

/-- The scanner reaches the gap in code. -/
def InCode (g : Gap) : Prop := (Region.afterLines .code g.above).after g.left = .code

/-- The code around a gap in which a literal stands. -/
def strip (g : Gap) : Gap where
  above := stripLines .code g.above
  left := stripFrom (Region.afterLines .code g.above) g.left
  right := stripFrom .code g.right
  below := stripLines (Region.after .code g.right).nextLine g.below

variable {g : Gap} {q : Char} {c : List Char}

/-- **The code of the lines is the code around the gap** with the same literal in it. -/
theorem stripLines_fill (hg : g.InCode) (hq : isQuote q = true) (hc : isContent q c = true) :
    stripLines .code (g.fill (literal q c)) = g.strip.fill (literal q c) := by
  rw [fill, stripLines_append, stripLines, stripFrom_append_literal hq hc hg,
    Region.after_append_literal hq hc hg]
  rfl

/-- Where a line starts does not depend on what the literal holds. -/
theorem afterLines_take_fill (hg : g.InCode) (hq : isQuote q = true) (hc : isContent q c = true)
    {c' : List Char} (hc' : isContent q c' = true) (n : Nat) :
    Region.afterLines .code ((g.fill (literal q c)).take n)
      = Region.afterLines .code ((g.fill (literal q c')).take n) := by
  rw [fill, fill]
  by_cases hn : n ≤ g.above.length
  · rw [List.take_append_of_le_length hn, List.take_append_of_le_length hn]
  · -- the line with the gap is passed as a whole
    obtain ⟨m, rfl⟩ := Nat.exists_eq_add_of_lt (Nat.lt_of_not_le hn)
    rw [Nat.add_assoc, List.take_length_add_append, List.take_length_add_append,
      List.take_succ_cons, List.take_succ_cons, Region.afterLines_append, Region.afterLines_append,
      Region.afterLines, Region.afterLines, Region.after_append_literal hq hc hg,
      Region.after_append_literal hq hc' hg]

end Gap

/-- The scanner reaches the end of a text in the last of its lines. -/
private theorem Region.after_unlines (r : Region) (xs : List (List Char)) (x : List Char) :
    r.after (unlines (xs ++ [x])) = (r.afterLines xs).after x := by
  induction xs generalizing r with
  | nil => rw [List.nil_append, unlines, List.intercalate_singleton]; rfl
  | cons z zs ih =>
      rw [List.cons_append, unlines, List.intercalate_cons_of_ne_nil (by simp), List.append_assoc]
      show r.after (z ++ '\n' :: unlines (zs ++ [x])) = _
      rw [Region.after_append_of_seam isSeam_newline, Region.after_newline, ih]
      rfl

/-- **A text with a place in code** is made of lines with a gap in code. -/
theorem exists_gap {a : List Char} (ha : Region.after .code a = .code) (b : List Char) :
    ∃ g : Gap, g.InCode ∧ ∀ t, '\n' ∉ t → lines (a ++ (t ++ b)) = g.fill t := by
  obtain ⟨xs, x, hx⟩ := (List.eq_nil_or_concat (lines a)).resolve_left (lines_ne_nil a)
  obtain ⟨y, ys, hy⟩ := List.exists_cons_of_ne_nil (lines_ne_nil b)
  rw [List.concat_eq_append] at hx
  refine ⟨⟨xs, x, y, ys⟩, ?_, ?_⟩
  · show (Region.afterLines .code xs).after x = .code
    rw [← Region.after_unlines, ← hx, unlines_lines, ha]
  · intro t ht
    have hright : lines (t ++ b) = (t ++ y) :: ys :=
      splitOn_append (show splitOn '\n' t = [] ++ [t] from splitOn_of_not_mem ht) hy
    exact splitOn_append hx hright

/-- **A source with a literal** is made of lines with a gap in code that the literal fills. -/
theorem exists_gap_literal {a : List Char} {q : Char} (hq : isQuote q = true)
    (ha : Region.after .code (normalizeLineEndings a) = .code) (b : List Char) :
    ∃ g : Gap, g.InCode ∧ ∀ c, isContent q c = true →
      lines (normalizeLineEndings (a ++ (literal q c ++ b))) = g.fill (literal q c) := by
  obtain ⟨g, hg, hlines⟩ := exists_gap ha (normalizeLineEndings b)
  refine ⟨g, hg, ?_⟩
  intro c hc
  rw [normalizeLineEndings_append_literal hq hc]
  refine hlines _ ?_
  intro h
  exact absurd (not_lineBreak_of_mem_literal hq hc _ h) (by decide)

end StLint.Source

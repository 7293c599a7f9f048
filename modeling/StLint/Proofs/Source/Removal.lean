import StLint.Proofs.Source.Escape

/-!
# What comment removal leaves

Removal deletes characters and keeps every line feed, so the lines of the code stay in place, **each
a part of its line** in the source. What is left is meant to be free of comments, and it is, unless a
comment stood between the two characters of an opening mark: once it is gone they meet, and a second
removal takes what follows them for a comment.

* `count_newline_stripFrom`, `getElem?_stripLines` — every line feed and every line.
* `stripComments_keeps_lines` — the lines of the code in terms of the lines of the source.
* `SomeInCode` — a property of some character of code and the text behind it.
* `HoldsMark`, `stripFrom_eq_self_iff` — a text without comments is what removal leaves unchanged.
* `HidesMark`, `stripFrom_stripFrom_iff` — where removal makes two characters meet.
* `stripComments_idem_iff` — a second removal changes nothing exactly if no mark is hidden.
-/

namespace StLint.Source

open Text

/-! ## Lines -/

/-- **Every line feed is kept**, and none is added. -/
theorem count_newline_stripFrom (r : Region) (s : List Char) :
    (stripFrom r s).count '\n' = s.count '\n' := by
  fun_induction stripFrom r s with
  | case1 => rfl
  | case2 s ih | case3 s ih | case8 s ih =>
      rw [ih, List.count_cons_of_ne (by decide), List.count_cons_of_ne (by decide)]
  | case4 c s _ _ ih | case10 q c s ih | case12 q c s _ ih => rw [List.count_cons, List.count_cons, ih]
  | case5 s ih | case7 s ih | case11 _ s ih => rw [List.count_cons_self, List.count_cons_self, ih]
  | case6 c s hc ih | case9 c s hc _ ih => rw [ih, List.count_cons_of_ne hc]

/-- Each line is stripped from the region in which it starts. -/
theorem getElem?_stripLines (r : Region) (ls : List (List Char)) (k : Nat) :
    (stripLines r ls)[k]? = ls[k]?.map (stripFrom (r.afterLines (ls.take k))) := by
  induction ls generalizing r k with
  | nil => rfl
  | cons l ls ih =>
      cases k with
      | zero => rfl
      | succ k => exact ih _ k

theorem cr_not_mem_stripComments (s : List Char) : '\r' ∉ stripComments s := by
  intro h
  exact cr_not_mem_normalizeLineEndings s ((stripFrom_sublist .code _).subset h)

/-- **Comment removal keeps the lines**: as many as the source has, no carriage return among them, and
    each a part of its line in the source. A line that starts in code and opens nothing is kept. -/
theorem stripComments_keeps_lines (s : List Char) :
    (stripComments s).count '\n' = (normalizeLineEndings s).count '\n' ∧
      '\r' ∉ stripComments s ∧
      ∀ (k : Nat) (l : List Char), (lines (normalizeLineEndings s))[k]? = some l →
        ∃ m, (lines (stripComments s))[k]? = some m ∧
          m = stripFrom (Region.afterLines .code ((lines (normalizeLineEndings s)).take k)) l ∧
          m.Sublist l ∧
          (Region.afterLines .code ((lines (normalizeLineEndings s)).take k) = .code → IsBare l →
            m = l) := by
  refine ⟨count_newline_stripFrom .code _, cr_not_mem_stripComments s, ?_⟩
  intro k l hl
  refine ⟨_, ?_, rfl, stripFrom_sublist _ l, ?_⟩
  · rw [lines_stripComments, getElem?_stripLines, hl]
    rfl
  · intro hcode hbare
    rw [hcode]
    exact hbare.isKept.1

/-- Line ends of all kinds, a comment over two lines, and a mark in a string. -/
def mixedLines : List Char :=
  "s := 'it$'s // fine';\r\nx := 1; (* one\rtwo *) y := 2; // three\nz := x / y;".toList

/-- The last line starts in code again and opens nothing. -/
theorem stripComments_keeps_lines_mixedLines :
    (lines (normalizeLineEndings mixedLines))[3]? = some "z := x / y;".toList ∧
      Region.afterLines .code ((lines (normalizeLineEndings mixedLines)).take 3) = .code ∧
      IsBare "z := x / y;".toList ∧
      (lines (stripComments mixedLines))[3]? = some "z := x / y;".toList := by
  have hline : (lines (normalizeLineEndings mixedLines))[3]? = some "z := x / y;".toList := by
    decide +kernel
  have hcode : Region.afterLines .code ((lines (normalizeLineEndings mixedLines)).take 3) = .code := by
    decide +kernel
  have hquote : ∀ c ∈ "z := x / y;".toList, isQuote c = false := by
    have hall : "z := x / y;".toList.all (!isQuote ·) = true := by decide
    simpa using hall
  have hbare : IsBare "z := x / y;".toList := ⟨hquote, by decide +kernel, by decide +kernel⟩
  obtain ⟨m, hm, -, -, hkept⟩ := (stripComments_keeps_lines mixedLines).2.2 3 _ hline
  refine ⟨hline, hcode, hbare, ?_⟩
  rw [hm, hkept hcode hbare]

/-! ## Characters of code -/

/-- In a scan from region `r` on, some character of code and the text behind it have a property. -/
def SomeInCode (p : Char → List Char → Prop) (r : Region) (s : List Char) : Prop :=
  ∃ u x w, s = u ++ x :: w ∧ r.after (u ++ [x]) = .code ∧ p x w

section SomeInCode

variable {p : Char → List Char → Prop} {r r' : Region} {c d : Char} {s : List Char}

theorem not_someInCode_nil : ¬ SomeInCode p r [] := by
  rintro ⟨u, x, w, hs, -⟩
  exact absurd hs.symm (List.append_ne_nil_of_right_ne_nil u (List.cons_ne_nil x w))

/-- One character takes the scanner from `r` to `r'`. -/
theorem someInCode_cons (hafter : ∀ t, t <+: s → r.after (c :: t) = r'.after t) :
    SomeInCode p r (c :: s) ↔ (r' = .code ∧ p c s) ∨ SomeInCode p r' s := by
  constructor
  · rintro ⟨u, x, w, hs, hcode, hp⟩
    cases u with
    | nil =>
        obtain ⟨rfl, rfl⟩ := List.cons.inj hs
        refine Or.inl ⟨?_, hp⟩
        rw [← hcode, List.nil_append, hafter [] List.nil_prefix, Region.after]
    | cons e u =>
        obtain ⟨rfl, rfl⟩ := List.cons.inj hs
        refine Or.inr ⟨u, x, w, rfl, ?_, hp⟩
        rw [← hcode, List.cons_append, hafter _ ⟨w, List.append_assoc u [x] w⟩]
  · rintro (⟨rfl, hp⟩ | ⟨u, x, w, rfl, hcode, hp⟩)
    · refine ⟨[], c, s, rfl, ?_, hp⟩
      rw [List.nil_append, hafter [] List.nil_prefix, Region.after]
    · refine ⟨c :: u, x, w, rfl, ?_, hp⟩
      rw [List.cons_append, hafter _ ⟨w, List.append_assoc u [x] w⟩, hcode]

/-- Two characters take the scanner from `r` to `r'`, and neither has the property. -/
theorem someInCode_cons_cons (hafter : ∀ t, r.after (c :: d :: t) = r'.after t)
    (hfirst : ¬ p c (d :: s)) (hsecond : r' = .code → ¬ p d s) :
    SomeInCode p r (c :: d :: s) ↔ SomeInCode p r' s := by
  constructor
  · rintro ⟨u, x, w, hs, hcode, hp⟩
    cases u with
    | nil =>
        obtain ⟨rfl, rfl⟩ := List.cons.inj hs
        exact absurd hp hfirst
    | cons e u =>
        obtain ⟨rfl, htail⟩ := List.cons.inj hs
        cases u with
        | nil =>
            obtain ⟨rfl, rfl⟩ := List.cons.inj htail
            refine absurd hp (hsecond ?_)
            rw [← hcode, List.singleton_append, hafter [], Region.after]
        | cons f u =>
            obtain ⟨rfl, rfl⟩ := List.cons.inj htail
            exact ⟨u, x, w, rfl, (hafter _).symm.trans hcode, hp⟩
  · rintro ⟨u, x, w, rfl, hcode, hp⟩
    exact ⟨c :: d :: u, x, w, rfl, (hafter _).trans hcode, hp⟩

end SomeInCode

/-! ## Opening marks -/

/-- A character and the first one behind it open a comment. -/
def Opens (x : Char) (w : List Char) : Prop :=
  (x = '/' ∧ w.head? = some '/') ∨ (x = '(' ∧ w.head? = some '*')

/-- Somewhere in the code of a text a comment opens. -/
def HoldsMark : Region → List Char → Prop := SomeInCode Opens

/-- A character stands in front of a block comment and opens a comment with the first character that
    is kept behind it. -/
def OpensOver (x : Char) (w : List Char) : Prop :=
  "(*".toList <+: w ∧ Opens x (stripFrom .code w)

/-- Somewhere in the code of a text removal makes two characters meet that open a comment. -/
def HidesMark : Region → List Char → Prop := SomeInCode OpensOver

/-- The first character of an opening mark. -/
def BeginsMark (p : Char → List Char → Prop) : Prop := ∀ {x w}, p x w → x = '/' ∨ x = '('

theorem beginsMark_opens : BeginsMark Opens := by
  rintro _ _ (⟨h, -⟩ | ⟨h, -⟩)
  · exact Or.inl h
  · exact Or.inr h

theorem beginsMark_opensOver : BeginsMark OpensOver := fun h => beginsMark_opens h.2

theorem not_opensOver_cons {x d : Char} (hd : d ≠ '(') (w : List Char) : ¬ OpensOver x (d :: w) := by
  rintro ⟨⟨t, ht⟩, -⟩
  exact hd (List.cons.inj ht).1.symm

theorem BeginsMark.not {p : Char → List Char → Prop} (hp : BeginsMark p) {c : Char}
    (hc : c ≠ '/' ∧ c ≠ '(') (s : List Char) : ¬ p c s := by
  intro h
  rcases hp h with h | h
  · exact hc.1 h
  · exact hc.2 h

section Steps

variable {p : Char → List Char → Prop} {r r' : Region} {c q : Char} {s : List Char}

/-- A character that begins no mark, or takes the scanner out of code. -/
theorem someInCode_skip (hp : BeginsMark p) (hafter : ∀ t, t <+: s → r.after (c :: t) = r'.after t)
    (hc : r' = .code → c ≠ '/' ∧ c ≠ '(') : SomeInCode p r (c :: s) ↔ SomeInCode p r' s := by
  rw [someInCode_cons hafter, or_iff_right]
  rintro ⟨hcode, hmark⟩
  exact hp.not (hc hcode) s hmark

/-- No mark begins in a string. -/
theorem someInCode_quoted (hp : BeginsMark p) (hq : isQuote q = true) :
    SomeInCode p (.quoted q) (c :: s) ↔ SomeInCode p (Region.ofQuoted q c) s := by
  refine someInCode_skip hp (fun t _ => by rw [Region.after]) ?_
  intro hcode
  rw [Region.ofQuoted] at hcode
  split at hcode
  · cases hcode
  · split at hcode
    · rename_i hend
      rw [Bool.or_eq_true, decide_eq_true_eq, decide_eq_true_eq] at hend
      rcases hend with rfl | rfl
      · rcases isQuote_iff.mp hq with rfl | rfl <;> decide
      · decide
    · cases hcode

theorem someInCode_escaped (hp : BeginsMark p) (hc : c ≠ '\n') :
    SomeInCode p (.escaped q) (c :: s) ↔ SomeInCode p (.quoted q) s := by
  refine someInCode_skip hp ?_ nofun
  intro t _
  rw [Region.after]
  exact hc

theorem someInCode_newline (hp : BeginsMark p) :
    SomeInCode p r ('\n' :: s) ↔ SomeInCode p r.nextLine s :=
  someInCode_skip hp (fun t _ => Region.after_newline r t) fun _ => by decide

/-- A comment goes on over a character that does not end it. -/
theorem someInCode_lineComment (hp : BeginsMark p) (hc : c ≠ '\n') :
    SomeInCode p .lineComment (c :: s) ↔ SomeInCode p .lineComment s := by
  refine someInCode_skip hp ?_ nofun
  intro t _
  rw [Region.after]
  exact hc

@[inherit_doc someInCode_lineComment]
theorem someInCode_blockComment (hp : BeginsMark p) (hend : ∀ t, c = '*' → s = ')' :: t → False) :
    SomeInCode p .blockComment (c :: s) ↔ SomeInCode p .blockComment s := by
  refine someInCode_skip hp ?_ nofun
  rintro t ⟨w, rfl⟩
  rw [Region.after]
  rintro t' hc rfl
  exact hend (t' ++ w) hc rfl

/-- A character of code that opens no comment. -/
theorem someInCode_code (h1 : ∀ t, c = '/' → s = '/' :: t → False)
    (h2 : ∀ t, c = '(' → s = '*' :: t → False) :
    SomeInCode p .code (c :: s) ↔
      (Region.ofCode c = .code ∧ p c s) ∨ SomeInCode p (Region.ofCode c) s := by
  refine someInCode_cons ?_
  rintro t ⟨w, rfl⟩
  rw [Region.after]
  · rintro t' hc rfl
    exact h1 (t' ++ w) hc rfl
  · rintro t' hc rfl
    exact h2 (t' ++ w) hc rfl

end Steps

theorem not_opens_iff {c : Char} {s : List Char} :
    ¬ Opens c s ↔ (∀ t, c = '/' → s = '/' :: t → False) ∧ (∀ t, c = '(' → s = '*' :: t → False) := by
  simp only [Opens, List.head?_eq_some_iff]
  constructor
  · intro h
    exact ⟨fun t hc hs => h (Or.inl ⟨hc, t, hs⟩), fun t hc hs => h (Or.inr ⟨hc, t, hs⟩)⟩
  · rintro ⟨h1, h2⟩ (⟨hc, t, hs⟩ | ⟨hc, t, hs⟩)
    · exact h1 t hc hs
    · exact h2 t hc hs

/-! ## Texts without comments -/

/-- **What removal leaves unchanged** are the texts in which no comment opens. -/
theorem stripFrom_eq_self_iff {r : Region} (hr : r.IsKeeping) (s : List Char) :
    stripFrom r s = s ↔ ¬ HoldsMark r s := by
  fun_induction stripFrom r s with
  | case1 r => exact iff_of_true rfl not_someInCode_nil
  -- a comment opens at once
  | case2 s ih =>
      refine iff_of_false ?_ (not_not.mpr ⟨[], '/', '/' :: s, rfl, rfl, Or.inl ⟨rfl, rfl⟩⟩)
      intro h
      exact (not_opening_of_kept (c := '/') (s := '/' :: s) h).1 s rfl rfl
  | case3 s ih =>
      refine iff_of_false ?_ (not_not.mpr ⟨[], '(', '*' :: s, rfl, rfl, Or.inr ⟨rfl, rfl⟩⟩)
      intro h
      exact (not_opening_of_kept (c := '(') (s := '*' :: s) h).2 s rfl rfl
  | case4 c s h1 h2 ih =>
      rw [HoldsMark, someInCode_code h1 h2, or_iff_right fun h => not_opens_iff.mpr ⟨h1, h2⟩ h.2]
      exact (List.cons_inj_right _).trans (ih hr.next)
  | case5 s ih | case6 c s _ ih | case7 s ih | case8 s ih | case9 c s _ _ ih => exact hr.elim
  | case10 q c s ih =>
      rw [HoldsMark, someInCode_quoted beginsMark_opens hr]
      exact (List.cons_inj_right _).trans (ih hr.next)
  | case11 q s ih =>
      rw [HoldsMark, someInCode_newline beginsMark_opens]
      exact (List.cons_inj_right _).trans (ih trivial)
  | case12 q c s hc ih =>
      rw [HoldsMark, someInCode_escaped beginsMark_opens hc]
      exact (List.cons_inj_right _).trans (ih hr)

/-- A text without the openings of comments is unchanged, wherever its strings end. -/
theorem stripFrom_of_no_opening {r : Region} (hr : r.IsKeeping) {s : List Char}
    (hline : ¬ "//".toList <:+: s) (hblock : ¬ "(*".toList <:+: s) : stripFrom r s = s := by
  refine (stripFrom_eq_self_iff hr s).mpr ?_
  rintro ⟨u, x, w, rfl, -, ⟨rfl, hw⟩ | ⟨rfl, hw⟩⟩
  · obtain ⟨w, rfl⟩ := List.head?_eq_some_iff.mp hw
    exact hline ⟨u, w, List.append_assoc ..⟩
  · obtain ⟨w, rfl⟩ := List.head?_eq_some_iff.mp hw
    exact hblock ⟨u, w, List.append_assoc ..⟩

/-! ## A second removal -/

/-- The region of a scan that reads only what was kept. -/
def Region.amongKept : Region → Region
  | .lineComment | .blockComment => .code
  | r => r

theorem Region.IsKeeping.amongKept_eq {r : Region} (hr : r.IsKeeping) : r.amongKept = r := by
  cases r with
  | code | quoted q | escaped q => rfl
  | lineComment | blockComment => exact hr.elim

/-- What is kept of a line comment begins with the end of its line. -/
theorem head?_stripFrom_lineComment {s : List Char} {y : Char}
    (h : (stripFrom .lineComment s).head? = some y) : y = '\n' := by
  induction s with
  | nil => cases h
  | cons c s ih =>
      by_cases hc : c = '\n'
      · subst hc
        rw [stripFrom_newline] at h
        exact (Option.some.inj h).symm
      · rw [stripFrom] at h
        · exact ih h
        · exact hc

/-- So behind a character of code stands what stood there, or the end of a line, unless a block comment
    opens. -/
theorem head?_stripFrom_code {s : List Char} {y : Char} (hs : ¬ "(*".toList <+: s)
    (h : (stripFrom .code s).head? = some y) : y = '\n' ∨ s.head? = some y := by
  cases s with
  | nil => exact Or.inr h
  | cons d s =>
      by_cases hline : ∃ t, d = '/' ∧ s = '/' :: t
      · obtain ⟨t, rfl, rfl⟩ := hline
        rw [stripFrom] at h
        exact Or.inl (head?_stripFrom_lineComment h)
      · refine Or.inr ?_
        rw [stripFrom_code_cons] at h
        · exact h
        · intro t hd ht
          exact hline ⟨t, hd, ht⟩
        · rintro t rfl rfl
          exact hs ⟨t, rfl⟩

/-- Two characters that open a comment meet over one, or stand together already. -/
theorem prefix_of_opens_stripFrom {c : Char} {s : List Char} (hs : ¬ Opens c s)
    (h : Opens c (stripFrom .code s)) : "(*".toList <+: s := by
  by_contra hprefix
  rcases h with ⟨hc, hhead⟩ | ⟨hc, hhead⟩
  · have hs' := (head?_stripFrom_code hprefix hhead).resolve_left (by decide)
    exact hs (Or.inl ⟨hc, hs'⟩)
  · have hs' := (head?_stripFrom_code hprefix hhead).resolve_left (by decide)
    exact hs (Or.inr ⟨hc, hs'⟩)

/-- A text of code is kept if no comment opens at its start and the rest is kept. -/
theorem stripFrom_code_cons_eq_iff {c : Char} {s : List Char} :
    stripFrom .code (c :: s) = c :: s ↔ ¬ Opens c s ∧ stripFrom (Region.ofCode c) s = s := by
  constructor
  · intro h
    obtain ⟨h1, h2⟩ := not_opening_of_kept h
    rw [stripFrom_code_cons h1 h2] at h
    exact ⟨not_opens_iff.mpr ⟨h1, h2⟩, (List.cons.inj h).2⟩
  · rintro ⟨hopens, hs⟩
    obtain ⟨h1, h2⟩ := not_opens_iff.mp hopens
    rw [stripFrom_code_cons h1 h2, hs]

section Hidden

variable {r : Region} {c q : Char} {s : List Char}

/-- Nothing of an opening mark is left. -/
theorem hidesMark_lineOpening : HidesMark .code ('/' :: '/' :: s) ↔ HidesMark .lineComment s := by
  have hafter : ∀ t, Region.code.after ('/' :: '/' :: t) = Region.lineComment.after t := by
    intro t
    rw [Region.after]
  exact someInCode_cons_cons hafter (not_opensOver_cons (by decide) s) Region.noConfusion

@[inherit_doc hidesMark_lineOpening]
theorem hidesMark_blockOpening : HidesMark .code ('(' :: '*' :: s) ↔ HidesMark .blockComment s := by
  have hafter : ∀ t, Region.code.after ('(' :: '*' :: t) = Region.blockComment.after t := by
    intro t
    rw [Region.after]
  exact someInCode_cons_cons hafter (not_opensOver_cons (by decide) s) Region.noConfusion

theorem hidesMark_blockEnd : HidesMark .blockComment ('*' :: ')' :: s) ↔ HidesMark .code s := by
  have hafter : ∀ t, Region.blockComment.after ('*' :: ')' :: t) = Region.code.after t := by
    intro t
    rw [Region.after]
  refine someInCode_cons_cons hafter (not_opensOver_cons (by decide) s) ?_
  intro _
  exact beginsMark_opensOver.not (by decide) s

/-- A character of code that opens no comment is kept, and so it meets what is kept behind it. -/
theorem hidesMark_code (hc : ¬ Opens c s) :
    HidesMark .code (c :: s) ↔
      Opens c (stripFrom (Region.ofCode c) s) ∨ HidesMark (Region.ofCode c) s := by
  obtain ⟨h1, h2⟩ := not_opens_iff.mp hc
  refine (someInCode_code h1 h2).trans (or_congr_left ?_)
  constructor
  · rintro ⟨hcode, -, hopens⟩
    rwa [hcode]
  · intro hopens
    -- the characters that begin a mark open no string
    have hcode : Region.ofCode c = .code := by
      rcases beginsMark_opens hopens with rfl | rfl <;> rfl
    rw [hcode] at hopens
    exact ⟨hcode, prefix_of_opens_stripFrom hc hopens, hopens⟩

/-- The end of a line is kept in every region, and the next line is read from the same one again. -/
theorem stripFrom_stripFrom_newline
    (ih : stripFrom r.nextLine.amongKept (stripFrom r.nextLine s) = stripFrom r.nextLine s ↔
      ¬ HidesMark r.nextLine s) :
    stripFrom r.amongKept ('\n' :: stripFrom r.nextLine s) = '\n' :: stripFrom r.nextLine s ↔
      ¬ HidesMark r ('\n' :: s) := by
  have hnext : r.amongKept.nextLine = r.nextLine.amongKept := by
    cases r <;> rfl
  rw [HidesMark, someInCode_newline beginsMark_opensOver, stripFrom_newline, hnext]
  exact (List.cons_inj_right _).trans ih

/-- **A second removal keeps the text** exactly if the first one made no characters meet. -/
theorem stripFrom_stripFrom_iff (hr : r.amongKept.IsKeeping) (s : List Char) :
    stripFrom r.amongKept (stripFrom r s) = stripFrom r s ↔ ¬ HidesMark r s := by
  fun_induction stripFrom r s with
  | case1 r =>
      refine iff_of_true ?_ not_someInCode_nil
      cases r <;> rfl
  | case2 s ih =>
      rw [hidesMark_lineOpening]
      exact ih trivial
  | case3 s ih =>
      rw [hidesMark_blockOpening]
      exact ih trivial
  | case4 c s h1 h2 ih =>
      have hnext : (Region.ofCode c).IsKeeping := Region.IsKeeping.next (r := .code) trivial
      rw [hnext.amongKept_eq] at ih
      rw [hidesMark_code (not_opens_iff.mpr ⟨h1, h2⟩), not_or]
      exact stripFrom_code_cons_eq_iff.trans (and_congr_right fun _ => ih hnext)
  | case5 s ih | case7 s ih | case11 q s ih => exact stripFrom_stripFrom_newline (ih trivial)
  | case6 c s hc ih =>
      rw [HidesMark, someInCode_lineComment beginsMark_opensOver hc]
      exact ih trivial
  | case8 s ih =>
      rw [hidesMark_blockEnd]
      exact ih trivial
  | case9 c s _ hend ih =>
      rw [HidesMark, someInCode_blockComment beginsMark_opensOver hend]
      exact ih trivial
  | case10 q c s ih =>
      have hnext : (Region.ofQuoted q c).IsKeeping := Region.IsKeeping.next (r := .quoted q) hr
      rw [hnext.amongKept_eq] at ih
      rw [HidesMark, someInCode_quoted beginsMark_opensOver hr]
      show stripFrom (.quoted q) (c :: stripFrom (Region.ofQuoted q c) s) = _ ↔ _
      rw [stripFrom]
      exact (List.cons_inj_right _).trans (ih hnext)
  | case12 q c s hc ih =>
      rw [HidesMark, someInCode_escaped beginsMark_opensOver hc]
      show stripFrom (.escaped q) (c :: stripFrom (.quoted q) s) = _ ↔ _
      rw [stripFrom]
      · exact (List.cons_inj_right _).trans (ih hr)
      · exact hc

end Hidden

/-- **Comments are removed for good** exactly if removal makes no characters meet that open one: then a
    second removal changes nothing, and no comment opens in what the first one leaves. -/
theorem stripComments_idem_iff (s : List Char) :
    (stripComments (stripComments s) = stripComments s ↔
        ¬ HidesMark .code (normalizeLineEndings s)) ∧
      (HoldsMark .code (stripComments s) ↔ HidesMark .code (normalizeLineEndings s)) := by
  have hagain : stripComments (stripComments s) = stripFrom .code (stripComments s) := by
    rw [stripComments, normalizeLineEndings_eq_self (cr_not_mem_stripComments s)]
  have hhides : stripFrom .code (stripComments s) = stripComments s ↔
      ¬ HidesMark .code (normalizeLineEndings s) :=
    stripFrom_stripFrom_iff (r := .code) trivial _
  have hholds : stripFrom .code (stripComments s) = stripComments s ↔
      ¬ HoldsMark .code (stripComments s) := stripFrom_eq_self_iff (r := .code) trivial _
  rw [hagain]
  exact ⟨hhides, not_iff_not.mp (hholds.symm.trans hhides)⟩

/-- **Removal can make a comment**: the comment between two slashes is gone, and the slashes open one
    that takes the rest of the line with it. -/
theorem exists_hidden_mark :
    stripComments "x := a /(* per *)/ b;".toList = "x := a // b;".toList ∧
      stripComments (stripComments "x := a /(* per *)/ b;".toList) = "x := a ".toList ∧
      stripComments (stripComments "x := a /(* per *)/ b;".toList)
        ≠ stripComments "x := a /(* per *)/ b;".toList := by
  decide +kernel

end StLint.Source

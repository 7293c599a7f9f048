import StLint.Proofs.Source.Literal
import StLint.Proofs.Text.TopLevel

/-!
# Escaped quotes

Every scanner carries the quote that is open, but only comment removal knows that `$` escapes the
character behind it. On a line without comments the scanners therefore **part at an escaped quote**:
for comment removal the string goes on, for the others it ends there. Until such a quote they agree
on every character.

* `inLiteral` — what lies inside a string for comment removal.
* `HoldsEscapedQuote` — a string of the line holds its own quote, escaped.
* `forall_inLiteral_iff` — the scanners agree if there is none, and only then.
* `IsCutFrom.quote`, `quote_of_findTopLevelFrom?` — no cut is made where a quote is open.
* `literals_agree` — strings, cuts and comments of one line.
-/

namespace StLint.Source

open Text

/-! ## Comment removal on a line without comments -/

/-- The quote of the string that the scanner is inside of. -/
def Region.quote? : Region → Option Char
  | .quoted q | .escaped q => some q
  | _ => none

/-- The position `i` lies inside a string for comment removal. -/
def inLiteral (s : List Char) (i : Nat) : Bool :=
  (Region.after .code (s.take i)).quote?.isSome

/-- In a scan that starts in region `r`, the character at `i` stands behind a `$` and is the quote of
    the string around it. -/
def escapesQuoteAt (r : Region) (s : List Char) (i : Nat) : Bool :=
  match r.after (s.take i) with
  | .escaped q => s[i]? = some q
  | _ => false

/-- Some string holds its own quote, escaped, and text follows behind it. -/
def HoldsEscapedQuoteFrom (r : Region) (s : List Char) : Prop :=
  ∃ i < s.length - 1, escapesQuoteAt r s i = true

@[inherit_doc HoldsEscapedQuoteFrom]
def HoldsEscapedQuote (s : List Char) : Prop := HoldsEscapedQuoteFrom .code s

instance (r : Region) (s : List Char) : Decidable (HoldsEscapedQuoteFrom r s) :=
  inferInstanceAs (Decidable (∃ i < s.length - 1, _))

instance (s : List Char) : Decidable (HoldsEscapedQuote s) :=
  inferInstanceAs (Decidable (HoldsEscapedQuoteFrom .code s))

namespace Region

/-- Code, or a string that a quote has opened. -/
def IsKeeping : Region → Prop
  | .code => True
  | .quoted q | .escaped q => isQuote q = true
  | _ => False

/-- The region after a character that opens no comment. -/
def next : Region → Char → Region
  | .code, c => ofCode c
  | .quoted q, c => ofQuoted q c
  | .escaped q, _ => .quoted q
  | r, _ => r

theorem eq_code_of_quote? {r : Region} (hr : r.IsKeeping) (h : r.quote? = none) : r = .code := by
  cases r with
  | code => rfl
  | lineComment | blockComment => exact hr.elim
  | quoted q | escaped q => cases h

variable {r : Region} {c : Char} {s : List Char}

theorem IsKeeping.next (hr : r.IsKeeping) : (r.next c).IsKeeping := by
  cases r with
  | code =>
      show (ofCode c).IsKeeping
      rw [ofCode]
      split
      · assumption
      · trivial
  | lineComment | blockComment => exact hr
  | quoted q =>
      show (ofQuoted q c).IsKeeping
      rw [ofQuoted]
      split
      · exact hr
      · split
        · trivial
        · exact hr
  | escaped q => exact hr

/-- **One step of both scanners**: the open quote changes in the same way, unless the character is
    an escaped quote of the string. -/
theorem quote?_next (hr : r.IsKeeping) (hc : c ≠ '\n') (hescaped : r ≠ .escaped c) :
    (r.next c).quote? = Nesting.stepQuote r.quote? c := by
  cases r with
  | code =>
      show (ofCode c).quote? = if isQuote c then some c else none
      rw [ofCode]
      split <;> rfl
  | lineComment | blockComment => exact hr.elim
  | quoted q =>
      show (ofQuoted q c).quote? = if c = q then none else some q
      have hdollar : q ≠ '$' := by
        rintro rfl
        exact absurd (show isQuote '$' = true from hr) (by decide)
      rw [ofQuoted]
      by_cases h : c = '$'
      · rw [if_pos h, if_neg (h ▸ hdollar.symm)]
        rfl
      · rw [if_neg h]
        by_cases hq : c = q
        · rw [if_pos (by simp [hq]), if_pos hq]
          rfl
        · rw [if_neg (by simp [hq, hc]), if_neg hq]
          rfl
  | escaped q =>
      show some q = if c = q then none else some q
      rw [if_neg fun h => hescaped (congrArg Region.escaped h.symm)]

end Region

section Kept

variable {r : Region} {c : Char} {s : List Char}

/-- Code that is kept opens no comment. -/
theorem not_opening_of_kept (h : stripFrom .code (c :: s) = c :: s) :
    (∀ t, c = '/' → s = '/' :: t → False) ∧ (∀ t, c = '(' → s = '*' :: t → False) := by
  -- a comment costs two characters, and what is kept is no longer than the text
  have hcomment : ∀ (r : Region) (t : List Char), t.length ≤ s.length → stripFrom r t ≠ c :: s := by
    intro r t ht heq
    have hle := (stripFrom_sublist r t).length_le
    rw [heq, List.length_cons] at hle
    exact absurd (Nat.le_trans hle ht) (Nat.not_succ_le_self _)
  constructor
  · rintro t rfl rfl
    rw [stripFrom] at h
    exact hcomment .lineComment t (Nat.le_succ _) h
  · rintro t rfl rfl
    rw [stripFrom] at h
    exact hcomment .blockComment t (Nat.le_succ _) h

/-- The scanner goes on over a character that it keeps. -/
theorem stripFrom_next (hr : r.IsKeeping) (hc : c ≠ '\n') (h : stripFrom r (c :: s) = c :: s) :
    stripFrom (r.next c) s = s := by
  cases r with
  | code =>
      obtain ⟨hline, hblock⟩ := not_opening_of_kept h
      rw [stripFrom_code_cons hline hblock] at h
      exact (List.cons.inj h).2
  | lineComment | blockComment => exact hr.elim
  | quoted q =>
      rw [stripFrom] at h
      exact (List.cons.inj h).2
  | escaped q =>
      rw [stripFrom] at h
      · exact (List.cons.inj h).2
      · exact hc

/-- So does the region, over any beginning of what follows. -/
theorem Region.after_next (hr : r.IsKeeping) (hc : c ≠ '\n') (h : stripFrom r (c :: s) = c :: s)
    (i : Nat) : r.after ((c :: s).take (i + 1)) = (r.next c).after (s.take i) := by
  rw [List.take_succ_cons]
  cases r with
  | code =>
      obtain ⟨hline, hblock⟩ := not_opening_of_kept h
      have hprefix : ∀ {d t}, s.take i = d :: t → ∃ t', s = d :: t' := by
        intro d t ht
        refine ⟨t ++ s.drop i, ?_⟩
        rw [← List.cons_append, ← ht, List.take_append_drop]
      rw [after]
      · rfl
      · intro t hc ht
        obtain ⟨t', ht'⟩ := hprefix ht
        exact hline t' hc ht'
      · intro t hc ht
        obtain ⟨t', ht'⟩ := hprefix ht
        exact hblock t' hc ht'
  | lineComment | blockComment => exact hr.elim
  | quoted q =>
      rw [after]
      rfl
  | escaped q =>
      rw [after]
      · rfl
      · exact hc

/-- An escaped quote is the first character, or stands behind it. -/
theorem holdsEscapedQuoteFrom_cons (hr : r.IsKeeping) (hc : c ≠ '\n')
    (h : stripFrom r (c :: s) = c :: s) :
    HoldsEscapedQuoteFrom r (c :: s) ↔
      (s ≠ [] ∧ r = .escaped c) ∨ HoldsEscapedQuoteFrom (r.next c) s := by
  have hfirst : escapesQuoteAt r (c :: s) 0 = true ↔ r = .escaped c := by
    rw [escapesQuoteAt, List.take_zero, Region.after]
    cases r <;> simp [eq_comm]
  have hlater : ∀ i, escapesQuoteAt r (c :: s) (i + 1) = escapesQuoteAt (r.next c) s i := by
    intro i
    rw [escapesQuoteAt, escapesQuoteAt, Region.after_next hr hc h, List.getElem?_cons_succ]
  constructor
  · rintro ⟨i, hi, hescapes⟩
    rw [List.length_cons, Nat.add_sub_cancel] at hi
    cases i with
    | zero => exact Or.inl ⟨List.ne_nil_of_length_pos hi, hfirst.mp hescapes⟩
    | succ i =>
        rw [hlater] at hescapes
        exact Or.inr ⟨i, Nat.lt_sub_of_add_lt hi, hescapes⟩
  · rintro (⟨hs, hr⟩ | ⟨i, hi, hescapes⟩)
    · exact ⟨0, List.length_pos_iff.mpr hs, hfirst.mpr hr⟩
    · refine ⟨i + 1, Nat.add_lt_of_lt_sub hi, ?_⟩
      rw [hlater]
      exact hescapes

/-! ## Where the scanners part -/

/-- **The scanners agree on every character** of a text without comments if no string holds its own
    quote, escaped, and only then. By induction on the text; until such a quote the same one is open
    for both. -/
theorem forall_inLiteral_iff (hr : r.IsKeeping) (hs : '\n' ∉ s) (h : stripFrom r s = s) :
    (∀ i < s.length, (r.after (s.take i)).quote?.isSome
        = ((s.take i).foldl Nesting.stepQuote r.quote?).isSome) ↔
      ¬ HoldsEscapedQuoteFrom r s := by
  induction s generalizing r with
  | nil =>
      refine iff_of_true (fun i hi => nomatch hi) ?_
      rintro ⟨i, hi, -⟩
      exact nomatch hi
  | cons c s ih =>
      have hc : c ≠ '\n' := fun hc => hs (hc ▸ List.mem_cons_self ..)
      have ih := ih hr.next (fun hn => hs (List.mem_cons_of_mem c hn)) (stripFrom_next hr hc h)
      rw [holdsEscapedQuoteFrom_cons hr hc h, not_or, ← ih]
      -- the first character is not passed yet, and behind it both have made one step
      have hsplit : (∀ i < (c :: s).length, (r.after ((c :: s).take i)).quote?.isSome
            = (((c :: s).take i).foldl Nesting.stepQuote r.quote?).isSome) ↔
          ∀ i < s.length, ((r.next c).after (s.take i)).quote?.isSome
            = ((s.take i).foldl Nesting.stepQuote (Nesting.stepQuote r.quote? c)).isSome := by
        constructor
        · intro hall i hi
          have hnext := hall (i + 1) (Nat.succ_lt_succ hi)
          rwa [Region.after_next hr hc h] at hnext
        · intro hall i hi
          cases i with
          | zero => rfl
          | succ i =>
              rw [Region.after_next hr hc h]
              exact hall i (Nat.lt_of_succ_lt_succ hi)
      rw [hsplit]
      by_cases hescaped : r = .escaped c
      · -- the string goes on for one scanner and ends for the other
        subst hescaped
        have hends : Nesting.stepQuote (Region.quote? (.escaped c)) c = none := if_pos rfl
        rw [hends]
        by_cases hnil : s = []
        · subst hnil
          exact iff_of_true (fun i hi => nomatch hi)
            ⟨fun h => h.1 rfl, fun i hi => nomatch hi⟩
        · refine iff_of_false ?_ fun h => h.1 ⟨hnil, rfl⟩
          intro hall
          exact nomatch hall 0 (List.length_pos_iff.mpr hnil)
      · rw [Region.quote?_next hr hc hescaped]
        exact (and_iff_right fun h => hescaped h.2).symm

/-- **No comment trails a text** that comment removal leaves as it is and in which no string holds
    its own quote, escaped. -/
theorem trailingCommentFrom?_of_kept (hr : r.IsKeeping) (hs : '\n' ∉ s) (h : stripFrom r s = s)
    (hnone : ¬ HoldsEscapedQuoteFrom r s) : trailingCommentFrom? r.quote? s = none := by
  induction s generalizing r with
  | nil => rw [trailingCommentFrom?]
  | cons c s ih =>
      have hc : c ≠ '\n' := fun hc => hs (hc ▸ List.mem_cons_self ..)
      rw [holdsEscapedQuoteFrom_cons hr hc h, not_or] at hnone
      have hopening : ∀ x y : Char, (r = .code → ∀ t, c = x → s = y :: t → False) →
          ∀ t, r.quote? = none → c = x → s = y :: t → False :=
        fun _ _ hcode t hquote => hcode (Region.eq_code_of_quote? hr hquote) t
      rw [trailingCommentFrom?]
      · by_cases hescaped : r = .escaped c
        · -- nothing follows behind an escaped quote
          obtain rfl : s = [] := by
            by_contra hne
            exact hnone.1 ⟨hne, hescaped⟩
          rw [trailingCommentFrom?]
        · rw [← Region.quote?_next hr hc hescaped]
          exact ih hr.next (fun hn => hs (List.mem_cons_of_mem c hn)) (stripFrom_next hr hc h)
            hnone.2
      · exact hopening '/' '/' fun hcode => (not_opening_of_kept (hcode ▸ h)).1
      · exact hopening '(' '*' fun hcode => (not_opening_of_kept (hcode ▸ h)).2

end Kept

/-! ## Cuts -/

theorem quote_after (n : Nesting) (s : List Char) :
    (n.after s).quote = s.foldl Nesting.stepQuote n.quote := by
  rw [Nesting.after_eq]
  rfl

theorem quote_of_isFree {n : Nesting} {c : Char} (h : n.isFree c = true) : n.quote = none := by
  simp only [Nesting.isFree, Bool.and_eq_true, Option.isNone_iff_eq_none] at h
  exact h.1.1.1.1

/-- A separator at `i` parts the pieces of a text. -/
def IsCutFrom (sep : Char) (n : Nesting) (s : List Char) (i : Nat) : Prop :=
  ∃ left right, left ≠ [] ∧ right ≠ [] ∧ topLevelPieces sep n s = left ++ right ∧
    ([sep].intercalate left).length = i

@[inherit_doc IsCutFrom]
def IsCut (sep : Char) (s : List Char) (i : Nat) : Prop := IsCutFrom sep .start s i

/-- **A cut is made where no quote is open.** -/
theorem IsCutFrom.quote {sep : Char} {n : Nesting} {s : List Char} {i : Nat}
    (h : IsCutFrom sep n s i) : (n.after (s.take i)).quote = none := by
  obtain ⟨left, right, hleft, hright, hpieces, rfl⟩ := h
  -- the cut lies between the last piece before it and the first one behind it
  obtain ⟨left, p, rfl⟩ := (List.eq_nil_or_concat left).resolve_left hleft
  obtain ⟨q, right, rfl⟩ := List.exists_cons_of_ne_nil hright
  rw [List.concat_append] at hpieces
  have hprefix := intercalate_prefix sep left p q right
  rw [← hpieces, intercalate_topLevelPieces] at hprefix
  rw [List.concat_eq_append, ← List.prefix_iff_eq_take.mp hprefix]
  exact quote_of_isFree ((split_topLevelPieces sep n s).isFree hpieces)

/-- **A phrase at top level is found where no quote is open.** -/
theorem quote_of_findTopLevelFrom? {phrase : List Char} {n : Nesting} {s : List Char} {i : Nat}
    (h : findTopLevelFrom? phrase n s = some i) : (n.after (s.take i)).quote = none := by
  induction s generalizing n i with
  | nil => cases h
  | cons c r ih =>
      rw [findTopLevelFrom?] at h
      by_cases hfree : (n.isFree c && phrase.isPrefixOf (c :: r)) = true
      · rw [if_pos hfree] at h
        obtain rfl := Option.some.inj h
        exact quote_of_isFree (Bool.and_eq_true_iff.mp hfree).1
      · rw [if_neg hfree] at h
        obtain ⟨j, hj, rfl⟩ := Option.map_eq_some_iff.mp h
        exact ih hj

/-! ## One line -/

/-- **What a string literal is.** On a line that comment removal leaves as it is, it agrees with
    `inQuotes` on every character exactly if no string holds its own quote, escaped. Then no separator
    and no phrase inside a string is a cut or a match, and whenever a comment trails such a line,
    comment removal removes one. -/
theorem literals_agree {line : List Char} (hline : ∀ c ∈ line, isLineBreak c = false) :
    (stripComments line = line →
      ((∀ i < line.length, inLiteral line i = inQuotes line i) ↔ ¬ HoldsEscapedQuote line)) ∧
    (stripComments line = line → ¬ HoldsEscapedQuote line →
      ∀ i < line.length, inLiteral line i = true →
        (∀ sep, ¬ IsCut sep line i) ∧ ∀ phrase, findTopLevel? phrase line ≠ some i) ∧
    (¬ HoldsEscapedQuote line → (trailingComment? line).isSome = true →
      stripComments line ≠ line) := by
  have hlf : '\n' ∉ line := fun h => absurd (hline _ h) (by decide)
  have hcr : '\r' ∉ line := fun h => absurd (hline _ h) (by decide)
  have hstrip : stripComments line = stripFrom .code line := by
    rw [stripComments, normalizeLineEndings_eq_self hcr]
  have hagree : stripComments line = line →
      ((∀ i < line.length, inLiteral line i = inQuotes line i) ↔ ¬ HoldsEscapedQuote line) :=
    fun hkept => forall_inLiteral_iff (r := .code) trivial hlf (hstrip ▸ hkept)
  have hquote : ∀ i, (Nesting.start.after (line.take i)).quote.isSome = inQuotes line i := by
    intro i
    rw [quote_after]
    rfl
  refine ⟨hagree, ?_, ?_⟩
  · intro hkept hnone i hi hinside
    rw [(hagree hkept).mpr hnone i hi, ← hquote] at hinside
    refine ⟨?_, ?_⟩
    · intro sep hcut
      rw [hcut.quote] at hinside
      cases hinside
    · intro phrase hfound
      rw [quote_of_findTopLevelFrom? hfound] at hinside
      cases hinside
  · intro hnone htrails hkept
    have htrailing := trailingCommentFrom?_of_kept (r := .code) trivial hlf (hstrip ▸ hkept) hnone
    have : trailingComment? line = none := htrailing
    rw [this] at htrails
    cases htrails

/-- A call with marks of comments and separators in its strings, and a `$` that escapes no quote. -/
def quotedMarks : List Char := "f(a := 'x; // $$', b := \"(* y, z\");".toList

/-- The semicolon in the first string of the call is no cut. -/
theorem literals_agree_quotedMarks :
    stripComments quotedMarks = quotedMarks ∧ inLiteral quotedMarks 9 = true ∧
      ¬ IsCut ';' quotedMarks 9 ∧
      ∀ i < quotedMarks.length, inLiteral quotedMarks i = inQuotes quotedMarks i := by
  have hline : ∀ c ∈ quotedMarks, isLineBreak c = false := by
    -- over the list: deciding the statement as it stands can run through every character there is
    have hall : quotedMarks.all (!isLineBreak ·) = true := by decide +kernel
    simpa using hall
  have hkept : stripComments quotedMarks = quotedMarks := by decide +kernel
  have hnone : ¬ HoldsEscapedQuote quotedMarks := by decide +kernel
  have hinside : inLiteral quotedMarks 9 = true := by decide +kernel
  have hlength : 9 < quotedMarks.length := by decide +kernel
  obtain ⟨hagree, hcuts, -⟩ := literals_agree hline
  exact ⟨hkept, hinside, (hcuts hkept hnone 9 hlength hinside).1 ';', (hagree hkept).mpr hnone⟩

/-- **The scanners part** behind an escaped quote: comment removal leaves the line as it is, and still
    a comment trails it. -/
theorem comment_trails_escaped_quote :
    stripComments "s : STRING := 'it$'s // fine';".toList = "s : STRING := 'it$'s // fine';".toList ∧
      inLiteral "s : STRING := 'it$'s // fine';".toList 21 = true ∧
      inQuotes "s : STRING := 'it$'s // fine';".toList 21 = false ∧
      trailingComment? "s : STRING := 'it$'s // fine';".toList = some "fine';".toList := by
  decide +kernel

end StLint.Source

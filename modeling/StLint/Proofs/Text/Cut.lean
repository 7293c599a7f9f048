import StLint.Proofs.Text.Nesting
import StLint.Proofs.Text.Word

/-!
# Cuts lose nothing

Each scanner answers with positions or with the two sides of a cut. Here it is read backwards: from
an answer to **the text it was given**, which is the sides with what stood between them.

* `compact` — the characters of a text that are not white space, in upper case.
* `compact_append`, `compact_trim`, `compact_intercalate_congr` — parts are compared one by one.
* `findWordFrom?_eq_some`, `cutTopLevel?_eq_some` — a word, a phrase at top level.
* `intercalate_topLevelPieces` — the pieces joined by the separator.
* `splitCall?_eq_some` — a name, white space and brackets around the arguments.
* `splitTopLevel_trim` — the parts of a text are those of its trim.
-/

/-! ## Up to white space and case

The analysis is free to trim what it cuts and to write an operator in its own case. What it must not
do is lose anything else. -/

namespace StLint.Text

/-- The characters of a text other than white space, in upper case. -/
def compact (s : List Char) : List Char := upper (s.filter fun c => !isBlank c)

/-- Case does not make a character white space. -/
theorem isBlank_toUpper (c : Char) : isBlank c.toUpper = isBlank c :=
  toUpper_of_no_letter (fun _ hd => not_blank_of_wordChar (wordChar_of_letter hd)) c

theorem compact_append (s t : List Char) : compact (s ++ t) = compact s ++ compact t := by
  rw [compact, List.filter_append, upper_append]
  rfl

theorem compact_of_blank {w : List Char} (hw : ∀ c ∈ w, isBlank c = true) : compact w = [] := by
  have hnone : w.filter (fun c => !isBlank c) = [] := by
    rw [List.filter_eq_nil_iff]
    intro c hc
    rw [hw c hc]
    decide
  rw [compact, hnone]
  rfl

/-- Trimming takes away nothing else. -/
theorem compact_trim (s : List Char) : compact (trim s) = compact s := by
  obtain ⟨v, w, hv, hw, hs⟩ := exists_trim_parts s
  conv_rhs => rw [← hs]
  rw [compact_append, compact_append, compact_of_blank hv, compact_of_blank hw, List.nil_append,
    List.append_nil]

/-- The characters that are kept do not depend on their case. -/
theorem compact_eq_filter_upper (s : List Char) :
    compact s = (upper s).filter fun c => !isBlank c := by
  rw [compact, upper, upper, List.filter_map]
  congr 1
  refine List.filter_congr ?_
  intro c _
  show (!isBlank c) = !isBlank c.toUpper
  rw [isBlank_toUpper]

theorem compact_eq_of_upper_eq {s t : List Char} (h : upper s = upper t) : compact s = compact t := by
  rw [compact_eq_filter_upper, compact_eq_filter_upper, h]

/-- **Parts that agree are joined to texts that agree.** -/
theorem compact_intercalate_congr (sep : List Char) {ss ts : List (List Char)}
    (h : List.Forall₂ (fun s t => compact s = compact t) ss ts) :
    compact (sep.intercalate ss) = compact (sep.intercalate ts) := by
  induction h with
  | nil => rfl
  | cons hst hrest ih =>
      cases hrest with
      | nil => simpa using hst
      | cons =>
          rw [List.intercalate_cons_cons, List.intercalate_cons_cons, compact_append,
            compact_append, compact_append, compact_append, hst, ih]

/-! ## One place -/

/-- A word stands where it is found. -/
theorem findWordFrom?_eq_some {word : List Char} {prev : Option Char} {s : List Char} {i : Nat}
    (h : findWordFrom? word prev s = some i) : ∃ p, wordAt word p (s.drop i) = true := by
  induction s generalizing prev i with
  | nil => exact nomatch h
  | cons c r ih =>
      rw [findWordFrom?] at h
      by_cases hc : wordAt word prev (c :: r) = true
      · rw [if_pos hc] at h
        obtain rfl := Option.some.inj h
        exact ⟨prev, hc⟩
      · rw [if_neg hc] at h
        obtain ⟨j, hj, rfl⟩ := Option.map_eq_some_iff.mp h
        exact ih hj

/-- A phrase stands where it is found at top level. -/
theorem findTopLevelFrom?_eq_some {phrase : List Char} {n : Nesting} {s : List Char} {i : Nat}
    (h : findTopLevelFrom? phrase n s = some i) : phrase <+: s.drop i := by
  induction s generalizing n i with
  | nil => exact nomatch h
  | cons c r ih =>
      rw [findTopLevelFrom?] at h
      by_cases hc : (n.isFree c && phrase.isPrefixOf (c :: r)) = true
      · rw [if_pos hc] at h
        obtain rfl := Option.some.inj h
        rw [Bool.and_eq_true, List.isPrefixOf_iff_prefix] at hc
        exact hc.2
      · rw [if_neg hc] at h
        obtain ⟨j, hj, rfl⟩ := Option.map_eq_some_iff.mp h
        exact ih hj

/-- **The two sides of a cut** with the phrase between them are the text. -/
theorem cutTopLevel?_eq_some {phrase : String} {s a b : List Char}
    (h : cutTopLevel? phrase s = some (a, b)) : s = a ++ (phrase.toList ++ b) := by
  obtain ⟨i, hi, hab⟩ := Option.map_eq_some_iff.mp h
  obtain ⟨rfl, rfl⟩ := Prod.mk.inj hab
  obtain ⟨r, hr⟩ := findTopLevelFrom?_eq_some hi
  have hdrop : s.drop (i + phrase.length) = r := by
    rw [← List.drop_drop, ← hr, ← String.length_toList, List.drop_left]
  rw [hdrop, hr, List.take_append_drop]

/-! ## Parts at top level -/

theorem topLevelPieces_ne_nil (sep : Char) (n : Nesting) (s : List Char) :
    topLevelPieces sep n s ≠ [] := by
  cases s with
  | nil => exact List.cons_ne_nil [] []
  | cons c r =>
      rw [topLevelPieces]
      by_cases hc : (n.isFree c && decide (c = sep)) = true
      · rw [if_pos hc]
        exact List.cons_ne_nil _ _
      · rw [if_neg hc]
        cases topLevelPieces sep (n.step c) r <;> exact List.cons_ne_nil _ _

/-- **The pieces joined by the separator** are the text. -/
theorem intercalate_topLevelPieces (sep : Char) (n : Nesting) (s : List Char) :
    [sep].intercalate (topLevelPieces sep n s) = s := by
  induction s generalizing n with
  | nil => rfl
  | cons c r ih =>
      obtain ⟨p, ps, hp⟩ := List.exists_cons_of_ne_nil (topLevelPieces_ne_nil sep (n.step c) r)
      have hr := ih (n.step c)
      rw [topLevelPieces, hp]
      rw [hp] at hr
      by_cases hc : (n.isFree c && decide (c = sep)) = true
      · rw [if_pos hc, List.intercalate_cons_cons, hr]
        rw [Bool.and_eq_true, decide_eq_true_eq] at hc
        rw [hc.2]
        rfl
      · rw [if_neg hc]
        show [sep].intercalate ((c :: p) :: ps) = c :: r
        rw [← hr]
        cases ps with
        | nil => simp
        | cons q ps => rw [List.intercalate_cons_cons, List.intercalate_cons_cons]; rfl

/-! ## White space around the parts -/

/-- White space opens and closes nothing. -/
theorem isFlat_of_blank {c : Char} (h : isBlank c = true) : isFlat c = true :=
  isFlat_of_class (by decide) h

/-- Outside strings white space at the start only makes the first piece longer. -/
theorem topLevelPieces_blank_append {sep : Char} (hsep : isBlank sep = false) {w : List Char}
    (hw : ∀ c ∈ w, isBlank c = true) {s p : List Char} {ps : List (List Char)}
    (h : topLevelPieces sep .start s = p :: ps) :
    topLevelPieces sep .start (w ++ s) = (w ++ p) :: ps := by
  induction w with
  | nil => exact h
  | cons c w ih =>
      have hc := hw c (List.mem_cons_self ..)
      have hne : ¬ (Nesting.start.isFree c && decide (c = sep)) = true := by
        rintro hfree
        rw [Bool.and_eq_true, decide_eq_true_eq] at hfree
        rw [hfree.2, hsep] at hc
        exact nomatch hc
      have hstep : Nesting.start.step c = .start := step_of_isFlat (isFlat_of_blank hc) 0
      rw [List.cons_append, topLevelPieces, if_neg hne, hstep,
        ih fun d hd => hw d (List.mem_cons_of_mem c hd)]
      rfl

/-- White space at the end only makes the last piece longer. -/
theorem topLevelPieces_append_blank {sep : Char} (hsep : isBlank sep = false) (n : Nesting)
    (s : List Char) {w : List Char} (hw : ∀ c ∈ w, isBlank c = true) :
    ∃ ps p, topLevelPieces sep n s = ps ++ [p] ∧ topLevelPieces sep n (s ++ w) = ps ++ [p ++ w] := by
  induction s generalizing n with
  | nil =>
      have hmem : sep ∉ w := by
        intro h
        rw [hw sep h] at hsep
        exact nomatch hsep
      exact ⟨[], [], rfl, topLevelPieces_of_not_mem hmem n⟩
  | cons c r ih =>
      obtain ⟨ps, p, hr, hrw⟩ := ih (n.step c)
      rw [List.cons_append, topLevelPieces, topLevelPieces, hr, hrw]
      by_cases hc : (n.isFree c && decide (c = sep)) = true
      · rw [if_pos hc, if_pos hc]
        exact ⟨[] :: ps, p, rfl, rfl⟩
      · rw [if_neg hc, if_neg hc]
        cases ps with
        | nil => exact ⟨[], c :: p, rfl, rfl⟩
        | cons q ps => exact ⟨(c :: q) :: ps, p, rfl, rfl⟩

/-- The parts of a text are those of its trim. -/
theorem splitTopLevel_trim {sep : Char} (hsep : isBlank sep = false) (s : List Char) :
    splitTopLevel sep (trim s) = splitTopLevel sep s := by
  have hblank : allBlank (trim s) = allBlank s := by
    rw [Bool.eq_iff_iff, allBlank_iff, allBlank_iff, ← trim_eq_nil_iff, ← trim_eq_nil_iff, trim_trim]
  rw [splitTopLevel, splitTopLevel, hblank]
  by_cases hall : allBlank s = true
  · rw [if_pos hall, if_pos hall]
  rw [if_neg hall, if_neg hall]
  obtain ⟨v, w, hv, hw, hs⟩ := exists_trim_parts s
  obtain ⟨p, ps, hp⟩ := List.exists_cons_of_ne_nil (topLevelPieces_ne_nil sep .start (trim s ++ w))
  have hstart : (topLevelPieces sep .start s).map trim
      = (topLevelPieces sep .start (trim s ++ w)).map trim := by
    conv_lhs => rw [← hs]
    rw [topLevelPieces_blank_append hsep hv hp, hp, List.map_cons, List.map_cons,
      trim_blank_append hv]
  obtain ⟨qs, q, hq, hqw⟩ := topLevelPieces_append_blank hsep .start (trim s) hw
  rw [hstart, hq, hqw, List.map_append, List.map_append, List.map_singleton, List.map_singleton,
    trim_append_of_blank q hw]

/-! ## Calls -/

theorem closingParen?_eq_some {quote : Option Char} {depth : Nat} {s inside rest : List Char}
    (h : closingParen? quote depth s = some (inside, rest)) : s = inside ++ ')' :: rest := by
  induction s generalizing quote depth inside with
  | nil => exact nomatch h
  | cons c r ih =>
      -- whatever bracket or quote `c` is, it is passed on to what is inside
      have hpass : ∀ {q : Option Char} {d : Nat}, (closingParen? q d r).map
          (fun x => (c :: x.1, x.2)) = some (inside, rest) → c :: r = inside ++ ')' :: rest := by
        intro q d hmap
        obtain ⟨⟨i, t⟩, hi, hit⟩ := Option.map_eq_some_iff.mp hmap
        obtain ⟨rfl, rfl⟩ := Prod.mk.inj hit
        rw [List.cons_append, ← ih hi]
      rw [closingParen?.eq_def] at h
      dsimp only at h
      by_cases hc : (quote.isNone && decide (c = ')')) = true
      · rw [if_pos hc] at h
        rw [Bool.and_eq_true, decide_eq_true_eq] at hc
        cases depth with
        | zero =>
            obtain ⟨rfl, rfl⟩ := Prod.mk.inj (Option.some.inj h)
            rw [hc.2]
            rfl
        | succ d => exact hpass h
      · rw [if_neg hc] at h
        exact hpass h

/-- **A call is its name, white space and brackets around its arguments.** -/
theorem splitCall?_eq_some {s name args : List Char} (h : splitCall? s = some (name, args)) :
    isQualified name = true ∧
      ∃ w, (∀ c ∈ w, isBlank c = true) ∧ trim s = name ++ (w ++ '(' :: (args ++ [')'])) := by
  rw [splitCall?] at h
  dsimp only at h
  cases hd : (trim s).dropWhile (· ≠ '(') with
  | nil =>
      rw [hd] at h
      exact nomatch h
  | cons c r =>
      rw [hd] at h
      dsimp only at h
      by_cases hq : isQualified (trimEnd ((trim s).takeWhile (· ≠ '('))) = true
      · rw [if_pos hq] at h
        cases hp : closingParen? none 0 r with
        | none =>
            rw [hp] at h
            exact nomatch h
        | some cut =>
            obtain ⟨inside, rest⟩ := cut
            rw [hp] at h
            cases rest with
            | cons d t => exact nomatch h
            | nil =>
                obtain ⟨rfl, rfl⟩ := Prod.mk.inj (Option.some.inj h)
                obtain ⟨w, hw, hname⟩ := exists_trimEnd_append ((trim s).takeWhile (· ≠ '('))
                have hparen : (trim s).dropWhile (· ≠ '(') = '(' :: (inside ++ [')']) := by
                  rw [hd, eq_of_dropWhile_ne hd, closingParen?_eq_some hp]
                refine ⟨hq, w, hw, ?_⟩
                rw [← List.append_assoc, hname, ← hparen, List.takeWhile_append_dropWhile]
      · rw [if_neg hq] at h
        exact nomatch h

end StLint.Text

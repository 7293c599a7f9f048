import StLint.Proofs.Text.Folding
import StLint.Proofs.Text.Lines

/-!
# Words and names

A keyword is found as a whole word, so **a text without it can be put in front**: the search passes
over the text and finds the keyword where it stands behind it. A dotted name leads a text with its
first component.

* `wordAt_iff` — what it means that a word stands at the start of a text.
* `findWord?_append_blank_word` — a keyword behind a text that does not contain it.
* `containsWord_of_wordAt` — a word that stands somewhere is found.
* `containsWord_trim` — trimming brings no keyword into a text.
* `leadingWord_qualified_append` — a dotted name leads with its first component.
-/

namespace StLint.Text

/-! ## Keywords -/

/-- A character that is a word character in upper case is one. -/
theorem isWordChar_of_toUpper {c : Char} (h : isWordChar c.toUpper = true) :
    isWordChar c = true := by
  by_cases hc : 'a'.val ≤ c.val ∧ c.val ≤ 'z'.val
  · have hle : 'a' ≤ c ∧ c ≤ 'z' := hc
    simp [isWordChar, isLetter, hle]
  · rw [toUpper_of_not_lower hc] at h
    exact h

/-- A keyword, all of whose characters are word characters. -/
def IsKeyword (word : List Char) : Prop := word ≠ [] ∧ ∀ k ∈ upper word, isWordChar k = true

theorem isKeyword_of_all {word : List Char}
    (h : (!word.isEmpty && (upper word).all isWordChar) = true) : IsKeyword word := by
  rw [Bool.and_eq_true, Bool.not_eq_true', List.isEmpty_eq_false_iff, List.all_eq_true] at h
  exact h

theorem wordChar_of_upper_eq {word t : List Char} (hw : IsKeyword word)
    (ht : upper t = upper word) : ∀ c ∈ t, isWordChar c = true := by
  intro c hc
  refine isWordChar_of_toUpper (hw.2 _ ?_)
  rw [← ht]
  exact List.mem_map_of_mem hc

theorem IsKeyword.wordChar {word : List Char} (hw : IsKeyword word) :
    ∀ c ∈ word, isWordChar c = true := wordChar_of_upper_eq hw rfl

theorem length_eq_of_upper_eq {s t : List Char} (h : upper s = upper t) : s.length = t.length := by
  rw [← length_upper s, h, length_upper]

/-- **A word stands at the start of a text** when the text begins with it in some case, and no word
    character stands on either side. -/
theorem wordAt_iff {word s : List Char} {prev : Option Char} :
    wordAt word prev s = true
      ↔ ∃ t rest, s = t ++ rest ∧ upper t = upper word ∧ prev.any isWordChar = false ∧
          rest.head?.any isWordChar = false := by
  rw [wordAt, Bool.and_eq_true, Bool.and_eq_true, Bool.not_eq_true', Bool.not_eq_true',
    List.isPrefixOf_iff_prefix]
  constructor
  · rintro ⟨⟨hw, hp⟩, hr⟩
    refine ⟨s.take word.length, s.drop word.length, (List.take_append_drop ..).symm, ?_, hp, hr⟩
    refine (List.IsPrefix.eq_of_length_le hw ?_).symm
    rw [length_upper, length_upper]
    exact List.length_take_le ..
  · rintro ⟨t, rest, rfl, ht, hp, hr⟩
    have hlen := length_eq_of_upper_eq ht
    rw [← hlen, List.take_left, List.drop_left, ht]
    exact ⟨⟨List.prefix_refl _, hp⟩, hr⟩

/-- No word begins where a character stands that is in no word. -/
theorem not_wordAt_cons {word r : List Char} {c : Char} {prev : Option Char} (hw : IsKeyword word)
    (hc : isWordChar c = false) : ¬ wordAt word prev (c :: r) = true := by
  rw [wordAt_iff]
  rintro ⟨t, rest, h, ht, -, -⟩
  cases t with
  | nil => exact hw.1 (List.map_eq_nil_iff.mp ht.symm)
  | cons d t =>
      have hd := wordChar_of_upper_eq hw ht d (List.mem_cons_self ..)
      rw [← (List.cons.inj h).1, hc] at hd
      exact nomatch hd

/-- What stands behind a text does not change whether a word stands at its start, as long as it does
    not begin with a word character. -/
theorem wordAt_append {word s r : List Char} {prev : Option Char} (hw : IsKeyword word)
    (hs : s ≠ []) (hr : r.head?.any isWordChar = false) :
    wordAt word prev (s ++ r) = wordAt word prev s := by
  rw [Bool.eq_iff_iff, wordAt_iff, wordAt_iff]
  constructor
  · rintro ⟨t, rest, h, ht, hp, hrest⟩
    rcases List.append_eq_append_iff.mp h with ⟨a, rfl, rfl⟩ | ⟨a, rfl, rfl⟩
    · -- the word ends behind the text: then nothing of it stands there
      cases a with
      | nil => exact ⟨s, [], (List.append_nil s).symm, by rwa [List.append_nil] at ht, hp, rfl⟩
      | cons c a =>
          have hc := wordChar_of_upper_eq hw ht c
            (List.mem_append_right s (List.mem_cons_self ..))
          rw [List.cons_append, List.head?_cons, Option.any_some, hc] at hr
          exact nomatch hr
    · refine ⟨t, a, rfl, ht, hp, ?_⟩
      cases a with
      | nil => rfl
      | cons c a => exact hrest
  · rintro ⟨t, rest, rfl, ht, hp, hrest⟩
    refine ⟨t, rest ++ r, List.append_assoc .., ht, hp, ?_⟩
    cases rest with
    | nil => exact hr
    | cons c rest => exact hrest

/-- The character before a place, when the text before it grows at its start. -/
private theorem getLast?_cons_or (c : Char) (s : List Char) (prev : Option Char) :
    ((c :: s).getLast?).or prev = (s.getLast?).or (some c) := by
  cases s with
  | nil => rfl
  | cons d s => simp [List.getLast?_cons]

/-- The search passes over a text without the word. -/
theorem findWordFrom?_append {word x r : List Char} {prev : Option Char} (hw : IsKeyword word)
    (hx : findWordFrom? word prev x = none) (hr : r.head?.any isWordChar = false) :
    findWordFrom? word prev (x ++ r)
      = (findWordFrom? word (x.getLast?.or prev) r).map (x.length + ·) := by
  induction x generalizing prev with
  | nil => cases h : findWordFrom? word prev r <;> simp [h]
  | cons c x ih =>
      rw [findWordFrom?] at hx
      by_cases hc : wordAt word prev (c :: x) = true
      · rw [if_pos hc] at hx
        exact nomatch hx
      · rw [if_neg hc, Option.map_eq_none_iff] at hx
        have hwhole : ¬ wordAt word prev (c :: (x ++ r)) = true := by
          rw [← List.cons_append, wordAt_append hw (List.cons_ne_nil c x) hr]
          exact hc
        rw [List.cons_append, findWordFrom?, if_neg hwhole, ih hx, Option.map_map,
          getLast?_cons_or]
        refine Option.map_congr ?_
        intro i _
        show x.length + i + 1 = x.length + 1 + i
        omega

/-- **A keyword behind a text that does not contain it** is found after one blank. -/
theorem findWord?_append_blank_word {word : String} {x : List Char} (hw : IsKeyword word.toList)
    (hx : containsWord word x = false) :
    findWord? word (x ++ ' ' :: word.toList) = some (x.length + 1) := by
  have hne : ¬ word.toList.isEmpty = true := fun h => hw.1 (List.isEmpty_iff.mp h)
  rw [containsWord, findWord?, if_neg hne, Option.isSome_eq_false_iff, Option.isNone_iff_eq_none] at hx
  -- the blank is no part of the keyword, so the search goes one further
  have hblank : ¬ wordAt word.toList (x.getLast?.or none) (' ' :: word.toList) = true :=
    not_wordAt_cons hw rfl
  have hword : wordAt word.toList (some ' ') word.toList = true := by
    rw [wordAt_iff]
    exact ⟨word.toList, [], (List.append_nil _).symm, rfl, rfl, rfl⟩
  obtain ⟨c, r, hcr⟩ := List.exists_cons_of_ne_nil hw.1
  rw [findWord?, if_neg hne, findWordFrom?_append hw hx rfl, findWordFrom?, if_neg hblank]
  rw [hcr] at hword ⊢
  rw [findWordFrom?, if_pos hword]
  rfl

/-- A word that stands somewhere in a text is found. -/
theorem findWordFrom?_ne_none_of_wordAt {word : List Char} {prev : Option Char} {u v : List Char}
    (hv : v ≠ []) (h : wordAt word (u.getLast?.or prev) v = true) :
    findWordFrom? word prev (u ++ v) ≠ none := by
  induction u generalizing prev with
  | nil =>
      obtain ⟨c, r, rfl⟩ := List.exists_cons_of_ne_nil hv
      rw [List.getLast?_nil, Option.none_or] at h
      rw [List.nil_append, findWordFrom?, if_pos h]
      exact fun h => nomatch h
  | cons c u ih =>
      rw [getLast?_cons_or] at h
      rw [List.cons_append, findWordFrom?]
      by_cases hc : wordAt word prev (c :: (u ++ v)) = true
      · rw [if_pos hc]
        exact fun h => nomatch h
      · rw [if_neg hc, Ne, Option.map_eq_none_iff]
        exact ih h

/-- **A word behind a blank is found.** -/
theorem containsWord_of_wordAt {word : String} {u v : List Char} {b : Char}
    (hne : word.toList ≠ []) (h : wordAt word.toList (some b) v = true) :
    containsWord word (u ++ b :: v) = true := by
  have hv : v ≠ [] := by
    rintro rfl
    obtain ⟨t, rest, hnil, ht, -, -⟩ := wordAt_iff.mp h
    rw [(List.append_eq_nil_iff.mp hnil.symm).1] at ht
    exact hne (List.map_eq_nil_iff.mp ht.symm)
  have hfound := @findWordFrom?_ne_none_of_wordAt word.toList none (u ++ [b]) v hv
    (by rw [List.getLast?_concat]; exact h)
  rw [List.append_assoc] at hfound
  rw [containsWord, findWord?, if_neg (fun h => hne (List.isEmpty_iff.mp h)),
    Option.isSome_iff_ne_none]
  exact hfound

/-! ## Keywords of a trimmed text -/

private theorem containsWord_eq_false_iff {word : String} (hw : word.toList ≠ []) {s : List Char} :
    containsWord word s = false ↔ findWordFrom? word.toList none s = none := by
  rw [containsWord, findWord?, if_neg (fun h => hw (List.isEmpty_iff.mp h)),
    Option.isSome_eq_false_iff, Option.isNone_iff_eq_none]

/-- The search only asks whether the character before the text is a word character. -/
theorem findWordFrom?_congr {word : List Char} {p q : Option Char} (s : List Char)
    (h : p.any isWordChar = q.any isWordChar) :
    findWordFrom? word p s = findWordFrom? word q s := by
  cases s with
  | nil => rfl
  | cons c r => rw [findWordFrom?, findWordFrom?, wordAt, wordAt, h]

/-- No word begins behind a character of a word. -/
theorem findWordFrom?_of_wordChar (word : List Char) {prev : Char} (hprev : isWordChar prev = true)
    {s : List Char} (hs : ∀ c ∈ s, isWordChar c = true) :
    findWordFrom? word (some prev) s = none := by
  induction s generalizing prev with
  | nil => rfl
  | cons c r ih =>
      have hat : wordAt word (some prev) (c :: r) = false := by
        simp [wordAt, hprev]
      rw [findWordFrom?, hat, if_neg Bool.false_ne_true,
        ih (hs c (List.mem_cons_self ..)) fun d hd => hs d (List.mem_cons_of_mem c hd)]
      rfl

/-- In a run of word characters a word is found at the start or not at all. -/
theorem findWord?_of_wordChar (word : String) {s : List Char} (hs : ∀ c ∈ s, isWordChar c = true) :
    findWord? word s = none ∨ findWord? word s = some 0 := by
  rw [findWord?]
  by_cases hempty : word.toList.isEmpty = true
  · exact Or.inl (if_pos hempty)
  · rw [if_neg hempty]
    cases s with
    | nil => exact Or.inl rfl
    | cons c r =>
        rw [findWordFrom?]
        by_cases hat : wordAt word.toList none (c :: r) = true
        · exact Or.inr (if_pos hat)
        · rw [if_neg hat, findWordFrom?_of_wordChar _ (hs c (List.mem_cons_self ..))
            fun d hd => hs d (List.mem_cons_of_mem c hd)]
          exact Or.inl rfl

/-- A word that a text does not contain is not found from a later place on. -/
theorem findWordFrom?_of_append_left {word : List Char} {prev : Option Char} {u v : List Char}
    (h : findWordFrom? word prev (u ++ v) = none) :
    findWordFrom? word (u.getLast?.or prev) v = none := by
  induction u generalizing prev with
  | nil => exact h
  | cons c u ih =>
      rw [List.cons_append, findWordFrom?] at h
      by_cases hc : wordAt word prev (c :: (u ++ v)) = true
      · rw [if_pos hc] at h
        exact nomatch h
      · rw [if_neg hc, Option.map_eq_none_iff] at h
        rw [getLast?_cons_or]
        exact ih h

/-- A word that a text does not contain is not found before the last of its words. -/
theorem findWordFrom?_of_append_right {word : List Char} (hw : IsKeyword word) {prev : Option Char}
    {s r : List Char} (hr : r.head?.any isWordChar = false)
    (h : findWordFrom? word prev (s ++ r) = none) : findWordFrom? word prev s = none := by
  induction s generalizing prev with
  | nil => rfl
  | cons c s ih =>
      rw [List.cons_append, findWordFrom?, ← List.cons_append,
        wordAt_append hw (List.cons_ne_nil c s) hr] at h
      by_cases hc : wordAt word prev (c :: s) = true
      · rw [if_pos hc] at h
        exact nomatch h
      · rw [if_neg hc, Option.map_eq_none_iff] at h
        rw [findWordFrom?, if_neg hc, ih h]
        rfl

theorem not_wordChar_getLast?_of_blank {w : List Char} (hw : ∀ c ∈ w, isBlank c = true) :
    w.getLast?.any isWordChar = false := by
  cases h : w.getLast? with
  | none => rfl
  | some c =>
      rw [Option.any_some]
      exact not_wordChar_of_blank (hw c (List.mem_of_getLast? h))

theorem not_wordChar_head?_of_blank {w : List Char} (hw : ∀ c ∈ w, isBlank c = true) :
    w.head?.any isWordChar = false := by
  cases w with
  | nil => rfl
  | cons c r =>
      rw [List.head?_cons, Option.any_some]
      exact not_wordChar_of_blank (hw c (List.mem_cons_self ..))

theorem containsWord_trimStart {word : String} (hw : word.toList ≠ []) {s : List Char}
    (h : containsWord word s = false) : containsWord word (trimStart s) = false := by
  obtain ⟨w, hblank, hs⟩ := exists_append_trimStart s
  rw [containsWord_eq_false_iff hw] at h ⊢
  rw [← hs] at h
  have hlater := findWordFrom?_of_append_left h
  rw [Option.or_none] at hlater
  have hprev : (none : Option Char).any isWordChar = w.getLast?.any isWordChar :=
    (not_wordChar_getLast?_of_blank hblank).symm
  exact (findWordFrom?_congr _ hprev).trans hlater

theorem containsWord_trimEnd {word : String} (hw : IsKeyword word.toList) {s : List Char}
    (h : containsWord word s = false) : containsWord word (trimEnd s) = false := by
  obtain ⟨w, hblank, hs⟩ := exists_trimEnd_append s
  rw [containsWord_eq_false_iff hw.1] at h ⊢
  rw [← hs] at h
  exact findWordFrom?_of_append_right hw (not_wordChar_head?_of_blank hblank) h

/-- **Trimming brings no keyword into a text.** -/
theorem containsWord_trim {word : String} (hw : IsKeyword word.toList) {s : List Char}
    (h : containsWord word s = false) : containsWord word (trim s) = false :=
  containsWord_trimEnd hw (containsWord_trimStart hw.1 h)

/-- **The end of a line does not count** for the keyword that leads it. -/
theorem startsWithKeyword_trimEnd {keyword : String} (hk : IsKeyword keyword.toList)
    (l : List Char) : startsWithKeyword keyword (trimEnd l) = startsWithKeyword keyword l := by
  obtain ⟨w, hw, hl⟩ := exists_trimEnd_append (trimStart l)
  have hat : wordAt keyword.toList none (trimEnd (trimStart l))
      = wordAt keyword.toList none (trimStart l) := by
    by_cases hnil : trimEnd (trimStart l) = []
    · -- a line of white space has nothing left at its start either
      have hblank := trim_eq_nil_iff.mp hnil
      rw [hnil, trimStart_eq_nil_iff.mpr hblank]
    · conv_rhs => rw [← hl, wordAt_append hk hnil (not_wordChar_head?_of_blank hw)]
  rw [startsWithKeyword, startsWithKeyword, trimStart_trimEnd, hat]

/-! ## Cutting at a character -/

/-- What is left of a text from a character on begins with it. -/
theorem eq_of_dropWhile_ne {c d : Char} {s t : List Char}
    (h : s.dropWhile (· ≠ c) = d :: t) : d = c := by
  induction s with
  | nil => exact nomatch h
  | cons e s ih =>
      rw [List.dropWhile_cons] at h
      by_cases he : e = c
      · rw [if_neg (by simp [he])] at h
        rw [← (List.cons.inj h).1, he]
      · rw [if_pos (by simp [he])] at h
        exact ih h

theorem dropWhile_ne_of_not_mem {c : Char} {s : List Char} (h : c ∉ s) :
    s.dropWhile (· ≠ c) = [] := by
  rw [List.dropWhile_eq_nil_iff]
  intro d hd
  rw [decide_eq_true_eq]
  rintro rfl
  exact h hd

/-- The first place of a character behind a text without it. -/
theorem dropWhile_ne_append {c : Char} {s : List Char} (h : c ∉ s) (r : List Char) :
    (s ++ c :: r).dropWhile (· ≠ c) = c :: r := by
  have hs : ∀ d ∈ s, decide (d ≠ c) = true := by
    intro d hd
    rw [decide_eq_true_eq]
    rintro rfl
    exact h hd
  rw [List.dropWhile_append_of_pos hs, List.dropWhile_cons_of_neg (by simp)]

theorem takeWhile_ne_append {c : Char} {s : List Char} (h : c ∉ s) (r : List Char) :
    (s ++ c :: r).takeWhile (· ≠ c) = s := by
  have hs : ∀ d ∈ s, decide (d ≠ c) = true := by
    intro d hd
    rw [decide_eq_true_eq]
    rintro rfl
    exact h hd
  rw [List.takeWhile_append_of_pos hs, List.takeWhile_cons_of_neg (by simp), List.append_nil]

/-! ## Names -/

theorem wordChar_of_letter {c : Char} (h : isLetter c = true) : isWordChar c = true := by
  rw [isWordChar, h]
  rfl

/-- A letter stays one in upper case. -/
theorem isLetter_toUpper {c : Char} (h : isLetter c = true) : isLetter c.toUpper = true := by
  have hascii : ∀ n < 123, isLetter (Char.ofNat n) = true → isLetter (Char.ofNat n).toUpper = true := by
    decide
  have hlt : c.toNat < 123 := Nat.lt_succ_of_le (toNat_of_wordChar (wordChar_of_letter h)).2
  have hupper := hascii c.toNat hlt
  rw [Char.ofNat_toNat] at hupper
  exact hupper h

/-- Only a letter changes in upper case. -/
theorem toUpper_eq_or_letter (c : Char) : c.toUpper = c ∨ isLetter c = true := by
  by_cases hc : 'a'.val ≤ c.val ∧ c.val ≤ 'z'.val
  · have hle : 'a' ≤ c ∧ c ≤ 'z' := hc
    exact Or.inr (by simp [isLetter, hle])
  · exact Or.inl (toUpper_of_not_lower hc)

/-- What no letter is does not depend on case. -/
theorem toUpper_of_no_letter {p : Char → Bool} (hp : ∀ d, isLetter d = true → p d = false) (c : Char) :
    p c.toUpper = p c := by
  rcases toUpper_eq_or_letter c with hsame | hletter
  · rw [hsame]
  · rw [hp c hletter, hp c.toUpper (isLetter_toUpper hletter)]

theorem toUpper_toUpper (c : Char) : c.toUpper.toUpper = c.toUpper := by
  rcases toUpper_eq_or_letter c with hsame | hletter
  · exact congrArg Char.toUpper hsame
  · have hascii : ∀ n < 123, (Char.ofNat n).toUpper.toUpper = (Char.ofNat n).toUpper := by decide
    have hlt : c.toNat < 123 := Nat.lt_succ_of_le (toNat_of_wordChar (wordChar_of_letter hletter)).2
    have htwice := hascii c.toNat hlt
    rwa [Char.ofNat_toNat] at htwice

theorem upper_upper (s : List Char) : upper (upper s) = upper s := by
  rw [upper, upper, List.map_map]
  exact List.map_congr_left fun c _ => toUpper_toUpper c

theorem isFoldedLetter_of_letter {c : Char} (h : isLetter c = true) : isFoldedLetter c = true := by
  have hk : c ≠ '\u212a' := by
    rintro rfl
    exact absurd h (by decide)
  have hs : c ≠ '\u017f' := by
    rintro rfl
    exact absurd h (by decide)
  rw [isFoldedLetter, fold, if_neg hk, if_neg hs]
  exact isLetter_toUpper h

theorem continuesName_of_wordChar {c : Char} (h : isWordChar c = true) : continuesName c = true := by
  rw [isWordChar, Bool.or_eq_true, Bool.or_eq_true] at h
  rw [continuesName, startsName, Bool.or_eq_true, Bool.or_eq_true]
  rcases h with (h | h) | h
  · exact Or.inl (Or.inl (isFoldedLetter_of_letter h))
  · exact Or.inr h
  · exact Or.inl (Or.inr h)

theorem wordChar_of_identifier {s : List Char} (h : isIdentifier s = true) :
    s ≠ [] ∧ ∀ c ∈ s, isWordChar c = true := by
  cases s with
  | nil => exact nomatch h
  | cons c r =>
      rw [isIdentifier, Bool.and_eq_true, List.all_eq_true] at h
      refine ⟨List.cons_ne_nil c r, ?_⟩
      intro d hd
      rcases List.mem_cons.mp hd with rfl | hd
      · have hc := h.1
        rw [Bool.or_eq_true] at hc
        rw [isWordChar, Bool.or_eq_true, Bool.or_eq_true]
        exact hc.imp Or.inl id
      · exact h.2 d hd

/-- A dotted name is made of word characters and dots. -/
theorem wordChar_of_qualified {s : List Char} (h : isQualified s = true) :
    ∀ c ∈ s, isWordChar c = true ∨ c = '.' := by
  intro c hc
  by_cases hdot : c = '.'
  · exact Or.inr hdot
  · obtain ⟨p, hp, hcp⟩ := exists_mem_splitOn hc hdot
    rw [isQualified, List.all_eq_true] at h
    exact Or.inl ((wordChar_of_identifier (h p hp)).2 c hcp)

theorem ne_nil_of_qualified {s : List Char} (h : isQualified s = true) : s ≠ [] := by
  rintro rfl
  exact absurd h (by decide)

/-- The run of word characters at the start of a text ends before another character. -/
theorem leadingWord_append {s r : List Char} (hs : ∀ c ∈ s, isWordChar c = true)
    (hr : r.head?.any isWordChar = false) : leadingWord (s ++ r) = s := by
  rw [leadingWord, List.takeWhile_append_of_pos hs]
  cases r with
  | nil => simp
  | cons c r =>
      rw [List.head?_cons, Option.any_some] at hr
      rw [List.takeWhile_cons_of_neg (by simp [hr]), List.append_nil]

/-- **A dotted name leads a text with its first component.** -/
theorem leadingWord_qualified_append {s r : List Char} (h : isQualified s = true)
    (hr : r.head?.any isWordChar = false) : leadingWord (s ++ r) = firstComponent s := by
  have hfirst : ∀ c ∈ firstComponent s, isWordChar c = true := by
    intro c hc
    refine (wordChar_of_qualified h c ((List.takeWhile_sublist _).subset hc)).resolve_right ?_
    have hne := List.mem_takeWhile_imp hc
    exact of_decide_eq_true hne
  -- behind the first component stands its dot, or the rest of the text
  have hs : s = firstComponent s ++ s.dropWhile (· ≠ '.') := List.takeWhile_append_dropWhile.symm
  have hrest : (s.dropWhile (· ≠ '.') ++ r).head?.any isWordChar = false := by
    cases hd : s.dropWhile (· ≠ '.') with
    | nil => exact hr
    | cons c t =>
        rw [eq_of_dropWhile_ne hd]
        rfl
  conv_lhs => rw [hs, List.append_assoc]
  exact leadingWord_append hfirst hrest

end StLint.Text

import StLint.Proofs.Text.Cut

/-!
# Occurrences of words and phrases

A search answers whether a text holds a phrase, or a word with no word character on either side.
Said without the search, **where a text is cut does not matter**: a text holds what one of its parts
holds, as long as no occurrence stands across the cut.

* `isSome_find?_iff`, `infix_append_cons_iff` — phrases, and a character that is in none of them.
* `containsWord_iff` — what it means that a text holds a word.
* `IsWordSeam`, `containsWord_append` — a word is not cut where a word character is missing.
* `containsWord_intercalate`, `isSome_find?_intercalate` — texts that are joined by a separator.
* `containsWord_trim_eq` — white space around a text.
* `containsWord_cutTopLevel?`, `containsWord_splitTopLevel`, `containsWord_splitCall?` — cuts.
* `containsWord_eq_of_upper_eq` — a word is found in any case.
-/

namespace StLint.Text

/-! ## Phrases -/

theorem isSome_find?_iff {p s : List Char} : (find? p s).isSome = true ↔ p <:+: s := by
  induction s with
  | nil =>
      rw [find?, List.infix_nil]
      cases p <;> simp
  | cons c r ih =>
      rw [find?, List.infix_cons_iff, ← ih, ← List.isPrefixOf_iff_prefix]
      by_cases hp : p.isPrefixOf (c :: r) = true
      · rw [if_pos hp, hp]
        simp
      · rw [if_neg hp, Option.isSome_map, or_iff_right hp]

/-- A phrase stands where it is found. -/
theorem prefix_drop_of_find? {p s : List Char} {i : Nat} (h : find? p s = some i) : p <+: s.drop i := by
  induction s generalizing i with
  | nil =>
      rw [find?] at h
      by_cases hp : p.isEmpty = true
      · rw [List.isEmpty_iff.mp hp]
        exact List.nil_prefix
      · rw [if_neg hp] at h
        cases h
  | cons c r ih =>
      rw [find?] at h
      by_cases hp : p.isPrefixOf (c :: r) = true
      · rw [if_pos hp] at h
        obtain rfl := Option.some.inj h
        exact List.isPrefixOf_iff_prefix.mp hp
      · rw [if_neg hp] at h
        obtain ⟨j, hj, rfl⟩ := Option.map_eq_some_iff.mp h
        exact ih hj

theorem isSome_find?_nil {p : List Char} (hp : p ≠ []) : (find? p []).isSome = false := by
  rw [find?, if_neg (fun h => hp (List.isEmpty_iff.mp h))]
  rfl

/-- **A phrase does not stand across a character that it does not hold.** -/
theorem infix_append_cons_iff {sep : Char} {p a b : List Char} (hp : sep ∉ p) :
    p <:+: a ++ sep :: b ↔ p <:+: a ∨ p <:+: b := by
  constructor
  · rintro ⟨u, v, h⟩
    rw [List.append_assoc] at h
    rcases List.append_eq_append_iff.mp h with ⟨w, rfl, hw⟩ | ⟨w, rfl, hw⟩
    · -- the phrase begins in the first text
      rcases List.append_eq_append_iff.mp hw with ⟨x, rfl, -⟩ | ⟨x, rfl, hx⟩
      · exact Or.inl ⟨u, x, (List.append_assoc ..)⟩
      · cases x with
        | nil => exact Or.inl ⟨u, [], by rw [List.append_nil, List.append_nil]⟩
        | cons c x =>
            obtain ⟨rfl, -⟩ := List.cons.inj hx
            exact absurd (List.mem_append_right w (List.mem_cons_self ..)) hp
    · -- it begins at the character or behind it
      cases w with
      | nil =>
          cases p with
          | nil => exact Or.inl (List.nil_infix)
          | cons c p =>
              obtain ⟨rfl, -⟩ := List.cons.inj hw
              exact absurd (List.mem_cons_self ..) hp
      | cons c w =>
          obtain ⟨-, rfl⟩ := List.cons.inj hw
          exact Or.inr ⟨w, v, (List.append_assoc ..)⟩
  · rintro (⟨u, v, rfl⟩ | ⟨u, v, rfl⟩)
    · exact ⟨u, v ++ sep :: b, by simp⟩
    · exact ⟨a ++ sep :: u, v, by simp⟩

/-- **A phrase stands in one of the texts** that are joined by a character that it does not hold. -/
theorem isSome_find?_intercalate {sep : Char} {p : List Char} (hp : sep ∉ p) (hne : p ≠ [])
    (ls : List (List Char)) :
    (find? p ([sep].intercalate ls)).isSome = ls.any fun l => (find? p l).isSome := by
  rw [Bool.eq_iff_iff, List.any_eq_true]
  simp only [isSome_find?_iff]
  induction ls with
  | nil =>
      rw [List.intercalate_nil, List.infix_nil]
      exact ⟨fun h => absurd h hne, fun ⟨_, h, _⟩ => nomatch h⟩
  | cons l ls ih =>
      cases ls with
      | nil => simp
      | cons m ms =>
          rw [List.intercalate_cons_cons, List.append_assoc, List.singleton_append,
            infix_append_cons_iff hp, ih]
          simp

/-! ## Words -/

/-- **A word that is found** stands there, in some case and with no word character on either side;
    the search has passed over `done`. -/
theorem exists_of_findWordFrom? {word done s : List Char} {i : Nat}
    (h : findWordFrom? word done.getLast? s = some i) :
    ∃ u t v, done ++ s = u ++ (t ++ v) ∧ u.length = done.length + i ∧ upper t = upper word ∧
      u.getLast?.any isWordChar = false ∧ v.head?.any isWordChar = false := by
  induction s generalizing done i with
  | nil => cases h
  | cons c r ih =>
      rw [findWordFrom?] at h
      by_cases hc : wordAt word done.getLast? (c :: r) = true
      · rw [if_pos hc] at h
        obtain rfl := Option.some.inj h
        obtain ⟨t, rest, hs, ht, hp, hr⟩ := wordAt_iff.mp hc
        exact ⟨done, t, rest, by rw [hs], rfl, ht, hp, hr⟩
      · rw [if_neg hc] at h
        obtain ⟨j, hj, rfl⟩ := Option.map_eq_some_iff.mp h
        rw [← List.getLast?_concat (l := done)] at hj
        obtain ⟨u, t, v, hs, hlength, hrest⟩ := ih hj
        refine ⟨u, t, v, by rw [List.append_cons, hs], ?_, hrest⟩
        rw [hlength, List.length_append, List.length_singleton]
        omega

/-- **A text holds a word** where it stands in some case, with no word character on either side. -/
theorem containsWord_iff {word : String} (hne : word.toList ≠ []) {s : List Char} :
    containsWord word s = true ↔
      ∃ u t v, s = u ++ (t ++ v) ∧ upper t = upper word.toList ∧
        u.getLast?.any isWordChar = false ∧ v.head?.any isWordChar = false := by
  rw [containsWord, findWord?, if_neg (fun h => hne (List.isEmpty_iff.mp h))]
  constructor
  · intro h
    obtain ⟨i, hi⟩ := Option.isSome_iff_exists.mp h
    obtain ⟨u, t, v, hs, -, hfound⟩ := @exists_of_findWordFrom? _ [] s _ hi
    exact ⟨u, t, v, hs, hfound⟩
  · rintro ⟨u, t, v, rfl, ht, hu, hv⟩
    have htne : t ++ v ≠ [] := by
      intro hnil
      rw [(List.append_eq_nil_iff.mp hnil).1] at ht
      exact hne (List.map_eq_nil_iff.mp ht.symm)
    rw [Option.isSome_iff_ne_none]
    refine findWordFrom?_ne_none_of_wordAt htne (wordAt_iff.mpr ⟨t, v, rfl, ht, ?_, hv⟩)
    rw [Option.or_none]
    exact hu

/-- Word characters make a word. -/
theorem isKeyword_of_wordChar {s : List Char} (hne : s ≠ []) (hs : ∀ c ∈ s, isWordChar c = true) :
    IsKeyword s := by
  refine ⟨hne, ?_⟩
  intro k hk
  obtain ⟨c, hc, rfl⟩ := List.mem_map.mp hk
  rcases toUpper_eq_or_letter c with hsame | hletter
  · rw [hsame]
    exact hs c hc
  · exact wordChar_of_letter (isLetter_toUpper hletter)

/-- In a run of word characters only the run itself is a word. -/
theorem upper_eq_of_containsWord {word : String} (hne : word.toList ≠ []) {s : List Char}
    (hs : ∀ c ∈ s, isWordChar c = true) (h : containsWord word s = true) :
    upper s = upper word.toList := by
  obtain ⟨u, t, v, rfl, ht, hu, hv⟩ := (containsWord_iff hne).mp h
  have hunil : u = [] := by
    by_contra hne
    rw [List.getLast?_eq_some_getLast hne, Option.any_some,
      hs _ (List.mem_append_left _ (List.getLast_mem hne))] at hu
    cases hu
  have hvnil : v = [] := by
    by_contra hne
    obtain ⟨c, r, rfl⟩ := List.exists_cons_of_ne_nil hne
    rw [List.head?_cons, Option.any_some, hs c (by simp)] at hv
    cases hv
  rw [hunil, hvnil, List.nil_append, List.append_nil, ht]

theorem containsWord_nil (word : String) : containsWord word [] = false := by
  rw [containsWord, findWord?]
  split <;> rfl

/-- A cut beside which a word character is missing. -/
def IsWordSeam (a b : List Char) : Prop :=
  a.getLast?.any isWordChar = false ∨ b.head?.any isWordChar = false

/-- What stands before a text whose end is given does not change the end. -/
theorem any_getLast?_append (p : Char → Bool) (a : List Char) {b : List Char} (hb : b ≠ []) :
    (a ++ b).getLast?.any p = b.getLast?.any p := by
  rw [List.getLast?_append, List.getLast?_eq_some_getLast hb]
  rfl

theorem any_head?_append (p : Char → Bool) {a : List Char} (ha : a ≠ []) (b : List Char) :
    (a ++ b).head?.any p = a.head?.any p := by
  cases a with
  | nil => exact absurd rfl ha
  | cons c r => rfl

/-- No seam lies between two word characters. -/
theorem not_isWordSeam {a b s t : List Char} (hs : s ≠ []) (ht : t ≠ [])
    (hchars : ∀ c ∈ s ++ t, isWordChar c = true) : ¬ IsWordSeam (a ++ s) (t ++ b) := by
  rintro (h | h)
  · rw [any_getLast?_append isWordChar a hs, List.getLast?_eq_some_getLast hs, Option.any_some,
      hchars _ (List.mem_append_left t (List.getLast_mem hs))] at h
    cases h
  · obtain ⟨c, r, rfl⟩ := List.exists_cons_of_ne_nil ht
    rw [List.cons_append, List.head?_cons, Option.any_some,
      hchars _ (List.mem_append_right s (List.mem_cons_self ..))] at h
    cases h

section Seam

variable {word : String} {a b : List Char}

/-- A word that stands across a seam stands on one side of it. -/
theorem containsWord_of_append (hw : IsKeyword word.toList) (h : IsWordSeam a b)
    (hab : containsWord word (a ++ b) = true) :
    containsWord word a = true ∨ containsWord word b = true := by
  rw [containsWord_iff hw.1] at hab ⊢
  rw [containsWord_iff hw.1]
  obtain ⟨u, t, v, heq, ht, hu, hv⟩ := hab
  have hchars := wordChar_of_upper_eq hw ht
  rcases List.append_eq_append_iff.mp heq with ⟨w, rfl, rfl⟩ | ⟨w, rfl, hw'⟩
  · -- the cut stands before the word
    refine Or.inr ⟨w, t, v, rfl, ht, ?_, hv⟩
    cases w with
    | nil => rfl
    | cons c r => rwa [any_getLast?_append isWordChar a (List.cons_ne_nil c r)] at hu
  · rcases List.append_eq_append_iff.mp hw' with ⟨x, rfl, rfl⟩ | ⟨x, rfl, rfl⟩
    · -- behind it
      refine Or.inl ⟨u, t, x, rfl, ht, hu, ?_⟩
      cases x with
      | nil => rfl
      | cons c x => exact hv
    · -- or within it, and then at one of its ends
      cases w with
      | nil => exact Or.inr ⟨[], x, v, rfl, ht, rfl, hv⟩
      | cons c r =>
          cases x with
          | nil =>
              rw [List.append_nil] at ht
              exact Or.inl ⟨u, c :: r, [], by rw [List.append_nil], ht, hu, rfl⟩
          | cons d x =>
              exact absurd h (not_isWordSeam (List.cons_ne_nil c r) (List.cons_ne_nil d x) hchars)

/-- A word of a text before a seam is a word of the whole. -/
theorem containsWord_append_of_left (hw : IsKeyword word.toList) (h : IsWordSeam a b)
    (ha : containsWord word a = true) : containsWord word (a ++ b) = true := by
  rw [containsWord_iff hw.1] at ha ⊢
  obtain ⟨u, t, v, rfl, ht, hu, hv⟩ := ha
  have htne : t ≠ [] := by
    rintro rfl
    exact hw.1 (List.map_eq_nil_iff.mp ht.symm)
  refine ⟨u, t, v ++ b, by rw [List.append_assoc, List.append_assoc], ht, hu, ?_⟩
  cases v with
  | cons c v => exact hv
  | nil =>
      rcases h with h | h
      · rw [List.append_nil] at h
        have hlast := wordChar_of_upper_eq hw ht _ (List.getLast_mem htne)
        rw [any_getLast?_append isWordChar u htne, List.getLast?_eq_some_getLast htne,
          Option.any_some, hlast] at h
        cases h
      · exact h

/-- A word of a text behind a seam is a word of the whole. -/
theorem containsWord_append_of_right (hw : IsKeyword word.toList) (h : IsWordSeam a b)
    (hb : containsWord word b = true) : containsWord word (a ++ b) = true := by
  rw [containsWord_iff hw.1] at hb ⊢
  obtain ⟨u, t, v, rfl, ht, hu, hv⟩ := hb
  have htne : t ≠ [] := by
    rintro rfl
    exact hw.1 (List.map_eq_nil_iff.mp ht.symm)
  refine ⟨a ++ u, t, v, (List.append_assoc ..).symm, ht, ?_, hv⟩
  cases u with
  | cons c u => rw [any_getLast?_append isWordChar a (List.cons_ne_nil c u), hu]
  | nil =>
      rw [List.append_nil]
      rcases h with h | h
      · exact h
      · obtain ⟨c, r, rfl⟩ := List.exists_cons_of_ne_nil htne
        rw [List.nil_append, List.cons_append, List.head?_cons, Option.any_some,
          wordChar_of_upper_eq hw ht c (List.mem_cons_self ..)] at h
        cases h

/-- **A word is not cut where a word character is missing.** -/
theorem containsWord_append (hw : IsKeyword word.toList) (h : IsWordSeam a b) :
    containsWord word (a ++ b) = (containsWord word a || containsWord word b) := by
  rw [Bool.eq_iff_iff, Bool.or_eq_true]
  refine ⟨containsWord_of_append hw h, ?_⟩
  rintro (ha | hb)
  · exact containsWord_append_of_left hw h ha
  · exact containsWord_append_of_right hw h hb

theorem not_wordChar_of_all {s : List Char} (h : s.all (fun c => !isWordChar c) = true) :
    ∀ c ∈ s, isWordChar c = false := by
  intro c hc
  rw [← Bool.not_eq_true']
  exact List.all_eq_true.mp h c hc

/-- A text without word characters holds no word. -/
theorem containsWord_of_not_wordChar (hw : IsKeyword word.toList) {s : List Char}
    (hs : ∀ c ∈ s, isWordChar c = false) : containsWord word s = false := by
  rw [Bool.eq_false_iff, Ne, containsWord_iff hw.1]
  rintro ⟨u, t, v, rfl, ht, -, -⟩
  cases t with
  | nil => exact hw.1 (List.map_eq_nil_iff.mp ht.symm)
  | cons c t =>
      have hc := wordChar_of_upper_eq hw ht c (List.mem_cons_self ..)
      rw [hs c (List.mem_append_right u (List.mem_cons_self ..))] at hc
      cases hc

/-- **A text without word characters is a seam.** -/
theorem containsWord_append_of_not_wordChar (hw : IsKeyword word.toList) {s : List Char}
    (hs : ∀ c ∈ s, isWordChar c = false) (hne : s ≠ []) :
    containsWord word (a ++ (s ++ b)) = (containsWord word a || containsWord word b) := by
  have hlast : s.getLast?.any isWordChar = false := by
    rw [List.getLast?_eq_some_getLast hne, Option.any_some, hs _ (List.getLast_mem hne)]
  have hfirst : (s ++ b).head?.any isWordChar = false := by
    obtain ⟨c, r, rfl⟩ := List.exists_cons_of_ne_nil hne
    rw [List.cons_append, List.head?_cons, Option.any_some, hs c (List.mem_cons_self ..)]
  rw [containsWord_append hw (Or.inr hfirst), containsWord_append hw (Or.inl hlast),
    containsWord_of_not_wordChar hw hs, Bool.false_or]

/-- **A word stands in one of the texts** that are joined by a character that is no word character. -/
theorem containsWord_intercalate (hw : IsKeyword word.toList) {sep : Char}
    (hsep : isWordChar sep = false) (ls : List (List Char)) :
    containsWord word ([sep].intercalate ls) = ls.any (containsWord word) := by
  have hs : ∀ c ∈ [sep], isWordChar c = false := by
    intro c hc
    rw [List.mem_singleton.mp hc, hsep]
  induction ls with
  | nil => exact containsWord_of_not_wordChar hw nofun
  | cons l ls ih =>
      cases ls with
      | nil => simp
      | cons m ms =>
          rw [List.intercalate_cons_cons, List.append_assoc,
            containsWord_append_of_not_wordChar hw hs (List.cons_ne_nil sep []), ih]
          rfl

/-! ### White space -/

theorem containsWord_of_blank (hw : IsKeyword word.toList) {w : List Char}
    (hblank : ∀ c ∈ w, isBlank c = true) : containsWord word w = false :=
  containsWord_of_not_wordChar hw fun c hc => not_wordChar_of_blank (hblank c hc)

/-- White space in front of a text holds no word. -/
theorem containsWord_blank_append (hw : IsKeyword word.toList) {w : List Char}
    (hblank : ∀ c ∈ w, isBlank c = true) (s : List Char) :
    containsWord word (w ++ s) = containsWord word s := by
  rw [containsWord_append hw (Or.inl (not_wordChar_getLast?_of_blank hblank)),
    containsWord_of_blank hw hblank, Bool.false_or]

/-- White space behind a text holds no word. -/
theorem containsWord_append_blank (hw : IsKeyword word.toList) (s : List Char) {w : List Char}
    (hblank : ∀ c ∈ w, isBlank c = true) : containsWord word (s ++ w) = containsWord word s := by
  rw [containsWord_append hw (Or.inr (not_wordChar_head?_of_blank hblank)),
    containsWord_of_blank hw hblank, Bool.or_false]

theorem containsWord_trimEnd_eq (hw : IsKeyword word.toList) (s : List Char) :
    containsWord word (trimEnd s) = containsWord word s := by
  obtain ⟨w, hblank, hs⟩ := exists_trimEnd_append s
  conv_rhs => rw [← hs]
  rw [containsWord_append_blank hw _ hblank]

/-- **White space around a text holds no word.** -/
theorem containsWord_trim_eq (hw : IsKeyword word.toList) (s : List Char) :
    containsWord word (trim s) = containsWord word s := by
  obtain ⟨w, hblank, hs⟩ := exists_append_trimStart s
  conv_rhs => rw [← hs]
  rw [trim, containsWord_trimEnd_eq hw, containsWord_blank_append hw hblank]

/-! ## Cuts -/

/-- The semicolon behind a statement is no part of a word. -/
theorem containsWord_stripStatementEnd (hw : IsKeyword word.toList) (s : List Char) :
    containsWord word (stripStatementEnd s) = containsWord word s := by
  rw [stripStatementEnd, containsWord_trimEnd_eq hw, ← containsWord_trim_eq hw s]
  by_cases hsuffix : [';'].isSuffixOf (trim s) = true
  · rw [dropSuffix?, if_pos hsuffix, Option.getD_some]
    obtain ⟨r, hr⟩ := List.isSuffixOf_iff_suffix.mp hsuffix
    rw [← hr, List.length_append, Nat.add_sub_cancel, List.take_left,
      containsWord_append hw (Or.inr rfl),
      containsWord_of_not_wordChar hw (s := [';']) (not_wordChar_of_all (by decide)), Bool.or_false]
  · rw [dropSuffix?, if_neg hsuffix, Option.getD_none]

/-- **A cut at a phrase without word characters** loses no word. -/
theorem containsWord_cutTopLevel? (hw : IsKeyword word.toList) {phrase : String}
    (hphrase : ∀ c ∈ phrase.toList, isWordChar c = false) (hne : phrase.toList ≠ [])
    {s : List Char} (h : cutTopLevel? phrase s = some (a, b)) :
    containsWord word s = (containsWord word a || containsWord word b) := by
  rw [cutTopLevel?_eq_some h, containsWord_append_of_not_wordChar hw hphrase hne]

/-- **A text is cut into parts** without a loss of words. -/
theorem containsWord_splitTopLevel (hw : IsKeyword word.toList) {sep : Char}
    (hsep : isWordChar sep = false) (s : List Char) :
    containsWord word s = (splitTopLevel sep s).any (containsWord word) := by
  rw [splitTopLevel]
  by_cases hblank : allBlank s = true
  · rw [if_pos hblank]
    exact containsWord_of_blank hw (allBlank_iff.mp hblank)
  · rw [if_neg hblank, List.any_map]
    conv_lhs => rw [← intercalate_topLevelPieces sep .start s]
    rw [containsWord_intercalate hw hsep]
    congr 1
    funext part
    exact (containsWord_trim_eq hw part).symm

/-- **A call** holds the words of its name and of its arguments. -/
theorem containsWord_splitCall? (hw : IsKeyword word.toList) {s : List Char}
    (h : splitCall? s = some (a, b)) :
    containsWord word s = (containsWord word a || containsWord word b) := by
  obtain ⟨-, w, hblank, hs⟩ := splitCall?_eq_some h
  have hparen : ∀ c ∈ w ++ ['('], isWordChar c = false := by
    intro c hc
    rcases List.mem_append.mp hc with hc | hc
    · exact not_wordChar_of_blank (hblank c hc)
    · rw [List.mem_singleton.mp hc]
      rfl
  have hsplit : trim s = a ++ ((w ++ ['(']) ++ (b ++ [')'])) := by
    rw [hs, List.append_assoc]
    rfl
  rw [← containsWord_trim_eq hw, hsplit,
    containsWord_append_of_not_wordChar hw hparen (List.append_ne_nil_of_right_ne_nil w (by simp)),
    containsWord_append hw (Or.inr rfl),
    containsWord_of_not_wordChar hw (s := [')']) (not_wordChar_of_all (by decide)), Bool.or_false]

end Seam

/-! ## Words in any case -/

/-- Only a letter changes in lower case. -/
theorem toLower_eq_or_letter (c : Char) : c.toLower = c ∨ isLetter c = true := by
  by_cases hc : 'A'.val ≤ c.val ∧ c.val ≤ 'Z'.val
  · have hle : 'A' ≤ c ∧ c ≤ 'Z' := hc
    exact Or.inr (by simp [isLetter, hle])
  · exact Or.inl (dif_neg hc)

theorem toUpper_toLower (c : Char) : c.toLower.toUpper = c.toUpper := by
  rcases toLower_eq_or_letter c with hsame | hletter
  · exact congrArg Char.toUpper hsame
  · have hascii : ∀ n < 123, (Char.ofNat n).toLower.toUpper = (Char.ofNat n).toUpper := by decide
    have hlt : c.toNat < 123 := Nat.lt_succ_of_le (toNat_of_wordChar (wordChar_of_letter hletter)).2
    have hupper := hascii c.toNat hlt
    rwa [Char.ofNat_toNat] at hupper

theorem upper_lower (s : List Char) : upper (lower s) = upper s := by
  rw [upper, upper, lower, List.map_map]
  exact List.map_congr_left fun c _ => toUpper_toLower c

variable {v w : List Char}

/-- What is the same in lower case is the same in upper case. -/
theorem upper_eq_of_lower_eq (h : lower v = lower w) : upper v = upper w := by
  rw [← upper_lower v, h, upper_lower]

/-- **A word is found in any case.** -/
theorem findWordFrom?_eq_of_upper_eq (h : upper v = upper w) (prev : Option Char) (s : List Char) :
    findWordFrom? v prev s = findWordFrom? w prev s := by
  induction s generalizing prev with
  | nil => rfl
  | cons c r ih =>
      rw [findWordFrom?, findWordFrom?, ih, wordAt, wordAt, h, length_eq_of_upper_eq h]

theorem containsWord_eq_of_upper_eq (h : upper v = upper w) (s : List Char) :
    containsWord (String.ofList v) s = containsWord (String.ofList w) s := by
  have hlength := length_eq_of_upper_eq h
  have hempty : v.isEmpty = w.isEmpty := by
    rw [Bool.eq_iff_iff, List.isEmpty_iff_length_eq_zero, List.isEmpty_iff_length_eq_zero, hlength]
  rw [containsWord, containsWord, findWord?, findWord?, String.toList_ofList, String.toList_ofList, hempty,
    findWordFrom?_eq_of_upper_eq h]

end StLint.Text

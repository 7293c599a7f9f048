import StLint.Proofs.Text.Blank
import StLint.Text.Folding

/-!
# Keywords and names before white space

Headers are read from the left, by keywords, white space and names. None of these parts holds white
space at its end, so **white space after a text only shows up in what is left over**.

* `not_continuesName_of_blank` — white space ends a name.
* `dropKeyword?_append`, `takeName?_append` — the parts of a header end at characters they do not hold.
* `dropKeyword?_append_of_blank`, `takeName?_append_of_blank` — white space is one.
* `mem_name_of_takeName?` — what a name is made of.
-/

namespace StLint.Text

/-! ## White space is no part of a word -/

theorem toNat_le_of_le {c d : Char} (h : c ≤ d) : c.toNat ≤ d.toNat :=
  UInt32.le_iff_toNat_le.mp (Char.le_def.mp h)

/-- Only the ASCII letters in lower case have an upper case. -/
theorem toUpper_of_not_lower {c : Char} (h : ¬ ('a'.val ≤ c.val ∧ c.val ≤ 'z'.val)) :
    c.toUpper = c :=
  dif_neg h

/-- White space stands below the printable ASCII characters or above them. -/
theorem toNat_of_blank {c : Char} (h : isBlank c = true) : c.toNat ≤ 32 ∨ 127 < c.toNat := by
  simp only [isBlank, Bool.or_eq_true, Bool.and_eq_true, decide_eq_true_eq] at h
  rcases h with (((((((((h | rfl) | rfl) | rfl) | rfl) | h) | rfl) | rfl) | rfl) | rfl) | rfl
  · exact Or.inl (Nat.le_trans (toNat_le_of_le h.2) (by decide))
  · exact Or.inl (by decide)
  · exact Or.inr (by decide)
  · exact Or.inr (by decide)
  · exact Or.inr (by decide)
  · exact Or.inr (Nat.lt_of_lt_of_le (by decide) (toNat_le_of_le h.1))
  all_goals exact Or.inr (by decide)

/-- Word characters are printable ASCII characters. -/
theorem toNat_of_wordChar {c : Char} (h : isWordChar c = true) : 48 ≤ c.toNat ∧ c.toNat ≤ 122 := by
  simp only [isWordChar, isLetter, isDigit, Bool.or_eq_true, Bool.and_eq_true,
    decide_eq_true_eq] at h
  rcases h with ((h | h) | h) | rfl
  · exact ⟨Nat.le_trans (by decide) (toNat_le_of_le h.1), toNat_le_of_le h.2⟩
  · exact ⟨Nat.le_trans (by decide) (toNat_le_of_le h.1),
      Nat.le_trans (toNat_le_of_le h.2) (by decide)⟩
  · exact ⟨toNat_le_of_le h.1, Nat.le_trans (toNat_le_of_le h.2) (by decide)⟩
  · decide

theorem not_wordChar_of_blank {c : Char} (h : isBlank c = true) : isWordChar c = false := by
  cases hw : isWordChar c with
  | false => rfl
  | true =>
      have h1 := toNat_of_blank h
      have h2 := toNat_of_wordChar hw
      omega

theorem not_blank_of_wordChar {c : Char} (h : isWordChar c = true) : isBlank c = false := by
  cases hb : isBlank c with
  | false => rfl
  | true =>
      rw [not_wordChar_of_blank hb] at h
      exact nomatch h

/-- White space folds to itself. -/
theorem fold_of_blank {c : Char} (h : isBlank c = true) : fold c = c := by
  have hk : c ≠ '\u212a' := fun hc => absurd (hc ▸ h) (by decide)
  have hs : c ≠ '\u017f' := fun hc => absurd (hc ▸ h) (by decide)
  have hlower : ¬ ('a'.val ≤ c.val ∧ c.val ≤ 'z'.val) := by
    intro hc
    have h1 : 97 ≤ c.toNat := toNat_le_of_le (c := 'a') hc.1
    have h2 : c.toNat ≤ 122 := toNat_le_of_le (d := 'z') hc.2
    have h3 := toNat_of_blank h
    omega
  rw [fold, if_neg hk, if_neg hs, toUpper_of_not_lower hlower]

/-- White space ends a name. -/
theorem not_continuesName_of_blank {c : Char} (h : isBlank c = true) : continuesName c = false := by
  have hw := not_wordChar_of_blank h
  simp only [isWordChar, Bool.or_eq_false_iff] at hw
  simp [continuesName, startsName, isFoldedLetter, fold_of_blank h, hw.1.1, hw.1.2, hw.2]

/-! ## The parts of a header -/

variable {s w : List Char}

/-- A keyword does not go on where a character stands that folds to none of its letters. -/
theorem dropKeyword?_append {ks t : List Char} (ht : ∀ d ∈ t.head?, fold d ∉ ks) :
    dropKeyword? ks (s ++ t) = (dropKeyword? ks s).map (· ++ t) := by
  induction ks generalizing s with
  | nil => rfl
  | cons k ks ih =>
      have hks := ih (s := s.tail) fun d hd hm => ht d hd (List.mem_cons_of_mem k hm)
      cases s with
      | nil =>
          cases t with
          | nil => rfl
          | cons d r =>
              have hne : fold d ≠ k := fun h => ht d rfl (h ▸ List.mem_cons_self ..)
              show (if fold d = k then dropKeyword? ks r else none) = none
              rw [if_neg hne]
      | cons c r =>
          rw [List.cons_append, dropKeyword?, dropKeyword?]
          by_cases hc : fold c = k
          · rw [if_pos hc, if_pos hc]
            exact hks
          · rw [if_neg hc, if_neg hc]
            rfl

/-- A keyword without white space is found or missed before it. -/
theorem dropKeyword?_append_of_blank {ks : List Char} (hk : ∀ k ∈ ks, isBlank k = false)
    (hw : ∀ c ∈ w, isBlank c = true) :
    dropKeyword? ks (s ++ w) = (dropKeyword? ks s).map (· ++ w) := by
  refine dropKeyword?_append ?_
  intro d hd hm
  have hblank := hw d (List.mem_of_head? hd)
  rw [fold_of_blank hblank] at hm
  rw [hk d hm] at hblank
  exact nomatch hblank

/-- A keyword that is found is as long as what it leaves out. -/
theorem length_le_of_dropKeyword? {ks rest : List Char} (h : dropKeyword? ks s = some rest) :
    ks.length ≤ s.length := by
  induction ks generalizing s with
  | nil => exact Nat.zero_le _
  | cons k ks ih =>
      cases s with
      | nil => cases h
      | cons c r =>
          rw [dropKeyword?] at h
          by_cases hc : fold c = k
          · rw [if_pos hc] at h
            exact Nat.succ_le_succ (ih h)
          · rw [if_neg hc] at h
            cases h

/-- White space after a text that is not blank is left over when its start is trimmed. -/
theorem trimStart_append_of_blank_right (s : List Char) (hw : ∀ c ∈ w, isBlank c = true) :
    trimStart (s ++ w) = if trimStart s = [] then [] else trimStart s ++ w := by
  by_cases hs : trimStart s = []
  · rw [if_pos hs, trimStart_append_of_blank (trimStart_eq_nil_iff.mp hs)]
    exact trimStart_eq_nil_iff.mpr hw
  · rw [if_neg hs, trimStart_append_of_ne_nil hs]

/-- A run is not longer for a text that begins with another character. -/
theorem takeWhile_append_of_head {p : Char → Bool} {t : List Char} (s : List Char)
    (ht : ∀ d ∈ t.head?, p d = false) : (s ++ t).takeWhile p = s.takeWhile p := by
  induction s with
  | nil =>
      cases t with
      | nil => rfl
      | cons d r => simp [ht d rfl]
  | cons c r ih => rw [List.cons_append, List.takeWhile_cons, List.takeWhile_cons, ih]

/-- A name ends where a character stands that does not continue it. -/
theorem takeName?_append {t : List Char} (s : List Char)
    (ht : ∀ d ∈ t.head?, continuesName d = false) :
    takeName? (s ++ t) = (takeName? s).map fun (name, rest) => (name, rest ++ t) := by
  cases s with
  | nil =>
      cases t with
      | nil => rfl
      | cons d r =>
          have hd := ht d rfl
          rw [continuesName, Bool.or_eq_false_iff] at hd
          rw [List.nil_append, takeName?, if_neg (by rw [hd.1]; decide)]
          rfl
  | cons c r =>
      have htake := takeWhile_append_of_head r ht
      have hdrop : (r ++ t).dropWhile continuesName = r.dropWhile continuesName ++ t := by
        have h := List.takeWhile_append_dropWhile (p := continuesName) (l := r ++ t)
        rw [htake] at h
        refine List.append_cancel_left (h.trans ?_)
        rw [← List.append_assoc, List.takeWhile_append_dropWhile]
      rw [List.cons_append, takeName?, takeName?, htake, hdrop]
      by_cases hc : startsName c = true
      · rw [if_pos hc, if_pos hc]
        rfl
      · rw [if_neg hc, if_neg hc]
        rfl

/-- A name ends before white space. -/
theorem takeName?_append_of_blank (s : List Char) (hw : ∀ c ∈ w, isBlank c = true) :
    takeName? (s ++ w) = (takeName? s).map fun (name, rest) => (name, rest ++ w) :=
  takeName?_append s fun d hd => not_continuesName_of_blank (hw d (List.mem_of_head? hd))

/-- The characters of a name continue a name. -/
theorem mem_name_of_takeName? {name rest : List Char} (h : takeName? s = some (name, rest)) :
    ∀ c ∈ name, continuesName c = true := by
  cases s with
  | nil => exact nomatch h
  | cons d r =>
      rw [takeName?] at h
      by_cases hd : startsName d = true
      · rw [if_pos hd] at h
        obtain ⟨rfl, -⟩ := Prod.mk.inj (Option.some.inj h)
        intro c hc
        rcases List.mem_cons.mp hc with rfl | hc
        · rw [continuesName, hd]
          rfl
        · exact List.mem_takeWhile_imp hc
      · rw [if_neg hd] at h
        exact nomatch h

end StLint.Text

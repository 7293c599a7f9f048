import StLint.Proofs.Text.Word
import StLint.Text.Pattern
import StLint.Text.Unicode

/-!
# Matching by preference

A matcher tries its choices in order, so a match is found by passing over the choices before it. For
white space the longest run is right at once, since no part that follows begins with white space. For
a part that is taken as short as possible **every shorter choice must fail**, and it does when the
part does not contain the keyword that ends it.

* `blanks_append` — the longest run of white space, when what follows rejects white space.
* `shortest_append` — the shortest part, when every shorter one fails.
* `blanks_keyword_eq_none` — inside a text without a keyword there is no blank before one.
* `exists_of_blanks`, `exists_of_shortest`, `exists_of_keyword` — a match is read backwards, to the
  text that was matched and the rest.
-/

namespace StLint.Text.Pattern

variable {α : Type}

/-! ## White space -/

/-- What follows takes no white space at its start. -/
def RejectsBlank (next : List Char → Option α) : Prop :=
  ∀ c r, isBlank c = true → next (c :: r) = none

/-- A text that does not begin with white space. -/
def StartsSolid (s : List Char) : Prop := s.head?.any isBlank = false

theorem trimStart_of_startsSolid {s : List Char} (hs : StartsSolid s) : trimStart s = s := by
  cases s with
  | nil => rfl
  | cons c r => exact trimStart_of_not_blank hs r

theorem blanks_of_startsSolid {least : Nat} {next : List Char → Option α} {s : List Char}
    (hs : StartsSolid s) : blanks least next s = if least = 0 then next s else none := by
  cases s with
  | nil => rfl
  | cons c r =>
      have hc : ¬ isBlank c = true := by
        rw [StartsSolid, List.head?_cons, Option.any_some] at hs
        rw [hs]
        exact Bool.false_ne_true
      rw [blanks, if_neg hc]
      rfl

/-- **The longest run of white space**, when what follows rejects white space. -/
theorem blanks_append {least : Nat} {next : List Char → Option α} {w s : List Char}
    (hw : ∀ c ∈ w, isBlank c = true) (hs : StartsSolid s) (hnext : RejectsBlank next) :
    blanks least next (w ++ s) = if least ≤ w.length then next s else none := by
  induction w generalizing least with
  | nil =>
      rw [List.nil_append, blanks_of_startsSolid hs]
      simp only [List.length_nil, Nat.le_zero_eq]
  | cons c w ih =>
      have hc := hw c (List.mem_cons_self ..)
      have hrest : (if least = 0 then next (c :: (w ++ s)) else none) = none := by
        rw [hnext c _ hc, ite_self]
      rw [List.cons_append, blanks, if_pos hc, hrest, ih fun d hd => hw d (List.mem_cons_of_mem c hd)]
      have hle : least - 1 ≤ w.length ↔ least ≤ (c :: w).length := by
        rw [List.length_cons]
        omega
      simp only [hle]
      cases (if least ≤ (c :: w).length then next s else none) <;> rfl

/-- The longest run of white space is the right one if it lets the rest match. -/
theorem blanks_append_of_eq_some {least : Nat} {next : List Char → Option α} {w s : List Char} {a : α}
    (hw : ∀ c ∈ w, isBlank c = true) (hs : StartsSolid s) (hl : least ≤ w.length)
    (hnext : next s = some a) : blanks least next (w ++ s) = some a := by
  induction w generalizing least with
  | nil => rw [List.nil_append, blanks_of_startsSolid hs, if_pos (Nat.le_zero.mp hl), hnext]
  | cons c w ih =>
      have hl' : least - 1 ≤ w.length := by
        rw [List.length_cons] at hl
        omega
      rw [List.cons_append, blanks, if_pos (hw c (List.mem_cons_self ..)),
        ih (fun d hd => hw d (List.mem_cons_of_mem c hd)) hl']
      rfl

/-! ## The shortest part -/

/-- **The shortest part** is the one behind which every shorter choice fails. -/
theorem shortest_append {next : List Char → List Char → Option α} {taken x r : List Char} {a : α}
    (hx : x ≠ []) (hn : '\n' ∉ x)
    (hcut : ∀ u v, x = u ++ v → u ≠ [] → v ≠ [] → next (taken.reverse ++ u) (v ++ r) = none)
    (hlast : next (taken.reverse ++ x) r = some a) : shortest next taken (x ++ r) = some a := by
  -- what was taken grows at its front, since it is kept in reverse
  induction x generalizing taken with
  | nil => exact absurd rfl hx
  | cons c x ih =>
      have hc : ¬ c = '\n' := fun h => hn (h ▸ List.mem_cons_self ..)
      rw [List.cons_append, shortest, if_neg hc]
      by_cases hnil : x = []
      · subst hnil
        rw [List.nil_append, List.reverse_cons, hlast]
        rfl
      · have hfirst := hcut [c] x rfl (List.cons_ne_nil c []) hnil
        rw [List.reverse_cons, hfirst]
        show shortest next (c :: taken) (x ++ r) = some a
        refine ih hnil (fun h => hn (List.mem_cons_of_mem c h)) (fun u v hu hune hvne => ?_) ?_
        · have h := hcut (c :: u) v (by rw [hu]; rfl) (List.cons_ne_nil c u) hvne
          rw [List.reverse_cons, List.append_assoc]
          exact h
        · rw [List.reverse_cons, List.append_assoc]
          exact hlast

/-! ## Keywords -/

/-- A keyword of a loop header: upper-case letters to which no other character folds. -/
def IsHeaderWord (word : String) : Prop :=
  word.toList ≠ [] ∧ ∀ k ∈ word.toList, isWordChar k = true ∧ k.toUpper = k ∧ k ≠ 'K' ∧ k ≠ 'S'

theorem isHeaderWord_of_all {word : String}
    (h : (!word.toList.isEmpty && word.toList.all fun k =>
      isWordChar k && k.toUpper == k && k != 'K' && k != 'S') = true) : IsHeaderWord word := by
  rw [Bool.and_eq_true, Bool.not_eq_true', List.isEmpty_eq_false_iff, List.all_eq_true] at h
  refine ⟨h.1, ?_⟩
  intro k hk
  have hchar := h.2 k hk
  simp only [Bool.and_eq_true, beq_iff_eq, bne_iff_ne] at hchar
  obtain ⟨⟨⟨hword, hupper⟩, hkelvin⟩, hlong⟩ := hchar
  exact ⟨hword, hupper, hkelvin, hlong⟩

theorem IsHeaderWord.isKeyword {word : String} (h : IsHeaderWord word) : IsKeyword word.toList := by
  refine ⟨h.1, ?_⟩
  intro k hk
  obtain ⟨c, hc, rfl⟩ := List.mem_map.mp hk
  rw [(h.2 c hc).2.1]
  exact (h.2 c hc).1

/-- What a keyword is read from is the keyword, up to folding. -/
theorem exists_of_dropKeyword? {ks s rest : List Char} (h : dropKeyword? ks s = some rest) :
    ∃ t, s = t ++ rest ∧ t.map fold = ks := by
  induction ks generalizing s with
  | nil => exact ⟨[], Option.some.inj h, rfl⟩
  | cons k ks ih =>
      cases s with
      | nil => cases h
      | cons c r =>
          rw [dropKeyword?] at h
          by_cases hc : fold c = k
          · rw [if_pos hc] at h
            obtain ⟨t, rfl, ht⟩ := ih h
            exact ⟨c :: t, rfl, by rw [List.map_cons, hc, ht]⟩
          · rw [if_neg hc] at h
            cases h

/-- Folding into a keyword of a header is upper case. -/
theorem upper_eq_of_map_fold {word : String} (hw : IsHeaderWord word) {t : List Char}
    (ht : t.map fold = word.toList) : upper t = upper word.toList := by
  -- only two characters fold differently, and no such keyword holds their letters
  have hword : upper word.toList = word.toList := by
    rw [upper]
    conv_rhs => rw [← List.map_id word.toList]
    exact List.map_congr_left fun k hk => (hw.2 k hk).2.1
  rw [hword, ← ht]
  refine List.map_congr_left ?_
  intro c hc
  have hk := hw.2 (fold c) (ht ▸ List.mem_map_of_mem hc)
  have h1 : c ≠ '\u212a' := by
    rintro rfl
    exact hk.2.2.1 rfl
  have h2 : c ≠ '\u017f' := by
    rintro rfl
    exact hk.2.2.2 rfl
  rw [fold, if_neg h1, if_neg h2]

theorem keyword_rejectsBlank {word : String} (hw : IsHeaderWord word) (next : List Char → Option α) :
    RejectsBlank (keyword word next) := by
  intro c r hc
  obtain ⟨k, ks, hks⟩ := List.exists_cons_of_ne_nil hw.1
  have hne : fold c ≠ k := by
    intro h
    rw [fold_of_blank hc] at h
    have hword := (hw.2 k (hks ▸ List.mem_cons_self ..)).1
    rw [← h, not_wordChar_of_blank hc] at hword
    exact nomatch hword
  rw [keyword, hks, dropKeyword?, if_neg hne]
  rfl

/-- What follows takes no word character at its start. -/
def RejectsWord (next : List Char → Option α) : Prop :=
  ∀ c r, isWordChar c = true → next (c :: r) = none

theorem blanks_one_rejectsWord (next : List Char → Option α) : RejectsWord (blanks 1 next) := by
  intro c r hc
  have hblank : StartsSolid (c :: r) := by
    rw [StartsSolid, List.head?_cons, Option.any_some]
    exact not_blank_of_wordChar hc
  rw [blanks_of_startsSolid hblank]
  rfl

/-- A text that does not end in white space has no blank end. -/
theorem trimStart_ne_nil_of_solid {x u v : List Char} (hsolid : trimEnd x = x)
    (huv : x = u ++ v) (hv : v ≠ []) : trimStart v ≠ [] := by
  intro hnil
  rw [huv, trimEnd_append_of_blank u (trimStart_eq_nil_iff.mp hnil)] at hsolid
  have hlength := congrArg List.length hsolid
  have hle := length_trimEnd_le u
  have hpos := List.length_pos_iff.mpr hv
  rw [List.length_append] at hlength
  omega

/-- A word that is read across the end of a text, which white space follows, ends in the text. -/
private theorem exists_of_append_eq_append {s r t rest : List Char}
    (ht : ∀ c ∈ t, isWordChar c = true)
    (hr : r = [] ∨ ∃ b r', r = b :: r' ∧ isBlank b = true) (h : s ++ r = t ++ rest) :
    ∃ a, s = t ++ a ∧ rest = a ++ r := by
  rcases List.append_eq_append_iff.mp h with ⟨a, rfl, ha⟩ | ⟨a, ha, hrest⟩
  · cases a with
    | nil => exact ⟨[], by rw [List.append_nil, List.append_nil], ha.symm⟩
    | cons c a =>
        have hc := ht c (List.mem_append_right s (List.mem_cons_self ..))
        rcases hr with rfl | ⟨b, r', rfl, hb⟩
        · exact nomatch ha
        · rw [← (List.cons.inj ha).1, not_wordChar_of_blank hb] at hc
          exact nomatch hc
  · exact ⟨a, ha, hrest⟩

/-- A keyword that stands behind white space is a word of the text. -/
theorem containsWord_of_split {word : String} {u w k a : List Char} (hne : word.toList ≠ [])
    (hblank : ∀ c ∈ w, isBlank c = true) (hw : w ≠ []) (hk : upper k = upper word.toList)
    (ha : a.head?.any isWordChar = false) : containsWord word (u ++ (w ++ (k ++ a))) = true := by
  obtain ⟨w', b, rfl⟩ := (List.eq_nil_or_concat w).resolve_left hw
  have hb : isBlank b = true := hblank b (by simp)
  have hat : wordAt word.toList (some b) (k ++ a) = true := by
    rw [wordAt_iff]
    exact ⟨k, a, rfl, hk, not_wordChar_of_blank hb, ha⟩
  have hfound := @containsWord_of_wordAt word (u ++ w') (k ++ a) b hne hat
  rw [List.concat_eq_append, List.append_assoc w']
  rw [List.append_assoc u] at hfound
  exact hfound

/-- **Inside a text without a keyword there is no blank before one.** What is left of the text is
    followed by white space or by nothing. -/
theorem blanks_keyword_eq_none {word : String} (hw : IsHeaderWord word)
    {next : List Char → Option α} (hnext : RejectsWord next) {x u v r : List Char}
    (hx : containsWord word x = false) (hsolid : trimEnd x = x) (huv : x = u ++ v) (hv : v ≠ [])
    (hr : r = [] ∨ ∃ b r', r = b :: r' ∧ isBlank b = true) :
    blanks 1 (keyword word next) (v ++ r) = none := by
  obtain ⟨w, hblank, hwv⟩ := exists_append_trimStart v
  have hstart : StartsSolid (trimStart v ++ r) := by
    obtain ⟨c, t, hct⟩ := List.exists_cons_of_ne_nil (trimStart_ne_nil_of_solid hsolid huv hv)
    rw [hct]
    exact isBlank_head_trimStart hct
  rw [← hwv, List.append_assoc, blanks_append hblank hstart (keyword_rejectsBlank hw next)]
  by_cases hlen : 1 ≤ w.length
  · rw [if_pos hlen, keyword]
    cases hd : dropKeyword? word.toList (trimStart v ++ r) with
    | none => rfl
    | some rest =>
        -- the keyword cannot run into the white space behind the text
        obtain ⟨k, hsplit, hfold⟩ := exists_of_dropKeyword? hd
        have hupper := upper_eq_of_map_fold hw hfold
        obtain ⟨a, hka, rfl⟩ := exists_of_append_eq_append
          (wordChar_of_upper_eq hw.isKeyword hupper) hr hsplit
        show next (a ++ r) = none
        cases a with
        | nil =>
            have hfound := @containsWord_of_split word u w k [] hw.1 hblank
              (List.length_pos_iff.mp hlen) hupper rfl
            rw [← hka, hwv, ← huv, hx] at hfound
            exact nomatch hfound
        | cons d a =>
            -- a longer word is no match, and a whole word is not in the text
            cases hword : isWordChar d with
            | true => exact hnext d (a ++ r) hword
            | false =>
                have hfound := @containsWord_of_split word u w k (d :: a) hw.1 hblank
                  (List.length_pos_iff.mp hlen) hupper hword
                rw [← hka, hwv, ← huv, hx] at hfound
                exact nomatch hfound
  · rw [if_neg hlen]

/-! ## Matches, read backwards -/

section Match

variable {next : List Char → Option α} {s : List Char} {x : α}

/-- **White space** of the wanted length stood in front of what was matched. -/
theorem exists_of_blanks {least : Nat} (h : blanks least next s = some x) :
    ∃ w r, s = w ++ r ∧ (∀ c ∈ w, isBlank c = true) ∧ least ≤ w.length ∧ next r = some x := by
  have hnone : ∀ {least : Nat} {t : List Char}, (if least = 0 then next t else none) = some x →
      ∃ w r, t = w ++ r ∧ (∀ c ∈ w, isBlank c = true) ∧ least ≤ w.length ∧ next r = some x := by
    intro least t ht
    by_cases hleast : least = 0
    · rw [if_pos hleast] at ht
      exact ⟨[], t, rfl, List.forall_mem_nil _, Nat.le_of_eq hleast, ht⟩
    · rw [if_neg hleast] at ht
      cases ht
  induction s generalizing least with
  | nil => exact hnone h
  | cons c r ih =>
      rcases either_eq_some h with h | h
      · by_cases hc : isBlank c = true
        · rw [if_pos hc] at h
          obtain ⟨w, rest, rfl, hw, hleast, hnext⟩ := ih h
          refine ⟨c :: w, rest, rfl, ?_, Nat.le_add_of_sub_le hleast, hnext⟩
          intro d hd
          rcases List.mem_cons.mp hd with rfl | hd
          · exact hc
          · exact hw d hd
        · rw [if_neg hc] at h
          cases h
      · exact hnone h

/-- **A part** stood in front of what was matched; `taken` was read before it. -/
theorem exists_of_shortest {next : List Char → List Char → Option α} {taken : List Char}
    (h : shortest next taken s = some x) :
    ∃ u r, s = u ++ r ∧ next (taken.reverse ++ u) r = some x := by
  induction s generalizing taken with
  | nil => cases h
  | cons c r ih =>
      rw [shortest] at h
      by_cases hc : c = '\n'
      · rw [if_pos hc] at h
        cases h
      · rw [if_neg hc] at h
        rcases either_eq_some h with h | h
        · rw [List.reverse_cons] at h
          exact ⟨[c], r, rfl, h⟩
        · obtain ⟨u, rest, rfl, hnext⟩ := ih h
          rw [List.reverse_cons, List.append_assoc] at hnext
          exact ⟨c :: u, rest, rfl, hnext⟩

/-- **A keyword** stood in front of what was matched, in some case. -/
theorem exists_of_keyword {word : String} (hw : IsHeaderWord word)
    (h : keyword word next s = some x) :
    ∃ k r, s = k ++ r ∧ upper k = upper word.toList ∧ next r = some x := by
  obtain ⟨r, hr, hnext⟩ := Option.bind_eq_some_iff.mp h
  obtain ⟨k, rfl, hk⟩ := exists_of_dropKeyword? hr
  exact ⟨k, r, rfl, upper_eq_of_map_fold hw hk, hnext⟩

end Match

end StLint.Text.Pattern

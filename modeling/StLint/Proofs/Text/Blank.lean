import Mathlib.Data.List.TakeWhile
import Mathlib.Tactic.Common
import StLint.Text.Folding

/-!
# Trimming

What `trimStart`, `trimEnd` and `trim` do to a text that is put together from parts. **Blank ends do
not count**: white space put before or after a text is gone after trimming, and a text that begins
and ends with other characters is its own trim.

* `trimEnd_append_of_blank`, `trim_surrounded` — white space at an end is dropped.
* `trimEnd_append_of_ne_nil` — what precedes a text that is not blank is kept.
* `trim_trim` — trimming twice is trimming once.
-/

namespace StLint.Text

/-- A text of white space only, as a proposition on its characters. -/
theorem allBlank_iff {s : List Char} : allBlank s = true ↔ ∀ c ∈ s, isBlank c = true := by
  simp [allBlank]

/-- One space. -/
theorem blank_space : ∀ c ∈ [' '], isBlank c = true := by
  intro c hc
  rw [List.mem_singleton.mp hc]
  rfl

/-! ## The end -/

theorem trimEnd_cons (c : Char) (r : List Char) :
    trimEnd (c :: r) = if trimEnd r = [] then (if isBlank c then [] else [c]) else c :: trimEnd r := by
  rw [trimEnd]
  cases h : trimEnd r with
  | nil => rw [if_pos rfl]
  | cons d t => rw [if_neg (List.cons_ne_nil d t)]

/-- The rest of a text that does not end in white space does not either. -/
theorem trimEnd_eq_self_of_cons {c : Char} {r : List Char} (h : trimEnd (c :: r) = c :: r) :
    trimEnd r = r := by
  rw [trimEnd_cons] at h
  by_cases hr : trimEnd r = []
  · rw [if_pos hr] at h
    by_cases hc : isBlank c = true
    · rw [if_pos hc] at h
      exact nomatch h
    · rw [if_neg hc] at h
      rw [hr]
      exact (List.cons.inj h).2
  · rw [if_neg hr] at h
    exact (List.cons.inj h).2

/-- Only white space trims to nothing. -/
theorem trimEnd_eq_nil_iff {s : List Char} : trimEnd s = [] ↔ ∀ c ∈ s, isBlank c = true := by
  induction s with
  | nil => simp [trimEnd]
  | cons c r ih =>
      rw [trimEnd_cons]
      by_cases hr : trimEnd r = []
      · rw [if_pos hr]
        by_cases hc : isBlank c = true
        · rw [if_pos hc]
          exact ⟨fun _ => List.forall_mem_cons.mpr ⟨hc, ih.mp hr⟩, fun _ => rfl⟩
        · rw [if_neg hc]
          refine ⟨fun h => absurd h (List.cons_ne_nil _ _), fun h => absurd ?_ hc⟩
          exact h c (List.mem_cons_self ..)
      · rw [if_neg hr]
        refine ⟨fun h => absurd h (List.cons_ne_nil _ _), fun h => absurd (ih.mpr ?_) hr⟩
        exact (List.forall_mem_cons.mp h).2

/-- White space at the end is dropped. -/
theorem trimEnd_append_of_blank (s : List Char) {w : List Char} (hw : ∀ c ∈ w, isBlank c = true) :
    trimEnd (s ++ w) = trimEnd s := by
  induction s with
  | nil => exact trimEnd_eq_nil_iff.mpr hw
  | cons c r ih => rw [List.cons_append, trimEnd_cons, trimEnd_cons, ih]

/-- Before a text that is not blank everything is kept. -/
theorem trimEnd_append_of_ne_nil (s : List Char) {t : List Char} (ht : trimEnd t ≠ []) :
    trimEnd (s ++ t) = s ++ trimEnd t := by
  induction s with
  | nil => rfl
  | cons c r ih =>
      rw [List.cons_append, trimEnd_cons, ih]
      rw [if_neg (by simp [ht])]
      rfl

/-- A text that ends in another character is kept whole. -/
theorem trimEnd_concat (s : List Char) {c : Char} (hc : isBlank c = false) :
    trimEnd (s ++ [c]) = s ++ [c] := by
  have h1 : trimEnd [c] = [c] := by simp [trimEnd, hc]
  rw [trimEnd_append_of_ne_nil s (by rw [h1]; exact List.cons_ne_nil c []), h1]

/-- A text is its trim and the white space after it. -/
theorem exists_trimEnd_append (s : List Char) :
    ∃ w, (∀ c ∈ w, isBlank c = true) ∧ trimEnd s ++ w = s := by
  induction s with
  | nil => exact ⟨[], fun _ hc => (nomatch hc), rfl⟩
  | cons c r ih =>
      obtain ⟨w, hw, hr⟩ := ih
      rw [trimEnd_cons]
      by_cases hn : trimEnd r = []
      · rw [if_pos hn]
        rw [hn, List.nil_append] at hr
        by_cases hc : isBlank c = true
        · rw [if_pos hc]
          exact ⟨c :: w, List.forall_mem_cons.mpr ⟨hc, hw⟩, by rw [hr]; rfl⟩
        · rw [if_neg hc]
          exact ⟨w, hw, by rw [hr]; rfl⟩
      · rw [if_neg hn]
        exact ⟨w, hw, by rw [List.cons_append, hr]⟩

theorem trimEnd_trimEnd (s : List Char) : trimEnd (trimEnd s) = trimEnd s := by
  obtain ⟨w, hw, hs⟩ := exists_trimEnd_append s
  conv_rhs => rw [← hs]
  exact (trimEnd_append_of_blank _ hw).symm

/-! ## The start -/

theorem trimStart_cons (c : Char) (r : List Char) :
    trimStart (c :: r) = if isBlank c then trimStart r else c :: r := by
  rw [trimStart, List.dropWhile_cons]
  rfl

/-- White space at the start is dropped. -/
theorem trimStart_append_of_blank {w : List Char} (hw : ∀ c ∈ w, isBlank c = true) (s : List Char) :
    trimStart (w ++ s) = trimStart s := by
  induction w with
  | nil => rfl
  | cons c r ih =>
      rw [List.cons_append, trimStart_cons, if_pos (hw c (List.mem_cons_self ..))]
      exact ih fun d hd => hw d (List.mem_cons_of_mem _ hd)

theorem trimStart_of_not_blank {c : Char} (hc : isBlank c = false) (r : List Char) :
    trimStart (c :: r) = c :: r := by
  rw [trimStart_cons, if_neg (by simp [hc])]

/-- Only white space has nothing left at the start. -/
theorem trimStart_eq_nil_iff {s : List Char} : trimStart s = [] ↔ ∀ c ∈ s, isBlank c = true := by
  induction s with
  | nil => simp [trimStart]
  | cons c r ih =>
      rw [trimStart_cons]
      by_cases hc : isBlank c = true
      · rw [if_pos hc, ih, List.forall_mem_cons]
        exact ⟨fun h => ⟨hc, h⟩, fun h => h.2⟩
      · rw [if_neg hc]
        refine ⟨fun h => absurd h (List.cons_ne_nil _ _), fun h => absurd ?_ hc⟩
        exact h c (List.mem_cons_self ..)

/-- What is left begins with another character. -/
theorem isBlank_head_trimStart {s : List Char} {c : Char} {r : List Char}
    (h : trimStart s = c :: r) : isBlank c = false := by
  have hne : s.dropWhile isBlank ≠ [] := by
    rw [show s.dropWhile isBlank = c :: r from h]
    exact List.cons_ne_nil c r
  have hc := List.head_dropWhile_not isBlank hne
  simpa [show s.dropWhile isBlank = c :: r from h] using hc

/-- A text is white space and what is left after it. -/
theorem exists_append_trimStart (s : List Char) :
    ∃ w, (∀ c ∈ w, isBlank c = true) ∧ w ++ trimStart s = s :=
  ⟨s.takeWhile isBlank, fun _ hc => List.mem_takeWhile_imp hc, List.takeWhile_append_dropWhile⟩

theorem suffix_trimStart (s : List Char) : trimStart s <:+ s := by
  obtain ⟨w, -, hw⟩ := exists_append_trimStart s
  exact ⟨w, hw⟩

theorem infix_trim (s : List Char) : trim s <:+: s := by
  obtain ⟨w, -, hw⟩ := exists_trimEnd_append (trimStart s)
  have hprefix : trim s <+: trimStart s := ⟨w, hw⟩
  exact hprefix.isInfix.trans (suffix_trimStart s).isInfix

/-- The start of a text with something left is trimmed on its own. -/
theorem trimStart_append_of_ne_nil {s : List Char} (hs : trimStart s ≠ []) (t : List Char) :
    trimStart (s ++ t) = trimStart s ++ t := by
  induction s with
  | nil => exact absurd rfl hs
  | cons c r ih =>
      rw [trimStart_cons] at hs
      rw [List.cons_append, trimStart_cons, trimStart_cons]
      by_cases hc : isBlank c = true
      · rw [if_pos hc] at hs ⊢
        rw [if_pos hc]
        exact ih hs
      · rw [if_neg hc, if_neg hc]
        rfl

/-! ## Both ends -/

/-- The two ends are trimmed in either order. -/
theorem trimStart_trimEnd (s : List Char) : trimStart (trimEnd s) = trimEnd (trimStart s) := by
  obtain ⟨w, hw, hs⟩ := exists_append_trimStart s
  cases ht : trimStart s with
  | nil =>
      rw [ht, List.append_nil] at hs
      rw [trimEnd_eq_nil_iff.mpr (hs ▸ hw)]
      rfl
  | cons c r =>
      have hc := isBlank_head_trimStart ht
      have hne : trimEnd (c :: r) ≠ [] := by
        intro h
        have := trimEnd_eq_nil_iff.mp h c (List.mem_cons_self ..)
        rw [hc] at this
        exact Bool.noConfusion this
      obtain ⟨d, t, hd⟩ := List.exists_cons_of_ne_nil hne
      -- the first character that is left is the one that stopped the trim at the start
      have hcd : d = c := by
        rw [trimEnd_cons] at hd
        split at hd
        · rw [if_neg (by simp [hc])] at hd
          exact (List.cons.inj hd).1.symm
        · exact (List.cons.inj hd).1.symm
      rw [← hs, ht, trimEnd_append_of_ne_nil w hne, trimStart_append_of_blank hw, hd, hcd]
      exact trimStart_of_not_blank hc t

theorem trimStart_trimStart (s : List Char) : trimStart (trimStart s) = trimStart s := by
  cases h : trimStart s with
  | nil => rfl
  | cons c r => exact trimStart_of_not_blank (isBlank_head_trimStart h) r

theorem trimStart_trim (s : List Char) : trimStart (trim s) = trim s := by
  rw [trim, trimStart_trimEnd, trimStart_trimStart]

theorem trimEnd_trim (s : List Char) : trimEnd (trim s) = trim s := trimEnd_trimEnd (trimStart s)

theorem trim_trimStart (s : List Char) : trim (trimStart s) = trim s := by
  rw [trim, trimStart_trimStart, trim]

theorem trim_trim (s : List Char) : trim (trim s) = trim s := by
  conv_lhs => rw [trim, trimStart_trim, trimEnd_trim]

/-- White space around a text is dropped. -/
theorem trim_surrounded {v w : List Char} (hv : ∀ c ∈ v, isBlank c = true)
    (hw : ∀ c ∈ w, isBlank c = true) (s : List Char) : trim (v ++ s ++ w) = trim s := by
  show trimEnd (trimStart (v ++ s ++ w)) = trimEnd (trimStart s)
  rw [List.append_assoc, trimStart_append_of_blank hv, ← trimStart_trimEnd,
    trimEnd_append_of_blank s hw, trimStart_trimEnd]

theorem trim_append_of_blank (s : List Char) {w : List Char} (hw : ∀ c ∈ w, isBlank c = true) :
    trim (s ++ w) = trim s :=
  trim_surrounded (v := []) (fun _ hc => nomatch hc) hw s

theorem trim_blank_append {w : List Char} (hw : ∀ c ∈ w, isBlank c = true) (s : List Char) :
    trim (w ++ s) = trim s := by
  rw [trim, trim, trimStart_append_of_blank hw]

theorem trim_trimEnd (s : List Char) : trim (trimEnd s) = trim s := by
  obtain ⟨w, hw, hs⟩ := exists_trimEnd_append s
  conv_rhs => rw [← hs]
  exact (trim_append_of_blank _ hw).symm

theorem trim_eq_nil_iff {s : List Char} : trim s = [] ↔ ∀ c ∈ s, isBlank c = true := by
  show trimEnd (trimStart s) = [] ↔ _
  rw [← trimStart_trimEnd, trimStart_eq_nil_iff]
  obtain ⟨w, hw, hs⟩ := exists_trimEnd_append s
  constructor
  · intro h c hc
    rw [← hs] at hc
    rcases List.mem_append.mp hc with hc | hc
    · exact h c hc
    · exact hw c hc
  · intro h c hc
    exact h c (hs ▸ List.mem_append_left w hc)

/-- A text is its trim with white space around it. -/
theorem exists_trim_parts (s : List Char) :
    ∃ v w, (∀ c ∈ v, isBlank c = true) ∧ (∀ c ∈ w, isBlank c = true) ∧ v ++ (trim s ++ w) = s := by
  obtain ⟨v, hv, hs⟩ := exists_append_trimStart s
  obtain ⟨w, hw, ht⟩ := exists_trimEnd_append (trimStart s)
  refine ⟨v, w, hv, hw, ?_⟩
  rw [trim, ht, hs]

theorem trim_ne_nil_of_mem {s : List Char} {c : Char} (hc : c ∈ s) (h : isBlank c = false) :
    trim s ≠ [] := by
  intro hs
  have hblank := trim_eq_nil_iff.mp hs c hc
  rw [h] at hblank
  exact nomatch hblank

theorem trim_ne_nil_of_not_blank {s : List Char} (h : allBlank s = false) : trim s ≠ [] := by
  intro hs
  have hblank : allBlank s = true := allBlank_iff.mpr (trim_eq_nil_iff.mp hs)
  rw [h] at hblank
  exact nomatch hblank

theorem trimEnd_eq_self {s : List Char} (h : ∀ c ∈ s, isBlank c = false) : trimEnd s = s := by
  rcases List.eq_nil_or_concat s with rfl | ⟨t, c, rfl⟩
  · rfl
  · rw [List.concat_eq_append] at h ⊢
    exact trimEnd_concat t (h c List.mem_concat_self)

/-- A text without white space is its trim. -/
theorem trim_eq_self {s : List Char} (h : ∀ c ∈ s, isBlank c = false) : trim s = s := by
  cases s with
  | nil => rfl
  | cons c r => rw [trim, trimStart_of_not_blank (h c (List.mem_cons_self ..)), trimEnd_eq_self h]

theorem mem_of_mem_trim {s : List Char} {c : Char} (h : c ∈ trim s) : c ∈ s := by
  obtain ⟨v, w, -, -, hs⟩ := exists_trim_parts s
  rw [← hs]
  exact List.mem_append_right v (List.mem_append_left w h)

end StLint.Text

import Mathlib.Data.List.Sort
import StLint.Collection.Basic
import StLint.Proofs.Collection.Sorted

/-!
# Lists in the order of their keys

A finite map that is kept as a sorted list has one value for each key, so up to the order of its
values it is **the same map in any other list**: a lookup finds the same value, and the list that is
sorted again is the sorted list.

* `IsKeyOrder` — a strict order that tells any two keys apart, with its pairs and its pullbacks.
* `insertKeyed_perm`, `KeySorted.insertKeyed` — an insertion replaces the value of one key and keeps
  the order.
* `keySorted_mergeSort` — a sort by keys.
* `mem_sortOnce`, `keySorted_sortOnce` — a sort that keeps each value once, and depends on nothing else than
  which values there are (`sortOnce_congr`).
* `find?_eq_of_perm` — a lookup does not depend on the order of the values.
-/

namespace StLint

variable {α β κ : Type}

/-! ## Orders on keys -/

/-- A strict order that tells any two keys apart. -/
structure IsKeyOrder (before : κ → κ → Bool) : Prop where
  irrefl : ∀ a, before a a = false
  trans : ∀ {a b c}, before a b = true → before b c = true → before a c = true
  total : ∀ {a b}, a ≠ b → before a b = true ∨ before b a = true

namespace IsKeyOrder

variable {before : κ → κ → Bool}

theorem asymm (h : IsKeyOrder before) {a b : κ} (hab : before a b = true) : before b a = false := by
  by_contra hba
  rw [Bool.not_eq_false] at hba
  have := h.trans hab hba
  rw [h.irrefl] at this
  exact Bool.noConfusion this

/-- Only one key stands neither before nor behind a key. -/
theorem eq_of_not_before (h : IsKeyOrder before) {a b : κ} (hab : before a b = false)
    (hba : before b a = false) : a = b := by
  by_contra hne
  rcases h.total hne with h | h
  · exact Bool.noConfusion (hab.symm.trans h)
  · exact Bool.noConfusion (hba.symm.trans h)

/-- What stands before one of two keys and not before the other separates them. -/
theorem before_of_not_before (h : IsKeyOrder before) {a b c : κ} (hac : before a c = true)
    (hab : before a b = false) : before b c = true := by
  by_cases hbc : b = c
  · rw [hbc, hac] at hab
    exact Bool.noConfusion hab
  · refine (h.total hbc).resolve_right ?_
    intro hcb
    rw [h.trans hac hcb] at hab
    exact Bool.noConfusion hab

/-- Sorting compares by whether a key stands behind another one. -/
theorem notBehind_trans (h : IsKeyOrder before) {a b c : κ} (hab : (!before b a) = true)
    (hbc : (!before c b) = true) : (!before c a) = true := by
  rw [Bool.not_eq_true'] at hab hbc ⊢
  by_contra hca
  rw [Bool.not_eq_false] at hca
  rw [h.before_of_not_before hca hbc] at hab
  exact Bool.noConfusion hab

theorem notBehind_total (h : IsKeyOrder before) {a b : κ} :
    (!before b a || !before a b) = true := by
  cases hba : before b a with
  | false => rfl
  | true =>
      rw [h.asymm hba]
      rfl

/-- The order of a linear order. -/
theorem ofLinearOrder [LinearOrder κ] : IsKeyOrder fun a b : κ => decide (a < b) where
  irrefl := by simp
  trans := by
    intro a b c hab hbc
    simp only [decide_eq_true_eq] at hab hbc ⊢
    exact lt_trans hab hbc
  total := by
    intro a b hab
    simpa using lt_or_gt_of_ne hab

/-- Values are ordered by a key that tells them apart. -/
theorem comap (h : IsKeyOrder before) {f : α → κ} (hf : Function.Injective f) :
    IsKeyOrder fun a b => before (f a) (f b) where
  irrefl := fun a => h.irrefl (f a)
  trans := fun hab hbc => h.trans hab hbc
  total := fun hab => h.total (hf.ne hab)

/-- Pairs are ordered by their first part, then by their second. -/
theorem pairs [DecidableEq α] {first : α → α → Bool} {second : β → β → Bool}
    (h₁ : IsKeyOrder first) (h₂ : IsKeyOrder second) :
    IsKeyOrder fun a b : α × β => first a.1 b.1 || (decide (a.1 = b.1) && second a.2 b.2) where
  irrefl := by
    rintro ⟨a, b⟩
    simp [h₁.irrefl, h₂.irrefl]
  trans := by
    rintro ⟨a, x⟩ ⟨b, y⟩ ⟨c, z⟩ hab hbc
    simp only [Bool.or_eq_true, Bool.and_eq_true, decide_eq_true_eq] at hab hbc ⊢
    rcases hab with hab | ⟨rfl, hxy⟩
    · rcases hbc with hbc | ⟨rfl, -⟩
      · exact Or.inl (h₁.trans hab hbc)
      · exact Or.inl hab
    · rcases hbc with hbc | ⟨rfl, hyz⟩
      · exact Or.inl hbc
      · exact Or.inr ⟨rfl, h₂.trans hxy hyz⟩
  total := by
    rintro ⟨a, x⟩ ⟨b, y⟩ hne
    simp only [Bool.or_eq_true, Bool.and_eq_true, decide_eq_true_eq]
    by_cases hab : a = b
    · subst hab
      have hxy : x ≠ y := by
        rintro rfl
        exact hne rfl
      exact (h₂.total hxy).imp (fun h => Or.inr ⟨rfl, h⟩) (fun h => Or.inr ⟨rfl, h⟩)
    · exact (h₁.total hab).imp Or.inl Or.inl

end IsKeyOrder

/-! ## Insertion -/

section Insertion

variable {key : α → κ} {before : κ → κ → Bool} {a : α} {bs : List α}

/-- The values stand in the strict order of their keys. -/
def KeySorted (key : α → κ) (before : κ → κ → Bool) (bs : List α) : Prop :=
  bs.Pairwise fun a b => before (key a) (key b) = true

/-- Values in the order of their keys are told apart by them. -/
theorem KeySorted.eq_of_key_eq (hs : KeySorted key before bs) (hb : IsKeyOrder before) {b c : α}
    (hmb : b ∈ bs) (hmc : c ∈ bs) (h : key b = key c) : b = c := by
  have hne : bs.Pairwise fun a b => key a = key b → a = b := by
    refine hs.imp ?_
    intro a b hab heq
    rw [heq, hb.irrefl] at hab
    exact Bool.noConfusion hab
  exact hne.forall_of_forall_of_flip (fun _ _ _ => rfl)
    (hne.imp fun hab heq => (hab heq.symm).symm) hmb hmc h

variable [DecidableEq κ]

/-- **An insertion replaces the value with its key**, if there is one. -/
theorem insertKeyed_perm (hb : IsKeyOrder before) (hs : KeySorted key before bs) :
    (insertKeyed key before a bs).Perm (a :: bs.filter fun b => key b ≠ key a) := by
  induction bs with
  | nil => rfl
  | cons b bs ih =>
      obtain ⟨hhead, htail⟩ := List.pairwise_cons.mp hs
      -- behind a value with a later key there is none with this key
      have hlater : (∀ c ∈ bs, key c ≠ key a) → bs.filter (fun c => key c ≠ key a) = bs := by
        intro h
        simpa [List.filter_eq_self] using h
      rw [insertKeyed]
      by_cases hab : key a = key b
      · have hrest : ∀ c ∈ bs, key c ≠ key a := by
          intro c hc heq
          have := hhead c hc
          rw [heq, hab, hb.irrefl] at this
          exact Bool.noConfusion this
        rw [if_pos hab, List.filter_cons_of_neg (by simp [hab]), hlater hrest]
      · rw [if_neg hab, List.filter_cons_of_pos (by simpa using Ne.symm hab)]
        by_cases hbefore : before (key a) (key b) = true
        · have hrest : ∀ c ∈ bs, key c ≠ key a := by
            intro c hc heq
            have := hb.trans hbefore (hhead c hc)
            rw [heq, hb.irrefl] at this
            exact Bool.noConfusion this
          rw [if_pos hbefore, hlater hrest]
        · rw [if_neg hbefore]
          exact ((ih htail).cons b).trans (List.Perm.swap a b _)

theorem mem_insertKeyed (hb : IsKeyOrder before) (hs : KeySorted key before bs) {b : α}
    (h : b ∈ insertKeyed key before a bs) : b = a ∨ b ∈ bs := by
  have := (insertKeyed_perm hb hs).mem_iff.mp h
  simp only [List.mem_cons, List.mem_filter] at this
  exact this.imp_right And.left

/-- **An insertion keeps the order.** -/
theorem KeySorted.insertKeyed (hs : KeySorted key before bs) (hb : IsKeyOrder before) :
    KeySorted key before (StLint.insertKeyed key before a bs) := by
  induction bs with
  | nil => exact List.pairwise_singleton _ a
  | cons b bs ih =>
      obtain ⟨hhead, htail⟩ := List.pairwise_cons.mp hs
      rw [StLint.insertKeyed]
      by_cases hab : key a = key b
      · rw [if_pos hab]
        refine List.pairwise_cons.mpr ⟨?_, htail⟩
        intro c hc
        rw [hab]
        exact hhead c hc
      · rw [if_neg hab]
        by_cases hbefore : before (key a) (key b) = true
        · rw [if_pos hbefore]
          refine List.pairwise_cons.mpr ⟨?_, hs⟩
          intro c hc
          rcases List.mem_cons.mp hc with rfl | hc
          · exact hbefore
          · exact hb.trans hbefore (hhead c hc)
        · rw [if_neg hbefore]
          refine List.pairwise_cons.mpr ⟨?_, ih htail⟩
          intro c hc
          rcases mem_insertKeyed hb htail hc with rfl | hc
          · exact (hb.total hab).resolve_left hbefore
          · exact hhead c hc

/-- **An insertion over a value that is there** changes this value in its place. -/
theorem insertKeyed_eq_map (hb : IsKeyOrder before) (hs : KeySorted key before bs) (f : α → α)
    {b : α} (hmem : b ∈ bs) (hkey : key (f b) = key b) :
    StLint.insertKeyed key before (f b) bs
      = bs.map fun c => if key c = key b then f c else c := by
  induction bs with
  | nil => exact nomatch hmem
  | cons c bs ih =>
      obtain ⟨hhead, htail⟩ := List.pairwise_cons.mp hs
      rw [StLint.insertKeyed, List.map_cons, hkey]
      rcases List.mem_cons.mp hmem with rfl | hmem
      · have hrest : bs.map (fun c => if key c = key b then f c else c) = bs := by
          conv_rhs => rw [← List.map_id bs]
          refine List.map_congr_left ?_
          intro c hc
          have hne : key c ≠ key b := by
            intro heq
            have hlt := hhead c hc
            rw [heq, hb.irrefl] at hlt
            exact Bool.noConfusion hlt
          rw [if_neg hne]
          rfl
        rw [if_pos rfl, if_pos rfl, hrest]
      · have hlt := hhead b hmem
        have hne : key b ≠ key c := by
          intro heq
          rw [heq, hb.irrefl] at hlt
          exact Bool.noConfusion hlt
        rw [if_neg hne, if_neg (by rw [hb.asymm hlt]; exact Bool.noConfusion),
          if_neg (Ne.symm hne), ih htail hmem]

end Insertion

/-! ## Other orders of the values -/

section Sorting

variable {before : κ → κ → Bool} {as bs : List α} (key : α → κ)

/-- **A list sorted by keys** is the sort of every list of the same values. -/
theorem mergeSort_eq_of_keys (hb : IsKeyOrder before) (h : as.Perm bs)
    (hs : bs.Pairwise fun a b => (!before (key b) (key a)) = true)
    (hkeys : ∀ a ∈ bs, ∀ b ∈ bs, key a = key b → a = b) :
    as.mergeSort (fun a b => !before (key b) (key a)) = bs := by
  refine mergeSort_eq_of_perm ?_ ?_ h hs ?_
  · intro a b c
    exact hb.notBehind_trans
  · intro a b
    exact hb.notBehind_total
  · intro a ha b hmb hab hba
    rw [Bool.not_eq_true'] at hab hba
    exact hkeys a ha b hmb (hb.eq_of_not_before hba hab)

/-- Lists of the same values have one sort. -/
theorem mergeSort_congr_of_keys (hb : IsKeyOrder before) (h : as.Perm bs)
    (hkeys : ∀ a ∈ bs, ∀ b ∈ bs, key a = key b → a = b) :
    as.mergeSort (fun a b => !before (key b) (key a))
      = bs.mergeSort fun a b => !before (key b) (key a) := by
  have hperm := List.mergeSort_perm bs fun a b => !before (key b) (key a)
  refine mergeSort_eq_of_keys key hb (h.trans hperm.symm) (List.pairwise_mergeSort ?_ ?_ bs) ?_
  · intro a b c
    exact hb.notBehind_trans
  · intro a b
    exact hb.notBehind_total
  · intro a ha b hmb
    exact hkeys a (hperm.mem_iff.mp ha) b (hperm.mem_iff.mp hmb)

/-- **A sort by keys is in their strict order**, where they tell the values apart. -/
theorem keySorted_mergeSort (hb : IsKeyOrder before)
    (hdistinct : as.Pairwise fun a b => key a ≠ key b) :
    KeySorted key before (as.mergeSort fun a b => !before (key b) (key a)) := by
  have hsorted : (as.mergeSort fun a b => !before (key b) (key a)).Pairwise
      fun a b => (!before (key b) (key a)) = true := by
    refine List.pairwise_mergeSort ?_ ?_ as
    · intro a b c
      exact hb.notBehind_trans
    · intro a b
      exact hb.notBehind_total
  have hapart : (as.mergeSort fun a b => !before (key b) (key a)).Pairwise
      fun a b => key a ≠ key b :=
    ((List.mergeSort_perm as _).pairwise_iff fun h => h.symm).mpr hdistinct
  refine (hsorted.and hapart).imp ?_
  rintro a b ⟨hnot, hne⟩
  rw [Bool.not_eq_true'] at hnot
  refine (hb.total hne).resolve_right ?_
  rw [hnot]
  exact Bool.noConfusion

end Sorting

/-! ## Each value once -/

section Once

variable [DecidableEq α] {before : α → α → Bool}

/-- Values are their own keys. -/
theorem insertOnce_eq_insertKeyed (a : α) (bs : List α) :
    insertOnce before a bs = insertKeyed id before a bs := by
  induction bs with
  | nil => rfl
  | cons b bs ih =>
      rw [insertOnce, insertKeyed, ih, id, id]
      by_cases hab : a = b
      · rw [if_pos hab, if_pos hab, hab]
      · rw [if_neg hab, if_neg hab]

theorem mem_insertOnce {a x : α} {bs : List α} : x ∈ insertOnce before a bs ↔ x = a ∨ x ∈ bs := by
  induction bs with
  | nil => exact List.mem_cons
  | cons b bs ih =>
      rw [insertOnce]
      by_cases hab : a = b
      · rw [if_pos hab, hab, List.mem_cons, ← or_assoc, or_self]
      · rw [if_neg hab]
        by_cases hbefore : before a b = true
        · rw [if_pos hbefore]
          exact List.mem_cons
        · rw [if_neg hbefore, List.mem_cons, ih, List.mem_cons, or_left_comm]

/-- What was sorted before and what is still to be inserted. -/
theorem mem_foldl_insertOnce {x : α} {as bs : List α} :
    x ∈ as.foldl (fun sorted a => insertOnce before a sorted) bs ↔ x ∈ as ∨ x ∈ bs := by
  induction as generalizing bs with
  | nil => simp
  | cons a as ih => rw [List.foldl_cons, ih, mem_insertOnce, List.mem_cons, or_left_comm, or_assoc]

theorem KeySorted.foldl_insertOnce (hb : IsKeyOrder before) {as bs : List α}
    (hs : KeySorted id before bs) :
    KeySorted id before (as.foldl (fun sorted a => insertOnce before a sorted) bs) := by
  induction as generalizing bs with
  | nil => exact hs
  | cons a as ih =>
      rw [List.foldl_cons, insertOnce_eq_insertKeyed]
      exact ih (hs.insertKeyed hb)

theorem mem_sortOnce {x : α} {as : List α} : x ∈ sortOnce before as ↔ x ∈ as := by
  rw [sortOnce, mem_foldl_insertOnce, or_iff_left List.not_mem_nil]

/-- **The values stand in their order.** -/
theorem keySorted_sortOnce (hb : IsKeyOrder before) (as : List α) :
    KeySorted id before (sortOnce before as) := KeySorted.foldl_insertOnce hb List.Pairwise.nil

/-- **Each value is kept once.** -/
theorem nodup_sortOnce (hb : IsKeyOrder before) (as : List α) : (sortOnce before as).Nodup := by
  refine (keySorted_sortOnce hb as).imp ?_
  rintro a b hab rfl
  rw [hb.irrefl] at hab
  exact Bool.noConfusion hab

/-- **Which values there are is all that counts**, not how often and in which order. -/
theorem sortOnce_congr (hb : IsKeyOrder before) {as bs : List α} (h : ∀ a, a ∈ as ↔ a ∈ bs) :
    sortOnce before as = sortOnce before bs := by
  have hperm : (sortOnce before as).Perm (sortOnce before bs) := by
    refine (List.perm_ext_iff_of_nodup (nodup_sortOnce hb as) (nodup_sortOnce hb bs)).mpr ?_
    intro a
    rw [mem_sortOnce, mem_sortOnce, h]
  refine hperm.eq_of_pairwise ?_ (keySorted_sortOnce hb as) (keySorted_sortOnce hb bs)
  intro a b _ _ hab hba
  rw [hb.asymm hab] at hba
  exact Bool.noConfusion hba

end Once

/-- **A lookup does not depend on the order**, where at most one value passes. -/
theorem find?_eq_of_perm {p : α → Bool} {as bs : List α} (h : as.Perm bs)
    (hp : ∀ a ∈ as, ∀ b ∈ as, p a = true → p b = true → a = b) : as.find? p = bs.find? p := by
  cases has : as.find? p with
  | none =>
      rw [List.find?_eq_none] at has
      refine (List.find?_eq_none.mpr ?_).symm
      intro b hb
      exact has b (h.mem_iff.mpr hb)
  | some a =>
      cases hbs : bs.find? p with
      | none =>
          rw [List.find?_eq_none] at hbs
          exact absurd (List.find?_some has) (hbs a (h.mem_iff.mp (List.mem_of_find?_eq_some has)))
      | some b =>
          have hb := h.mem_iff.mpr (List.mem_of_find?_eq_some hbs)
          rw [hp a (List.mem_of_find?_eq_some has) b hb (List.find?_some has) (List.find?_some hbs)]

end StLint

import Mathlib.Data.List.Nodup
import Mathlib.Data.List.TakeWhile
import Mathlib.Tactic.Common

/-!
# The order of a list

A merge sort keeps elements that stand level in the order in which they were given. So what is left
out of a list **leaves no trace in its sort**: the elements that stay come out in the same order,
whether the others are dropped before the sort or after it.

* `Precedes` — an element stands somewhere before another one.
* `Precedes.asymm`, `Precedes.trans`, `Precedes.total` — without repetition, a strict order of the
  elements.
* `append_inj_of_holds` — a list is cut in one way only where a predicate stops to hold.
* `mergeSort_filter` — sorting commutes with filtering, for every total preorder.
* `pairwise_mergeSort_stable` — elements that stand level come out in the order of the list.
* `mergeSort_eq_of_perm` — where no two elements stand level there is one sorted list only.
* `mergeSort_le_of_perm`, `mergeSort_lex_of_perm` — so for numbers, and for lists of numbers.
-/

/-! ## One element before another -/

namespace StLint

variable {α β : Type} {as bs : List α} {a b c : α}

/-- An element stands somewhere before another one. -/
def Precedes (as : List α) (a b : α) : Prop := [a, b].Sublist as

theorem precedes_cons : Precedes (c :: as) a b ↔ (a = c ∧ b ∈ as) ∨ Precedes as a b := by
  rw [Precedes, List.sublist_cons_iff, or_comm]
  refine or_congr ?_ Iff.rfl
  constructor
  · rintro ⟨r, heq, hr⟩
    obtain ⟨rfl, rfl⟩ := List.cons.inj heq
    exact ⟨rfl, List.singleton_sublist.mp hr⟩
  · rintro ⟨rfl, hb⟩
    exact ⟨[b], rfl, List.singleton_sublist.mpr hb⟩

namespace Precedes

theorem left_mem (h : Precedes as a b) : a ∈ as := h.subset (List.mem_cons_self ..)

theorem right_mem (h : Precedes as a b) : b ∈ as := h.subset (List.mem_cons_of_mem a (List.mem_singleton_self b))

theorem mono (h : Precedes as a b) (hsub : as.Sublist bs) : Precedes bs a b := List.Sublist.trans h hsub

theorem map (f : α → β) (h : Precedes as a b) : Precedes (as.map f) (f a) (f b) := List.Sublist.map f h

theorem append (ha : a ∈ as) (hb : b ∈ bs) : Precedes (as ++ bs) a b :=
  (List.singleton_sublist.mpr ha).append (List.singleton_sublist.mpr hb)

/-- **Without repetition** no two elements stand in both orders. -/
theorem asymm (hnodup : as.Nodup) (h : Precedes as a b) : ¬ Precedes as b a := by
  induction as with
  | nil => exact absurd h.left_mem List.not_mem_nil
  | cons c as ih =>
      obtain ⟨hc, hnodup⟩ := List.nodup_cons.mp hnodup
      intro hback
      rcases precedes_cons.mp h with ⟨rfl, hb⟩ | htail
      · rcases precedes_cons.mp hback with ⟨rfl, -⟩ | hback
        · exact hc hb
        · exact hc hback.right_mem
      · rcases precedes_cons.mp hback with ⟨rfl, -⟩ | hback
        · exact hc htail.right_mem
        · exact ih hnodup htail hback

theorem ne (hnodup : as.Nodup) (h : Precedes as a b) : a ≠ b := by
  rintro rfl
  exact h.asymm hnodup h

theorem trans (hnodup : as.Nodup) (hab : Precedes as a b) (hbc : Precedes as b c) : Precedes as a c := by
  induction as with
  | nil => exact absurd hab.left_mem List.not_mem_nil
  | cons x as ih =>
      obtain ⟨hx, hnodup⟩ := List.nodup_cons.mp hnodup
      rcases precedes_cons.mp hbc with ⟨rfl, -⟩ | hbctail
      · -- nothing stands before the first element
        rcases precedes_cons.mp hab with ⟨-, hb⟩ | habtail
        · exact absurd hb hx
        · exact absurd habtail.right_mem hx
      · rcases precedes_cons.mp hab with ⟨rfl, -⟩ | habtail
        · exact precedes_cons.mpr (Or.inl ⟨rfl, hbctail.right_mem⟩)
        · exact precedes_cons.mpr (Or.inr (ih hnodup habtail hbctail))

theorem total (ha : a ∈ as) (hb : b ∈ as) (hne : a ≠ b) : Precedes as a b ∨ Precedes as b a := by
  induction as with
  | nil => exact absurd ha List.not_mem_nil
  | cons x as ih =>
      rw [precedes_cons, precedes_cons]
      rcases List.mem_cons.mp ha with rfl | hatail
      · exact Or.inl (Or.inl ⟨rfl, (List.mem_cons.mp hb).resolve_left (Ne.symm hne)⟩)
      · rcases List.mem_cons.mp hb with rfl | hbtail
        · exact Or.inr (Or.inl ⟨rfl, hatail⟩)
        · exact (ih hatail hbtail).imp Or.inr Or.inr

/-- **A sublist keeps the order** of its elements. -/
theorem of_sublist (hnodup : bs.Nodup) (hsub : as.Sublist bs) (ha : a ∈ as) (hb : b ∈ as)
    (h : Precedes bs a b) : Precedes as a b := by
  refine (total ha hb (h.ne hnodup)).resolve_right ?_
  intro hback
  exact h.asymm hnodup (hback.mono hsub)

end Precedes

end StLint

/-! ## Stable sorting -/

namespace StLint

variable {α : Type} {le : α → α → Bool}

/-- There is one place at most before which a predicate holds and behind which it fails. -/
theorem append_inj_of_holds {p : α → Bool} {s₁ s₂ t₁ t₂ : List α} (h : s₁ ++ s₂ = t₁ ++ t₂)
    (hs₁ : ∀ a ∈ s₁, p a = true) (hs₂ : ∀ a ∈ s₂, p a = false) (ht₁ : ∀ a ∈ t₁, p a = true)
    (ht₂ : ∀ a ∈ t₂, p a = false) : s₁ = t₁ ∧ s₂ = t₂ := by
  have hnil : ∀ l : List α, (∀ a ∈ l, p a = false) → l.takeWhile p = [] := by
    intro l hl
    cases l with
    | nil => rfl
    | cons a l =>
        rw [List.takeWhile_cons, hl a (List.mem_cons_self ..)]
        rfl
  have hfirst : s₁ = t₁ := by
    have htake := congrArg (List.takeWhile p) h
    rw [List.takeWhile_append_of_pos hs₁, List.takeWhile_append_of_pos ht₁, hnil s₂ hs₂,
      hnil t₂ ht₂, List.append_nil, List.append_nil] at htake
    exact htake
  subst hfirst
  exact ⟨rfl, List.append_cancel_left h⟩

/-- **Sorting commutes with filtering.** -/
theorem mergeSort_filter (htrans : ∀ a b c, le a b = true → le b c = true → le a c = true)
    (htotal : ∀ a b, (le a b || le b a) = true) (p : α → Bool) (l : List α) :
    (l.filter p).mergeSort le = (l.mergeSort le).filter p := by
  induction l with
  | nil => rw [List.filter_nil, List.mergeSort_nil, List.filter_nil]
  | cons a l ih =>
      -- the sort inserts `a` behind the elements that stand strictly before it
      obtain ⟨l₁, l₂, hsort, hrest, hbefore⟩ := List.mergeSort_cons htrans htotal a l
      rw [hrest, List.filter_append] at ih
      rw [hsort, List.filter_append]
      by_cases ha : p a = true
      · obtain ⟨m₁, m₂, hsort', hrest', hbefore'⟩ :=
          List.mergeSort_cons htrans htotal a (l.filter p)
        have hsorted := List.pairwise_mergeSort htrans htotal (a :: l)
        have hsorted' := List.pairwise_mergeSort htrans htotal (a :: l.filter p)
        rw [hsort] at hsorted
        rw [hsort'] at hsorted'
        -- nothing behind `a` stands strictly before it, in either sort
        have hbehind : ∀ {s₁ s₂ : List α}, (s₁ ++ a :: s₂).Pairwise (fun a b => le a b = true) →
            ∀ b ∈ s₂, (!le a b) = false := by
          intro s₁ s₂ hs b hb
          rw [(List.pairwise_cons.mp (List.pairwise_append.mp hs).2.1).1 b hb]
          rfl
        rw [hrest'] at ih
        obtain ⟨hfirst, hsecond⟩ := append_inj_of_holds ih hbefore' (hbehind hsorted')
          (fun b hb => hbefore b (List.mem_filter.mp hb).1)
          (fun b hb => hbehind hsorted b (List.mem_filter.mp hb).1)
        rw [List.filter_cons_of_pos ha, List.filter_cons_of_pos ha, hsort', hfirst, hsecond]
      · rw [List.filter_cons_of_neg ha, List.filter_cons_of_neg ha, ih]

/-- **Sorting is stable**: what stands level comes out in the order in which it was given. -/
theorem pairwise_mergeSort_stable (htrans : ∀ a b c, le a b = true → le b c = true → le a c = true)
    (htotal : ∀ a b, (le a b || le b a) = true) {before : α → α → Prop} {l : List α}
    (h : l.Pairwise before) :
    (l.mergeSort le).Pairwise fun a b => le a b = true ∧ (le b a = true → before a b) := by
  induction l with
  | nil =>
      rw [List.mergeSort_nil]
      exact List.Pairwise.nil
  | cons a l ih =>
      obtain ⟨hhead, htail⟩ := List.pairwise_cons.mp h
      -- the sort inserts `a` behind the elements that stand strictly before it
      obtain ⟨l₁, l₂, hsort, hrest, hbefore⟩ := List.mergeSort_cons htrans htotal a l
      have hsorted := List.pairwise_mergeSort htrans htotal (a :: l)
      have ih := ih htail
      rw [hrest] at ih
      rw [hsort] at hsorted ⊢
      obtain ⟨hfirst, hsecond, hacross⟩ := List.pairwise_append.mp ih
      obtain ⟨hbehind, -⟩ := List.pairwise_cons.mp (List.pairwise_append.mp hsorted).2.1
      refine List.pairwise_append.mpr ⟨hfirst, List.pairwise_cons.mpr ⟨?_, hsecond⟩, ?_⟩
      · intro b hb
        have hmem : b ∈ l := by
          refine (List.mergeSort_perm l le).mem_iff.mp ?_
          rw [hrest]
          exact List.mem_append_right _ hb
        exact ⟨hbehind b hb, fun _ => hhead b hmem⟩
      · intro b hb c hc
        rcases List.mem_cons.mp hc with rfl | hc
        · have hstrict := hbefore b hb
          rw [Bool.not_eq_true'] at hstrict
          have hle := htotal c b
          rw [hstrict, Bool.false_or] at hle
          refine ⟨hle, ?_⟩
          intro hcb
          exact Bool.noConfusion (hcb.symm.trans hstrict)
        · exact hacross b hb c hc

/-- **There is one sorted list only**, where no two elements of it stand level. -/
theorem mergeSort_eq_of_perm (htrans : ∀ a b c, le a b = true → le b c = true → le a c = true)
    (htotal : ∀ a b, (le a b || le b a) = true) {l m : List α} (h : l.Perm m)
    (hm : m.Pairwise fun a b => le a b = true)
    (hanti : ∀ a ∈ m, ∀ b ∈ m, le a b = true → le b a = true → a = b) : l.mergeSort le = m := by
  have hperm : (l.mergeSort le).Perm m := (List.mergeSort_perm l le).trans h
  refine hperm.eq_of_pairwise ?_ (List.pairwise_mergeSort htrans htotal l) hm
  intro a b ha hb
  exact hanti a (hperm.mem_iff.mp ha) b hb

/-- A strictly increasing list is the sort of its members. -/
theorem mergeSort_le_of_perm {l m : List Nat} (h : l.Perm m) (hm : m.Pairwise (· < ·)) :
    (l.mergeSort fun i j => i ≤ j) = m := by
  refine mergeSort_eq_of_perm ?_ ?_ h ?_ ?_
  · intro a b c hab hbc
    exact decide_eq_true (Nat.le_trans (of_decide_eq_true hab) (of_decide_eq_true hbc))
  · intro a b
    simpa using Nat.le_total a b
  · exact hm.imp fun hab => decide_eq_true (Nat.le_of_lt hab)
  · intro a _ b _ hab hba
    exact Nat.le_antisymm (of_decide_eq_true hab) (of_decide_eq_true hba)

/-! ## Lists by their members, first to last -/

theorem not_lex_self (c : List Nat) : ¬ c.lex c = true := by
  rw [List.lex_eq_true_iff_lt]
  exact List.lt_irrefl c

theorem not_lex_iff {c d : List Nat} : (!d.lex c) = true ↔ List.le c d := by
  rw [Bool.not_eq_true', List.lex_eq_false_iff_ge]
  rfl

/-- Lists with smaller first members are smaller. -/
theorem lex_of_head?_lt {c d : List Nat} {i j : Nat} (hc : c.head? = some i) (hd : d.head? = some j)
    (hij : i < j) : c.lex d = true := by
  obtain ⟨c, rfl⟩ := List.head?_eq_some_iff.mp hc
  obtain ⟨d, rfl⟩ := List.head?_eq_some_iff.mp hd
  rw [List.cons_lex_cons, decide_eq_true hij, Bool.true_or]

@[inherit_doc mergeSort_le_of_perm]
theorem mergeSort_lex_of_perm {l m : List (List Nat)} (h : l.Perm m)
    (hm : m.Pairwise fun c d => c.lex d = true) : (l.mergeSort fun c d => !d.lex c) = m := by
  refine mergeSort_eq_of_perm ?_ ?_ h ?_ ?_
  · intro a b c hab hbc
    rw [not_lex_iff] at *
    exact List.le_trans hab hbc
  · intro a b
    rw [Bool.or_eq_true, not_lex_iff, not_lex_iff]
    exact List.le_total a b
  · refine hm.imp ?_
    intro a b hab
    exact not_lex_iff.mpr (List.le_of_lt (List.lex_eq_true_iff_lt.mp hab))
  · intro a _ b _ hab hba
    exact List.le_antisymm (not_lex_iff.mp hab) (not_lex_iff.mp hba)

end StLint

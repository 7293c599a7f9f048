import Mathlib.Data.List.FinRange
import Mathlib.Data.Fintype.Basic
import StLint.Collection.Basic

/-!
# The first element with each key

* `IsFirst` — a place in a list before which no element has the same key.
* `firstBy_eq_map_filter` — what is kept are the elements at these places.
* `pairwise_firstBy` — no two elements that are kept have one key.
* `SameByKey` — lists in which the order of elements with different keys may differ. They keep the same
  (`SameByKey.firstBy_perm`).
-/

namespace StLint

variable {α κ : Type} (key : α → κ)

/-- No element before a place has the key of the element there. -/
def IsFirst (as : List α) (n : Fin as.length) : Prop := ∀ m < n, key as[m] ≠ key as[n]

section IsFirst

variable {key} {a : α} {as : List α}

theorem isFirst_zero : IsFirst key (a :: as) (0 : Fin (as.length + 1)) := by
  intro m hm
  exact absurd hm (Fin.not_lt_zero m)

/-- A place behind the first element has to differ from this one too. -/
theorem isFirst_succ {n : Fin as.length} :
    IsFirst key (a :: as) n.succ ↔ key as[n] ≠ key a ∧ IsFirst key as n := by
  refine Fin.forall_fin_succ.trans (and_congr ?_ ?_)
  · exact (imp_iff_right n.succ_pos).trans ne_comm
  · refine forall_congr' ?_
    intro m
    rw [Fin.succ_lt_succ_iff]
    rfl

end IsFirst

variable [DecidableEq κ]

instance decidableIsFirst (as : List α) (n : Fin as.length) : Decidable (IsFirst key as n) :=
  inferInstanceAs (Decidable (∀ m < n, key as[m] ≠ key as[n]))

/-- **Kept is what no element before it has the key of**, in the order of the list. -/
theorem firstBy_eq_map_filter (as : List α) :
    firstBy key as = ((List.finRange as.length).filter (IsFirst key as ·)).map as.get := by
  induction as with
  | nil => rfl
  | cons a as ih =>
      have hplaces : List.finRange (a :: as).length = 0 :: (List.finRange as.length).map Fin.succ :=
        List.finRange_succ
      rw [firstBy, ih, List.filter_map, List.filter_filter, hplaces, List.filter_cons,
        if_pos (decide_eq_true isFirst_zero), List.map_cons, List.filter_map, List.map_map]
      show a :: (List.filter _ _).map as.get = a :: (List.filter _ _).map as.get
      congr 2
      refine List.filter_congr ?_
      intro n _
      rw [Function.comp_apply, Function.comp_apply, ← Bool.decide_and]
      exact decide_eq_decide.mpr isFirst_succ.symm

theorem firstBy_sublist (as : List α) : (firstBy key as).Sublist as := by
  induction as with
  | nil => exact List.Sublist.slnil
  | cons a as ih =>
      rw [firstBy]
      exact (List.filter_sublist.trans ih).cons_cons a

/-- **No two elements that are kept have one key.** -/
theorem pairwise_firstBy (as : List α) : (firstBy key as).Pairwise fun a b => key a ≠ key b := by
  induction as with
  | nil => exact List.Pairwise.nil
  | cons a as ih =>
      rw [firstBy]
      refine List.pairwise_cons.mpr ⟨?_, ih.filter _⟩
      intro b hb
      have hne := (List.mem_filter.mp hb).2
      exact Ne.symm (of_decide_eq_true hne)

/-- Every key is the key of an element that is kept. -/
theorem exists_mem_firstBy {a : α} {as : List α} (h : a ∈ as) :
    ∃ b ∈ firstBy key as, key b = key a := by
  induction as with
  | nil => exact nomatch h
  | cons c as ih =>
      rw [firstBy]
      by_cases hac : key c = key a
      · exact ⟨c, List.mem_cons_self .., hac⟩
      · have hmem : a ∈ as := by
          refine (List.mem_cons.mp h).resolve_left ?_
          rintro rfl
          exact hac rfl
        obtain ⟨b, hb, hba⟩ := ih hmem
        refine ⟨b, List.mem_cons_of_mem _ (List.mem_filter.mpr ⟨hb, decide_eq_true ?_⟩), hba⟩
        rw [hba]
        exact Ne.symm hac

/-- **An element is kept** if and only if it is the first one with its key. -/
theorem mem_firstBy_iff {a : α} {as : List α} :
    a ∈ firstBy key as ↔ as.find? (fun b => key b = key a) = some a := by
  induction as with
  | nil => exact ⟨nofun, nofun⟩
  | cons c as ih =>
      rw [firstBy, List.mem_cons, List.mem_filter, decide_eq_true_eq, List.find?_cons]
      by_cases hca : key c = key a
      · simp only [decide_eq_true hca, Option.some_inj]
        exact (or_iff_left fun h => h.2 hca.symm).trans eq_comm
      · simp only [decide_eq_false hca]
        rw [← ih]
        have hne : a ≠ c := by
          rintro rfl
          exact hca rfl
        exact (or_iff_right hne).trans (and_iff_left (Ne.symm hca))

/-- With the elements as their keys none is lost. -/
theorem mem_firstBy_id {a : κ} {as : List κ} : a ∈ firstBy id as ↔ a ∈ as := by
  constructor
  · exact fun h => (firstBy_sublist id as).subset h
  · intro h
    obtain ⟨b, hb, hba⟩ := exists_mem_firstBy id h
    exact (show b = a from hba) ▸ hb

theorem nodup_firstBy (as : List α) : (firstBy key as).Nodup :=
  (pairwise_firstBy key as).imp fun hne heq => hne (congrArg key heq)

/-- What is mapped is compared by the key of its image. -/
theorem firstBy_map {β : Type} (f : β → α) (bs : List β) :
    firstBy key (bs.map f) = (firstBy (key ∘ f) bs).map f := by
  induction bs with
  | nil => rfl
  | cons b bs ih =>
      rw [List.map_cons, firstBy, ih, List.filter_map, firstBy, List.map_cons]
      rfl

/-- What a key decides is decided before or after the first elements are taken. -/
theorem filter_firstBy {p : α → Bool} (hp : ∀ a b, key a = key b → p a = p b) (as : List α) :
    (firstBy key as).filter p = firstBy key (as.filter p) := by
  induction as with
  | nil => rfl
  | cons a as ih =>
      by_cases ha : p a = true
      · rw [firstBy, List.filter_cons_of_pos ha, List.filter_cons_of_pos ha, firstBy, ← ih,
          List.filter_filter, List.filter_filter]
        congr 2
        funext b
        exact Bool.and_comm ..
      · rw [firstBy, List.filter_cons_of_neg ha, List.filter_cons_of_neg ha, ← ih,
          List.filter_filter]
        refine List.filter_congr ?_
        intro b _
        -- what has the key of the first element is left out with it
        by_cases hb : p b = true
        · rw [hb, Bool.true_and, decide_eq_true_eq]
          intro heq
          exact ha (hp b a heq ▸ hb)
        · rw [Bool.eq_false_iff.mpr hb, Bool.false_and]

theorem firstBy_eq_nil_iff {as : List α} : firstBy key as = [] ↔ as = [] := by
  cases as with
  | nil => exact Iff.rfl
  | cons a as => exact ⟨nofun, nofun⟩

/-- Where the keys differ everything is kept. -/
theorem firstBy_eq_self {as : List α} (h : as.Pairwise fun a b => key a ≠ key b) :
    firstBy key as = as := by
  induction as with
  | nil => rfl
  | cons a as ih =>
      obtain ⟨hhead, htail⟩ := List.pairwise_cons.mp h
      rw [firstBy, ih htail, List.filter_eq_self.mpr]
      intro b hb
      exact decide_eq_true (hhead b hb).symm

theorem length_firstBy_le (as : List α) : (firstBy key as).length ≤ as.length :=
  (firstBy_sublist key as).length_le

/-- **Nothing is left out** where the keys differ, and only there. -/
theorem length_firstBy_eq_iff {as : List α} :
    (firstBy key as).length = as.length ↔ as.Pairwise fun a b => key a ≠ key b := by
  constructor
  · intro h
    have hall : firstBy key as = as := (firstBy_sublist key as).eq_of_length h
    rw [← hall]
    exact pairwise_firstBy key as
  · intro h
    rw [firstBy_eq_self key h]

/-- **One more element behind the others** is kept if none of them has its key. -/
theorem firstBy_concat (as : List α) (a : α) :
    firstBy key (as ++ [a])
      = if ∃ b ∈ as, key b = key a then firstBy key as else firstBy key as ++ [a] := by
  induction as with
  | nil => simp [firstBy]
  | cons b as ih =>
      rw [List.cons_append, firstBy, ih, firstBy]
      by_cases hmem : ∃ c ∈ as, key c = key a
      · obtain ⟨c, hc, hca⟩ := hmem
        rw [if_pos ⟨c, hc, hca⟩, if_pos ⟨c, List.mem_cons_of_mem b hc, hca⟩]
      · rw [if_neg hmem, List.filter_append]
        by_cases hba : key b = key a
        · rw [if_pos ⟨b, List.mem_cons_self .., hba⟩, List.filter_cons_of_neg (by simp [hba]),
            List.filter_nil, List.append_nil]
        · have hnone : ¬ ∃ c ∈ b :: as, key c = key a := by
            rintro ⟨c, hc, hca⟩
            rcases List.mem_cons.mp hc with rfl | hc
            · exact hba hca
            · exact hmem ⟨c, hc, hca⟩
          rw [if_neg hnone, List.filter_cons_of_pos (by simpa using Ne.symm hba), List.filter_nil]
          rfl

/-- What is kept of the second of two lists counts in the whole, and no more. -/
theorem firstBy_append_congr {bs cs : List α} (as : List α) (h : firstBy key bs = firstBy key cs) :
    firstBy key (as ++ bs) = firstBy key (as ++ cs) := by
  induction as with
  | nil => exact h
  | cons a as ih => rw [List.cons_append, List.cons_append, firstBy, firstBy, ih]

/-- So it is with the first of them. -/
theorem firstBy_firstBy_append (as bs : List α) :
    firstBy key (firstBy key as ++ bs) = firstBy key (as ++ bs) := by
  induction as with
  | nil => rfl
  | cons a as ih =>
      have hfilter : ∀ cs, (firstBy key cs).filter (fun b => key b ≠ key a)
          = firstBy key (cs.filter fun b => key b ≠ key a) :=
        filter_firstBy key fun b c hbc => by rw [hbc]
      rw [firstBy, List.cons_append, List.cons_append, firstBy, firstBy, ← ih, hfilter (_ ++ bs),
        hfilter (_ ++ bs), List.filter_append, List.filter_append, List.filter_filter]
      simp only [Bool.and_self]

/-- **Parts may be thinned out first**: what is kept of the whole is the same. -/
theorem firstBy_flatMap_firstBy {β : Type} (f : β → List α) (bs : List β) :
    firstBy key (bs.flatMap fun b => firstBy key (f b)) = firstBy key (bs.flatMap f) := by
  induction bs with
  | nil => rfl
  | cons b bs ih =>
      rw [List.flatMap_cons, List.flatMap_cons, firstBy_firstBy_append]
      exact firstBy_append_congr key (f b) ih

/-! ## Lists in which different keys are shuffled -/

/-- Two lists have with each key the same elements in the same order. -/
def SameByKey (as bs : List α) : Prop :=
  ∀ k, as.filter (fun a => key a = k) = bs.filter fun b => key b = k

namespace SameByKey

variable {key} {as as' bs bs' : List α}

theorem refl (as : List α) : SameByKey key as as := fun _ => rfl

theorem append (h : SameByKey key as bs) (h' : SameByKey key as' bs') :
    SameByKey key (as ++ as') (bs ++ bs') := by
  intro k
  rw [List.filter_append, List.filter_append, h k, h' k]

/-- Changes of what is not in the key keep it. -/
theorem map {f : α → α} (hf : ∀ a, key (f a) = key a) (h : SameByKey key as bs) :
    SameByKey key (as.map f) (bs.map f) := by
  intro k
  have hkey : (fun a => decide (key a = k)) ∘ f = fun a => decide (key a = k) := by
    funext a
    rw [Function.comp_apply, hf]
  rw [List.filter_map, List.filter_map, hkey, h k]

/-- **What different owners add is shuffled with them**, where the key of an element tells its owner. -/
theorem flatMap_perm {ι ν : Type} {is js : List ι} (hperm : is.Perm js) {name : ι → ν}
    (hnames : (is.map name).Nodup) (owner : κ → ν) {f : ι → List α}
    (hf : ∀ i, ∀ a ∈ f i, owner (key a) = name i) : SameByKey key (is.flatMap f) (js.flatMap f) := by
  induction hperm with
  | nil => exact refl _
  | cons i _ ih =>
      rw [List.map_cons, List.nodup_cons] at hnames
      exact (refl (f i)).append (ih hnames.2)
  | swap i j is =>
      rw [List.map_cons, List.map_cons, List.nodup_cons] at hnames
      have hne : name j ≠ name i := fun heq => hnames.1 (heq ▸ List.mem_cons_self ..)
      rw [List.flatMap_cons, List.flatMap_cons, List.flatMap_cons, List.flatMap_cons,
        ← List.append_assoc, ← List.append_assoc]
      refine append ?_ (refl _)
      intro k
      -- at most one of two owners has elements with a key
      have hnil : ∀ i, owner k ≠ name i → (f i).filter (fun a => key a = k) = [] := by
        intro i hi
        refine List.filter_eq_nil_iff.mpr ?_
        intro a ha hak
        exact hi (of_decide_eq_true hak ▸ hf i a ha)
      rw [List.filter_append, List.filter_append]
      by_cases hk : owner k = name j
      · rw [hnil i (hk ▸ hne), List.append_nil, List.nil_append]
      · rw [hnil j hk, List.append_nil, List.nil_append]
  | trans hij _ ih ih' =>
      intro k
      exact (ih hnames k).trans (ih' ((hij.map name).nodup hnames) k)

/-- **The same elements are kept**, in some order. -/
theorem firstBy_perm (h : SameByKey key as bs) : (firstBy key as).Perm (firstBy key bs) := by
  refine (List.perm_ext_iff_of_nodup (nodup_firstBy key as) (nodup_firstBy key bs)).mpr ?_
  intro a
  rw [mem_firstBy_iff, mem_firstBy_iff, ← List.head?_filter, ← List.head?_filter, h (key a)]

end SameByKey

end StLint

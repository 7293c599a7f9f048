import Mathlib.Data.List.Forall2
import Mathlib.Data.List.Lex
import StLint.Proofs.Pou.Tree

/-!
# The walk over a tree

A walk is asked for one node after the other and keeps only a stack: the trees that are still to be
visited. What lies on the stack are trees apart from each other, the leftmost one on top, and together
they hold exactly what is left of the source. So **the walk is the recursive traversal**, and it meets
every place of the tree once.

A tree may hold equal nodes at several places, so places are counted and not nodes.

* `Yields` — what an iterator answers until it ends.
* `Walk.yields_iff` — the walk answers with the nodes of the recursive traversal.
* `Node.at?`, `Node.Before` — the address of a node, and the order of addresses in a source.
* `Node.pop?` — the walk as it handles references: a stack of addresses with the next one last.
* `Node.IsFrontier` — the invariant of that stack, with what is left to visit.
* `Node.IsItinerary` — every address once and in order; `Node.yields_pop?_iff`.
-/

namespace StLint

/-! ## Iterators -/

/-- **What an iterator yields**: asked again and again it answers with these values, one at each step,
    and then it ends. -/
inductive Yields {σ α : Type} (next? : σ → Option (α × σ)) : σ → List α → Prop
  | done {s : σ} (h : next? s = none) : Yields next? s []
  | step {s s' : σ} {a : α} {as : List α} (h : next? s = some (a, s')) (hrest : Yields next? s' as) :
      Yields next? s (a :: as)

namespace Yields

variable {σ τ α β : Type} {next? : σ → Option (α × σ)} {s : σ} {as bs : List α}

theorem unique (h : Yields next? s as) (h' : Yields next? s bs) : as = bs := by
  induction h generalizing bs with
  | done hend =>
      cases h' with
      | done _ => rfl
      | step hnext _ =>
          rw [hend] at hnext
          cases hnext
  | step hnext _ ih =>
      cases h' with
      | done hend =>
          rw [hnext] at hend
          cases hend
      | step hnext' hrest =>
          rw [hnext] at hnext'
          cases hnext'
          rw [ih hrest]

/-- **Iterators that keep step with each other** yield related values. -/
theorem exists_related {next'? : τ → Option (β × τ)} {R : σ → τ → Prop} {S : α → β → Prop}
    (hend : ∀ s t, R s t → next? s = none → next'? t = none)
    (hstep : ∀ s t a s', R s t → next? s = some (a, s') →
      ∃ b t', next'? t = some (b, t') ∧ S a b ∧ R s' t')
    (h : Yields next? s as) {t : τ} (hst : R s t) :
    ∃ bs, Yields next'? t bs ∧ List.Forall₂ S as bs := by
  induction h generalizing t with
  | done hnone => exact ⟨[], .done (hend _ t hst hnone), .nil⟩
  | step hnext _ ih =>
      obtain ⟨b, t', hnext', hab, hst'⟩ := hstep _ t _ _ hst hnext
      obtain ⟨bs, hbs, hrelated⟩ := ih hst'
      exact ⟨b :: bs, .step hnext' hbs, .cons hab hrelated⟩

end Yields

namespace Node

/-! ## The walk and the recursive traversal -/

theorem Walk.yields_toList (w : Walk) : Yields Walk.next? w w.toList := by
  fun_induction Walk.toList w with
  | case1 => exact .done rfl
  | case2 n rest ih => exact .step rfl ih

/-- **A walk yields the traversals of the trees that are pending**, one after the other. -/
theorem Walk.yields_iff {w : Walk} {ns : List Node} :
    Yields Walk.next? w ns ↔ ns = preorderAll w.pending := by
  rw [← w.toList_eq_preorderAll]
  constructor
  · exact fun h => h.unique w.yields_toList
  · rintro rfl
    exact w.yields_toList

/-- Every step leaves one node less. -/
theorem Walk.length_toList (w : Walk) : w.toList.length = sizeAll w.pending := by
  fun_induction Walk.toList w with
  | case1 => rw [List.length_nil, sizeAll]
  | case2 n rest ih =>
      rw [List.length_cons, ih, sizeAll_append, sizeAll, size_eq]
      omega

theorem length_preorder (n : Node) : n.preorder.length = n.size := by
  have hlength := (Walk.start n).length_toList
  rwa [Walk.toList_eq_preorderAll, Walk.start, preorderAll_singleton, sizeAll, sizeAll,
    Nat.add_zero] at hlength

/-! ## Addresses -/

/-- The place of a node in a tree: the numbers of the children on the way down to it. -/
abbrev Address := List Nat

/-- The node at an address. -/
def at? : Node → Address → Option Node
  | n, [] => some n
  | n, i :: p => n.children[i]?.bind fun c => at? c p

/-- The addresses of the children of the node at an address. -/
def childAddresses (n : Node) (p : Address) : List Address :=
  match n.at? p with
  | none => []
  | some m => (List.range m.children.length).map fun i => p ++ [i]

variable {n m : Node} {p q : Address} {stack : List Address}

theorem at?_append (n : Node) (p q : Address) : n.at? (p ++ q) = (n.at? p).bind fun m => m.at? q := by
  induction p generalizing n with
  | nil => rfl
  | cons i p ih =>
      rw [List.cons_append, at?, at?]
      cases n.children[i]? with
      | none => rfl
      | some c => exact ih c

theorem at?_child (h : n.at? p = some m) (i : Nat) : n.at? (p ++ [i]) = m.children[i]? := by
  rw [at?_append, h]
  show m.children[i]?.bind (fun c => some c) = _
  exact Option.bind_fun_some _

theorem childAddresses_eq (h : n.at? p = some m) :
    n.childAddresses p = (List.range m.children.length).map fun i => p ++ [i] := by
  rw [childAddresses, h]

theorem mem_childAddresses_iff (h : n.at? p = some m) :
    q ∈ n.childAddresses p ↔ ∃ i < m.children.length, p ++ [i] = q := by
  rw [childAddresses_eq h, List.mem_map]
  simp only [List.mem_range]

/-- At the addresses below a node stand its children, in order. -/
theorem map_at?_childAddresses (h : n.at? p = some m) :
    (n.childAddresses p).map n.at? = m.children.map some := by
  rw [childAddresses_eq h, List.map_map]
  refine List.ext_getElem (by simp) ?_
  intro i hi hi'
  rw [List.length_map] at hi'
  rw [List.getElem_map, List.getElem_map, List.getElem_range, Function.comp_apply, at?_child h,
    List.getElem?_eq_getElem hi']

/-! ## The order of addresses -/

/-- One address is left of another: where they part it goes down to an earlier child. -/
inductive LeftOf : Address → Address → Prop
  | intro (r : Address) {i j : Nat} (hij : i < j) (p q : Address) : LeftOf (r ++ i :: p) (r ++ j :: q)

/-- **The order of a source**: a node stands before all nodes below it, and before those right of it. -/
inductive Before : Address → Address → Prop
  | above (p : Address) (i : Nat) (q : Address) : Before p (p ++ i :: q)
  | beside {p q : Address} (h : LeftOf p q) : Before p q

/-- What is below one address is left of what is below the other. -/
theorem LeftOf.append (h : LeftOf p q) (s t : Address) : LeftOf (p ++ s) (q ++ t) := by
  obtain ⟨r, hij, a, b⟩ := h
  rw [List.append_assoc, List.append_assoc]
  exact .intro r hij (a ++ s) (b ++ t)

theorem LeftOf.of_isPrefix {p' q' : Address} (h : LeftOf p q) (hp : p <+: p') (hq : q <+: q') :
    LeftOf p' q' := by
  obtain ⟨s, rfl⟩ := hp
  obtain ⟨t, rfl⟩ := hq
  exact h.append s t

theorem LeftOf.lt (h : LeftOf p q) : p < q := by
  obtain ⟨r, hij, a, b⟩ := h
  exact List.append_left_lt (List.cons_lt_cons_iff.mpr (Or.inl hij))

theorem Before.lt (h : Before p q) : p < q := by
  cases h with
  | above i q =>
      have hlt : p ++ [] < p ++ i :: q := List.append_left_lt (List.nil_lt_cons i q)
      rwa [List.append_nil] at hlt
  | beside h => exact h.lt

/-! ## References -/

/-- **One step of the walk by reference**, on a stack with the next address last: it is taken off, and
    the addresses of its children are put on, the last child first. -/
def pop? (n : Node) (stack : List Address) : Option (Address × List Address) :=
  stack.getLast?.map fun p => (p, stack.dropLast ++ (n.childAddresses p).reverse)

theorem pop?_concat (n : Node) (stack : List Address) (p : Address) :
    n.pop? (stack ++ [p]) = some (p, stack ++ (n.childAddresses p).reverse) := by
  rw [pop?, List.getLast?_concat, List.dropLast_concat]
  rfl

/-- Two statements, the first with an operator and its operands: the operator is taken off, and its right
    operand is put on first. -/
example : pop? { leaf .root 0 "" with children := [{ leaf .assignment 1 "" with
        children := [{ leaf .binaryExpression 1 "" with
          children := [leaf .variable 1 "", leaf .literal 1 ""] }] }, leaf .returnStatement 2 ""] }
      [[1], [0, 0]]
    = some ([0, 0], [[1], [0, 0, 1], [0, 0, 0]]) :=
  rfl

theorem pop?_eq_some {stack' : List Address} (h : n.pop? stack = some (p, stack')) :
    ∃ before, stack = before ++ [p] ∧ stack' = before ++ (n.childAddresses p).reverse := by
  rcases List.eq_nil_or_concat stack with rfl | ⟨before, q, rfl⟩
  · cases h
  · rw [List.concat_eq_append, pop?_concat] at h
    cases h
    exact ⟨before, List.concat_eq_append, rfl⟩

/-! ## What is left to visit -/

/-- **The invariant of the stack**: its addresses are inside the tree, and each is left of those that
    were there before it. -/
structure IsFrontier (n : Node) (stack : List Address) : Prop where
  inside : ∀ p ∈ stack, (n.at? p).isSome
  apart : stack.Pairwise fun q p => LeftOf p q

theorem isFrontier_root (n : Node) : n.IsFrontier [[]] := by
  refine ⟨?_, List.pairwise_singleton ..⟩
  intro p hp
  rw [List.mem_singleton.mp hp]
  rfl

/-- The node that is next is inside the tree. -/
theorem IsFrontier.exists_at (h : n.IsFrontier (stack ++ [p])) : ∃ m, n.at? p = some m :=
  Option.isSome_iff_exists.mp (h.inside p (List.mem_append_right _ (List.mem_singleton_self p)))

/-- The address that is next is left of all others. -/
theorem IsFrontier.leftOf (h : n.IsFrontier (stack ++ [p])) (hq : q ∈ stack) : LeftOf p q :=
  (List.pairwise_append.mp h.apart).2.2 q hq p (List.mem_singleton_self p)

/-- **A step keeps the invariant.** -/
theorem IsFrontier.step (h : n.IsFrontier (stack ++ [p])) :
    n.IsFrontier (stack ++ (n.childAddresses p).reverse) := by
  obtain ⟨m, hm⟩ := h.exists_at
  constructor
  · intro q hq
    rcases List.mem_append.mp hq with hq | hq
    · exact h.inside q (List.mem_append_left _ hq)
    · obtain ⟨i, hi, rfl⟩ := (mem_childAddresses_iff hm).mp (List.mem_reverse.mp hq)
      rw [at?_child hm, List.getElem?_eq_getElem hi]
      rfl
  · refine List.pairwise_append.mpr ⟨(List.pairwise_append.mp h.apart).1, ?_, ?_⟩
    · -- the children are apart from each other, as their numbers are
      rw [List.pairwise_reverse, childAddresses_eq hm, List.pairwise_map]
      exact List.pairwise_lt_range.imp fun hij => .intro p hij [] []
    · -- and left of all that the node was left of
      intro q hq r hr
      obtain ⟨i, -, rfl⟩ := (mem_childAddresses_iff hm).mp (List.mem_reverse.mp hr)
      exact (h.leftOf hq).of_isPrefix (List.prefix_append p [i]) (List.prefix_refl q)

/-- What stands below a node stands at one of its children or below it. -/
theorem prefix_iff_of_inside (hm : n.at? p = some m) (hq : (n.at? q).isSome) :
    p <+: q ↔ q = p ∨ ∃ r ∈ n.childAddresses p, r <+: q := by
  constructor
  · rintro ⟨t, rfl⟩
    cases t with
    | nil => exact Or.inl (List.append_nil p)
    | cons i t =>
        rw [List.append_cons, at?_append, at?_child hm] at hq
        have hi : i < m.children.length := by
          by_contra hi
          rw [List.getElem?_eq_none (Nat.not_lt.mp hi)] at hq
          cases hq
        refine Or.inr ⟨p ++ [i], (mem_childAddresses_iff hm).mpr ⟨i, hi, rfl⟩, t, ?_⟩
        exact (List.append_cons p i t).symm
  · rintro (rfl | ⟨r, hr, hrq⟩)
    · exact List.prefix_refl _
    · obtain ⟨i, -, rfl⟩ := (mem_childAddresses_iff hm).mp hr
      exact (List.prefix_append p [i]).trans hrq

/-- **What a walk by reference meets** are the addresses in the tree at or below those of its stack. -/
theorem mem_iff_of_yields {ps : List Address} (h : Yields n.pop? stack ps) (hstack : n.IsFrontier stack) :
    q ∈ ps ↔ (n.at? q).isSome ∧ ∃ p ∈ stack, p <+: q := by
  induction h with
  | @done stack hend =>
      rcases List.eq_nil_or_concat stack with rfl | ⟨before, p, rfl⟩
      · simp
      · rw [List.concat_eq_append, pop?_concat] at hend
        cases hend
  | @step stack stack' p ps hnext _ ih =>
      obtain ⟨before, rfl, rfl⟩ := pop?_eq_some hnext
      obtain ⟨m, hm⟩ := hstack.exists_at
      rw [List.mem_cons, ih hstack.step]
      by_cases hq : (n.at? q).isSome = true
      · simp only [hq, true_and, List.mem_append, List.mem_reverse, List.mem_singleton, or_and_right,
          exists_or, exists_eq_left, prefix_iff_of_inside hm hq]
        exact or_left_comm
      · have hne : q ≠ p := by
          rintro rfl
          exact hq (by rw [hm]; rfl)
        simp only [hq, hne, false_and, or_self, Bool.false_eq_true]

/-- **It meets them in the order of the source.** -/
theorem pairwise_of_yields {ps : List Address} (h : Yields n.pop? stack ps)
    (hstack : n.IsFrontier stack) : ps.Pairwise Before := by
  induction h with
  | done _ => exact .nil
  | @step stack stack' p ps hnext hrest ih =>
      obtain ⟨before, rfl, rfl⟩ := pop?_eq_some hnext
      obtain ⟨m, hm⟩ := hstack.exists_at
      refine List.pairwise_cons.mpr ⟨?_, ih hstack.step⟩
      intro q hq
      obtain ⟨-, r, hr, hrq⟩ := (mem_iff_of_yields hrest hstack.step).mp hq
      rcases List.mem_append.mp hr with hr | hr
      · exact .beside ((hstack.leftOf hr).of_isPrefix (List.prefix_refl p) hrq)
      · obtain ⟨i, -, rfl⟩ := (mem_childAddresses_iff hm).mp (List.mem_reverse.mp hr)
        obtain ⟨t, rfl⟩ := hrq
        rw [← List.append_cons]
        exact .above p i t

/-! ## Itineraries -/

/-- **A way through a tree**: it comes to each address in the tree once, and in the order of the
    source. -/
structure IsItinerary (n : Node) (ps : List Address) : Prop where
  mem_iff : ∀ p, p ∈ ps ↔ (n.at? p).isSome
  nodup : ps.Nodup
  ordered : ps.Pairwise Before

/-- There is one way only. -/
theorem IsItinerary.unique {ps qs : List Address} (h : n.IsItinerary ps) (h' : n.IsItinerary qs) :
    ps = qs := by
  have hperm : ps.Perm qs := by
    refine (List.perm_ext_iff_of_nodup h.nodup h'.nodup).mpr ?_
    intro p
    rw [h.mem_iff, h'.mem_iff]
  refine hperm.eq_of_pairwise ?_ h.ordered h'.ordered
  intro p q _ _ hpq hqp
  exact absurd hpq.lt (lt_asymm hqp.lt)

theorem isItinerary_of_yields {ps : List Address} (h : Yields n.pop? [[]] ps) : n.IsItinerary ps where
  mem_iff p := by
    rw [mem_iff_of_yields h n.isFrontier_root]
    simp
  nodup := (pairwise_of_yields h n.isFrontier_root).imp fun hpq => hpq.lt.ne
  ordered := pairwise_of_yields h n.isFrontier_root

/-- The stack of references and the pending trees are one list read from two ends. -/
def Mirrors (n : Node) (w : Walk) (stack : List Address) : Prop :=
  stack.reverse.map n.at? = w.pending.map some

theorem Mirrors.done {w : Walk} (h : n.Mirrors w stack) (hend : w.next? = none) :
    n.pop? stack = none := by
  obtain ⟨pending⟩ := w
  cases pending with
  | nil =>
      rw [Mirrors, List.map_nil, List.map_eq_nil_iff, List.reverse_eq_nil_iff] at h
      rw [h]
      rfl
  | cons c rest => cases hend

theorem Mirrors.step {w w' : Walk} (h : n.Mirrors w stack) (hnext : w.next? = some (m, w')) :
    ∃ p stack', n.pop? stack = some (p, stack') ∧ n.at? p = some m ∧ n.Mirrors w' stack' := by
  obtain ⟨pending⟩ := w
  cases pending with
  | nil => cases hnext
  | cons c rest =>
      cases hnext
      rcases List.eq_nil_or_concat stack with rfl | ⟨before, p, rfl⟩
      · cases h
      · rw [List.concat_eq_append] at h ⊢
        rw [Mirrors, List.reverse_concat, List.map_cons, List.map_cons, List.cons.injEq] at h
        obtain ⟨hp, hrest⟩ := h
        refine ⟨p, _, pop?_concat n before p, hp, ?_⟩
        rw [Mirrors, List.reverse_append, List.reverse_reverse, List.map_append, hrest,
          map_at?_childAddresses hp, List.map_append]

/-- **The walk by reference is the walk over the trees**: it comes to the nodes of the recursive
    traversal, each at its address. -/
theorem exists_yields_pop? (n : Node) :
    ∃ ps, Yields n.pop? [[]] ps ∧ ps.map n.at? = n.preorder.map some := by
  have hstart : n.Mirrors (Walk.start n) [[]] := rfl
  have hyields : Yields Walk.next? (Walk.start n) n.preorder := by
    rw [Walk.yields_iff, Walk.start, preorderAll_singleton]
  obtain ⟨ps, hps, hnodes⟩ := hyields.exists_related (S := fun m p => n.at? p = some m)
    (fun _ _ hmirror hend => hmirror.done hend) (fun _ _ _ _ hmirror hnext => hmirror.step hnext) hstart
  have hmap : List.Forall₂ (· = ·) (ps.map n.at?) (n.preorder.map some) := by
    rw [List.forall₂_map_left_iff, List.forall₂_map_right_iff]
    exact hnodes.flip
  rw [List.forall₂_eq_eq_eq] at hmap
  exact ⟨ps, hps, hmap⟩

/-- **The walk by reference yields the way through the tree**, and nothing else. -/
theorem yields_pop?_iff {ps : List Address} : Yields n.pop? [[]] ps ↔ n.IsItinerary ps := by
  refine ⟨isItinerary_of_yields, ?_⟩
  intro h
  obtain ⟨qs, hqs, -⟩ := n.exists_yields_pop?
  rwa [h.unique (isItinerary_of_yields hqs)]

end Node

end StLint

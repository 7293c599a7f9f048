import Mathlib.Order.Bounds.Basic
import StLint.Proofs.Expression.Literal
import StLint.Proofs.Expression.Place

/-!
# The height of expression trees

The levels of an expression are counted at its operators and at the arguments of its calls. An
argument that names its parameter costs one level, but puts **two nodes on the path**: its own and
the tree of its value. So a tree is as high as its levels allow on every path without such
arguments, and at most twice as high where each call has one.

* `Node.IsPath`, `Node.height` — the paths from the root to a leaf, and the longest of them.
* `Node.PathsWithin` — what the levels allow on each path.
* `pathsWithin_parseAt`, `Place.pathsWithin_call` — the trees of expressions and of calls.
* `height_parseAt_nestedCalls` — calls in named arguments of each other reach the greatest height.
* `height_bounds` — how high the tree of an expression is.
-/

namespace StLint

/-! ## Height -/

namespace Node

mutual

/-- The number of nodes on the longest path from the root of a tree to a leaf. -/
def height : Node → Nat
  | ⟨_, _, _, children, _, _⟩ => heightAll children + 1

/-- The height of the highest of several trees. -/
def heightAll : List Node → Nat
  | [] => 0
  | n :: ns => max (height n) (heightAll ns)

end

theorem height_eq (n : Node) : n.height = heightAll n.children + 1 := by
  obtain ⟨_, _, _, _, _, _⟩ := n
  rw [height]

theorem height_le_heightAll {n : Node} {ns : List Node} (h : n ∈ ns) : n.height ≤ heightAll ns := by
  induction ns with
  | nil => cases h
  | cons m ms ih =>
      rw [heightAll]
      rcases List.mem_cons.mp h with rfl | h
      · exact Nat.le_max_left _ _
      · exact Nat.le_trans (ih h) (Nat.le_max_right _ _)

/-- One of several trees is the highest. -/
theorem exists_height_eq_heightAll {ns : List Node} (h : ns ≠ []) :
    ∃ n ∈ ns, n.height = heightAll ns := by
  induction ns with
  | nil => exact absurd rfl h
  | cons m ms ih =>
      rw [heightAll]
      by_cases hle : heightAll ms ≤ m.height
      · exact ⟨m, List.mem_cons_self .., (Nat.max_eq_left hle).symm⟩
      · have hne : ms ≠ [] := by
          rintro rfl
          exact hle (Nat.zero_le _)
        obtain ⟨n, hn, heq⟩ := ih hne
        exact ⟨n, List.mem_cons_of_mem m hn, heq.trans (Nat.max_eq_right (by omega)).symm⟩

/-- The nodes on a way from the root of a tree down to a leaf. -/
inductive IsPath : Node → List Node → Prop
  | leaf {n : Node} (h : n.children = []) : IsPath n [n]
  | step {n c : Node} {path : List Node} (hc : c ∈ n.children) (h : IsPath c path) :
      IsPath n (n :: path)

theorem IsPath.length_le_height {n : Node} {path : List Node} (h : n.IsPath path) :
    path.length ≤ n.height := by
  induction h with
  | @leaf n _ =>
      rw [height_eq]
      exact Nat.succ_le_succ (Nat.zero_le _)
  | @step n c path hc _ ih =>
      rw [height_eq, List.length_cons]
      exact Nat.succ_le_succ (Nat.le_trans ih (height_le_heightAll hc))

theorem IsPath.subset_preorder {n : Node} {path : List Node} (h : n.IsPath path) :
    path ⊆ n.preorder := by
  induction h with
  | @leaf n _ =>
      intro m hm
      rw [List.mem_singleton.mp hm]
      exact mem_preorder.mpr (Or.inl rfl)
  | @step n c path hc _ ih =>
      intro m hm
      rcases List.mem_cons.mp hm with rfl | hm
      · exact mem_preorder.mpr (Or.inl rfl)
      · exact mem_preorder.mpr (Or.inr ⟨c, hc, ih hm⟩)

theorem exists_isPath_of_height {k : Nat} {n : Node} (h : n.height = k + 1) :
    ∃ path, n.IsPath path ∧ path.length = k + 1 := by
  -- the longest path goes on in the highest child
  induction k generalizing n with
  | zero =>
      rw [height_eq] at h
      refine ⟨[n], .leaf ?_, rfl⟩
      by_contra hne
      obtain ⟨c, -, hc⟩ := exists_height_eq_heightAll hne
      rw [height_eq c] at hc
      omega
  | succ k ih =>
      rw [height_eq] at h
      have hne : n.children ≠ [] := by
        intro hnil
        rw [hnil, heightAll] at h
        omega
      obtain ⟨c, hc, hheight⟩ := exists_height_eq_heightAll hne
      obtain ⟨path, hpath, hlength⟩ := ih (hheight.trans (Nat.succ.inj h))
      exact ⟨n :: path, .step hc hpath, congrArg (· + 1) hlength⟩

/-- **The height is the length of the longest path.** -/
theorem isGreatest_height (n : Node) :
    IsGreatest {k | ∃ path, n.IsPath path ∧ path.length = k} n.height := by
  refine ⟨?_, ?_⟩
  · rw [height_eq]
    exact exists_isPath_of_height (height_eq n)
  · rintro _ ⟨path, hpath, rfl⟩
    exact hpath.length_le_height

/-! ## What the levels allow -/

/-- The number of nodes of a path that name a parameter. -/
def namedArguments (path : List Node) : Nat := path.countP fun n => n.kind = .assignment

/-- **What levels allow**: each path has one node more than there are levels, and one more for each
    argument on it that names its parameter, of which there are `named` at most. -/
structure PathsWithin (levels named : Nat) (n : Node) : Prop where
  length_le : ∀ path, n.IsPath path → path.length ≤ levels + 1 + namedArguments path
  named_le : ∀ path, n.IsPath path → namedArguments path ≤ named

variable {levels named : Nat} {n c : Node}

theorem PathsWithin.height_le (h : n.PathsWithin levels named) : n.height ≤ levels + 1 + named := by
  obtain ⟨path, hpath, hlength⟩ := n.isGreatest_height.1
  have := h.length_le path hpath
  have := h.named_le path hpath
  omega

theorem PathsWithin.mono {more : Nat} (h : n.PathsWithin levels named) (hle : named ≤ more) :
    n.PathsWithin levels more :=
  ⟨h.length_le, fun path hpath => Nat.le_trans (h.named_le path hpath) hle⟩

/-- Where no argument names its parameter, none does on a path. -/
theorem PathsWithin.of_positional (h : n.PathsWithin levels named)
    (hpositional : ∀ m ∈ n.preorder, m.kind ≠ .assignment) : n.PathsWithin levels 0 := by
  refine ⟨h.length_le, ?_⟩
  intro path hpath
  refine Nat.le_of_eq (List.countP_eq_zero.mpr ?_)
  intro m hm
  rw [decide_eq_true_eq]
  exact hpositional m (hpath.subset_preorder hm)

theorem namedArguments_cons (n : Node) (path : List Node) :
    namedArguments (n :: path)
      = namedArguments path + if n.kind = .assignment then 1 else 0 := by
  rw [namedArguments, List.countP_cons]
  simp only [decide_eq_true_eq]
  rfl

/-- A call or an operator costs a level. -/
theorem pathsWithin_of_children (hkind : n.kind ≠ .assignment)
    (h : ∀ c ∈ n.children, c.PathsWithin levels named) : n.PathsWithin (levels + 1) named := by
  constructor
  · intro path hpath
    rw [← Nat.add_right_comm]
    cases hpath with
    | leaf => exact Nat.le_add_left ..
    | @step _ c path hc hpath =>
        have := (h c hc).length_le path hpath
        rw [namedArguments_cons, if_neg hkind, List.length_cons]
        omega
  · intro path hpath
    cases hpath with
    | leaf =>
        rw [namedArguments_cons, if_neg hkind]
        exact Nat.zero_le _
    | @step _ c path hc hpath =>
        rw [namedArguments_cons, if_neg hkind]
        exact (h c hc).named_le path hpath

theorem pathsWithin_of_leaf (hkind : n.kind ≠ .assignment) (hn : n.children = []) (levels : Nat) :
    n.PathsWithin levels 0 := by
  have hpath : ∀ path, n.IsPath path → path = [n] := by
    intro path hpath
    cases hpath with
    | leaf => rfl
    | step hc =>
        rw [hn] at hc
        cases hc
  constructor
  · intro path h
    rw [hpath path h, Nat.add_right_comm]
    exact Nat.le_add_left ..
  · intro path h
    rw [hpath path h, namedArguments_cons, if_neg hkind]
    exact Nat.le_refl 0

/-- The node that names a parameter costs no level. -/
theorem pathsWithin_of_argument (hkind : n.kind = .assignment) (hn : n.children = [c])
    (h : c.PathsWithin levels named) : n.PathsWithin levels (named + 1) := by
  have hpaths : ∀ path, n.IsPath path → ∃ rest, c.IsPath rest ∧ path = n :: rest := by
    intro path hpath
    cases hpath with
    | leaf hnil =>
        rw [hn] at hnil
        cases hnil
    | @step _ d rest hd hrest =>
        rw [hn] at hd
        rw [List.mem_singleton.mp hd] at hrest
        exact ⟨rest, hrest, rfl⟩
  constructor
  · intro path hpath
    obtain ⟨rest, hrest, rfl⟩ := hpaths path hpath
    have := h.length_le rest hrest
    rw [namedArguments_cons, if_pos hkind, List.length_cons]
    omega
  · intro path hpath
    obtain ⟨rest, hrest, rfl⟩ := hpaths path hpath
    rw [namedArguments_cons, if_pos hkind]
    exact Nat.succ_le_succ (h.named_le rest hrest)

end Node

namespace Expression

open Text Node

/-! ## Expressions -/

variable {p : Place} {levels : Nat}

/-- An argument costs no level beyond that of its call, whether it names its parameter or not. -/
theorem Place.pathsWithin_argument {parse : List Char → Node}
    (h : ∀ t, (parse t).PathsWithin levels levels) (arg : List Char) :
    (p.argument parse arg).PathsWithin levels (levels + 1) := by
  have htarget : ∀ t, (p.nameNode t).PathsWithin levels levels := by
    intro t
    have hkind : (p.nameNode t).kind ≠ .assignment := NodeKind.noConfusion
    exact (pathsWithin_of_leaf hkind rfl levels).mono (Nat.zero_le _)
  exact argument_cases (fun _ _ t => pathsWithin_of_argument rfl rfl (h t))
    (fun _ t => pathsWithin_of_argument rfl rfl (htarget t))
    (fun t => (h t).mono (Nat.le_succ _)) arg

theorem Place.pathsWithin_call {parse : List Char → Node}
    (h : ∀ t, (parse t).PathsWithin levels levels) (name args : List Char) :
    (p.call parse name args).PathsWithin (levels + 1) (levels + 1) :=
  pathsWithin_of_children NodeKind.noConfusion
    (forall_mem_call (pathsWithin_argument h) name args)

/-- **The tree of an expression stays within its levels**, by induction on them. -/
theorem pathsWithin_parseAt (p : Place) (levels : Nat) (s : List Char) :
    (parseAt p levels s).PathsWithin levels levels := by
  have hleaf : ∀ {n : Node} (levels : Nat), n.kind ≠ .assignment → n.children = [] →
      n.PathsWithin levels levels :=
    fun levels hkind hn => (pathsWithin_of_leaf hkind hn levels).mono (Nat.zero_le _)
  refine parseAt_levels_induction (motive := fun levels _ n => n.PathsWithin levels levels) p
    ?literal ?name ?whole ?call ?binary levels s
  case literal => exact fun levels _ _ => hleaf levels NodeKind.noConfusion rfl
  case name => exact fun levels _ _ => hleaf levels NodeKind.noConfusion rfl
  case whole => exact fun levels _ => hleaf levels NodeKind.noConfusion rfl
  case call => exact fun _ _ name args _ _ h => Place.pathsWithin_call h name args
  case binary =>
    intro below s op left right l r _ hl hr
    exact pathsWithin_of_children NodeKind.noConfusion
      (Place.forall_mem_binary (hl.mono (Nat.le_succ _)) (hr.mono (Nat.le_succ _)) op)

/-- The tree of an expression or of a call. -/
inductive IsTree (p : Place) : Node → Prop
  | parse (s : List Char) : IsTree p (parse p s)
  | call (name args : List Char) : IsTree p (call p name args)

theorem IsTree.pathsWithin {n : Node} (h : IsTree p n) : n.PathsWithin maxDepth maxDepth := by
  cases h with
  | parse s => exact pathsWithin_parseAt p maxDepth s
  | call name args => exact Place.pathsWithin_call (pathsWithin_parseAt p (maxDepth - 1)) name args

/-! ## Calls in named arguments -/

/-- An argument for the parameter `a`. -/
def forA (s : List Char) : List Char := 'a' :: (":=".toList ++ s)

/-- A call in the named argument of a call, and so on: `f(a:=f(a:=x))`. -/
def nestedCalls : Nat → List Char
  | 0 => ['x']
  | k + 1 => 'f' :: '(' :: (forA (nestedCalls k) ++ [')'])

/-- The characters of nested calls. -/
def callChars : List Char := ['f', '(', 'a', ':', '=', ')', 'x']

/-- What holds of these characters holds of those of nested calls. -/
theorem all_nestedCalls {q : Char → Bool} (h : callChars.all q = true) (k : Nat) :
    ∀ c ∈ nestedCalls k, q c = true := by
  have hq : ∀ c ∈ callChars, q c = true := List.all_eq_true.mp h
  induction k with
  | zero =>
      intro c hc
      rw [List.mem_singleton.mp hc]
      exact hq 'x' (by decide)
  | succ k ih =>
      intro c hc
      simp only [nestedCalls, forA, List.mem_cons, List.mem_append, List.not_mem_nil,
        or_false] at hc
      rcases hc with rfl | rfl | (rfl | hmark | hc) | rfl
      · exact hq 'f' (by decide)
      · exact hq '(' (by decide)
      · exact hq 'a' (by decide)
      · have hassign : c = ':' ∨ c = '=' := by simpa using hmark
        rcases hassign with rfl | rfl
        · exact hq ':' (by decide)
        · exact hq '=' (by decide)
      · exact ih c hc
      · exact hq ')' (by decide)

theorem all_forA_nestedCalls {q : Char → Bool} (h : callChars.all q = true) (k : Nat) :
    ∀ c ∈ forA (nestedCalls k), q c = true := by
  intro c hc
  refine all_nestedCalls h (k + 1) c ?_
  exact List.mem_cons_of_mem _ (List.mem_cons_of_mem _ (List.mem_append_left _ hc))

/-- A character that is none of these does not occur. -/
theorem not_mem_nestedCalls {c : Char} (h : callChars.all (· != c) = true) (k : Nat) :
    c ∉ nestedCalls k := fun hc => absurd rfl (bne_iff_ne.mp (all_nestedCalls h k c hc))

theorem not_mem_forA_nestedCalls {c : Char} (h : callChars.all (· != c) = true) (k : Nat) :
    c ∉ forA (nestedCalls k) := fun hc => absurd rfl (bne_iff_ne.mp (all_forA_nestedCalls h k c hc))

theorem trim_nestedCalls (k : Nat) : trim (nestedCalls k) = nestedCalls k := by
  have hblank : callChars.all (!isBlank ·) = true := by decide
  exact trim_eq_self fun c hc => (Bool.not_eq_true' _).mp (all_nestedCalls hblank k c hc)

theorem trim_forA_nestedCalls (k : Nat) : trim (forA (nestedCalls k)) = forA (nestedCalls k) := by
  have hblank : callChars.all (!isBlank ·) = true := by decide
  exact trim_eq_self fun c hc => (Bool.not_eq_true' _).mp (all_forA_nestedCalls hblank k c hc)

/-- Its brackets are closed in it. -/
theorem balancedFrom_nestedCalls_append (k depth : Nat) (r : List Char) :
    balancedFrom '(' ')' depth (nestedCalls k ++ r) = balancedFrom '(' ')' depth r := by
  induction k generalizing depth r with
  | zero => rfl
  | succ k ih =>
      have hsplit : nestedCalls (k + 1) ++ r
          = 'f' :: '(' :: 'a' :: ':' :: '=' :: (nestedCalls k ++ ')' :: r) := by
        simp [nestedCalls, forA]
      rw [hsplit]
      simp [balancedFrom, ih]

theorem isLiteral_nestedCalls (k : Nat) : Literal.isLiteral (nestedCalls k) = false := by
  cases k with
  | zero => decide
  | succ k =>
      have hhash : '#' ∉ nestedCalls (k + 1) := not_mem_nestedCalls (by decide) (k + 1)
      have hquoted : Literal.isQuoted (nestedCalls (k + 1)) = false := by
        simp [Literal.isQuoted, nestedCalls]
      have hbool : Literal.isBool (nestedCalls (k + 1)) = false := by
        simp [Literal.isBool, Literal.isTrue, upper, nestedCalls]
      have hdecimal : Literal.isDecimal (nestedCalls (k + 1)) = false :=
        Literal.isDecimal_cons_eq_false (by decide) (by decide)
      have hbased : Literal.isBased (nestedCalls (k + 1)) = false :=
        Bool.eq_false_iff.mpr fun h => hhash (Literal.hash_mem_of_isBased h)
      have htime : Literal.isTime (nestedCalls (k + 1)) = false :=
        Bool.eq_false_iff.mpr fun h => hhash (Literal.hash_mem_of_isTime h)
      rw [Literal.isLiteral, trim_nestedCalls, hquoted, hbool, Literal.isNumeric, hdecimal, hbased,
        htime]
      rfl

theorem isQualified_nestedCalls (k : Nat) : isQualified (nestedCalls (k + 1)) = false := by
  refine Bool.eq_false_iff.mpr ?_
  intro h
  have hparen := wordChar_of_qualified h '(' (List.mem_cons_of_mem _ (List.mem_cons_self ..))
  exact absurd hparen (by decide)

theorem splitUnitCall?_nestedCalls (k : Nat) :
    splitUnitCall? (nestedCalls (k + 1)) = some (['f'], forA (nestedCalls k)) := by
  have hquote : callChars.all (!isQuote ·) = true := by decide
  have hbalanced : balancedFrom '(' ')' 0 (forA (nestedCalls k)) = true := by
    have hend := balancedFrom_nestedCalls_append k 0 []
    rw [List.append_nil] at hend
    exact hend
  have hclose : closingParen? none 0 (forA (nestedCalls k) ++ [')'])
      = some (forA (nestedCalls k), []) :=
    closingParen?_append
      (fun c hc => (Bool.not_eq_true' _).mp (all_forA_nestedCalls hquote k c hc)) hbalanced
  have hname : (nestedCalls (k + 1)).takeWhile (· ≠ '(') = ['f'] := rfl
  have hparen : (nestedCalls (k + 1)).dropWhile (· ≠ '(') = '(' :: (forA (nestedCalls k) ++ [')']) :=
    rfl
  have hqualified : isQualified (trimEnd ['f']) = true := by decide
  have hcall : splitCall? (nestedCalls (k + 1)) = some (['f'], forA (nestedCalls k)) := by
    rw [splitCall?]
    simp only [trim_nestedCalls, hname, hparen, hqualified, hclose, if_true]
    rfl
  rw [splitUnitCall?, hcall]
  rfl

theorem splitTopLevel_forA_nestedCalls (k : Nat) :
    (splitTopLevel ',' (forA (nestedCalls k))).filter (!·.isEmpty) = [forA (nestedCalls k)] := by
  have hcomma : ',' ∉ forA (nestedCalls k) := not_mem_forA_nestedCalls (by decide) k
  have hne : trim (forA (nestedCalls k)) ≠ [] := by
    rw [trim_forA_nestedCalls]
    exact List.cons_ne_nil _ _
  rw [splitTopLevel_of_not_mem hcomma hne, trim_forA_nestedCalls]

/-- **A call in a named argument** becomes two nodes, for one level. -/
theorem parseAt_nestedCalls (p : Place) (k levels : Nat) :
    parseAt p (levels + 1) (nestedCalls (k + 1))
      = { p.node .functionCall with
          name := some "f"
          value := some (String.ofList (forA (nestedCalls k)))
          children :=
            [p.assignment ['a'] (nestedCalls k) (parseAt p levels (nestedCalls k))] } := by
  have hflat : ∀ d ∈ ['a'], isFlat d = true := by
    intro d hd
    rw [List.mem_singleton.mp hd]
    decide
  have hcut : cutTopLevel? ":=" (forA (nestedCalls k)) = some (['a'], nestedCalls k) :=
    cutTopLevel?_append rfl hflat (by decide) (by decide) (nestedCalls k)
  have harg : p.argument (parseAt p levels) (forA (nestedCalls k))
      = p.assignment ['a'] (nestedCalls k) (parseAt p levels (nestedCalls k)) := by
    rw [Place.argument, hcut]
    dsimp only
    rw [trim_nestedCalls]
    rfl
  rw [parseAt]
  dsimp only
  rw [trim_nestedCalls, isLiteral_nestedCalls, isQualified_nestedCalls,
    splitUnitCall?_nestedCalls, if_neg (by decide), if_neg (by decide)]
  dsimp only
  rw [Place.call, splitTopLevel_forA_nestedCalls, List.map_singleton, harg, trim_forA_nestedCalls]

theorem height_parseAt_nestedCalls (p : Place) {k levels : Nat} (h : k ≤ levels) :
    (parseAt p levels (nestedCalls k)).height = 2 * k + 1 := by
  induction k generalizing levels with
  | zero =>
      have hname : isQualified (nestedCalls 0) = true := by decide
      rw [parseAt.eq_def]
      dsimp only
      rw [trim_nestedCalls, isLiteral_nestedCalls, hname, if_neg (by decide), if_pos rfl]
      rfl
  | succ k ih =>
      obtain ⟨below, rfl⟩ : ∃ below, levels = below + 1 := ⟨levels - 1, by omega⟩
      have hvalue : (parseAt p below (nestedCalls k)).height = 2 * k + 1 := ih (by omega)
      rw [parseAt_nestedCalls, height_eq]
      show heightAll [p.assignment ['a'] (nestedCalls k) (parseAt p below (nestedCalls k))] + 1 = _
      rw [heightAll, heightAll, height_eq]
      show max (heightAll [parseAt p below (nestedCalls k)] + 1) 0 + 1 = _
      rw [heightAll, heightAll, hvalue]
      omega

/-! ## The bounds -/

/-- **How high the trees of expressions and of calls are.** On each path the nodes that name no
    parameter are one more than the levels at most, and those that name one at most as many as the
    levels. So a tree without named arguments has one level more than `maxDepth` at most, any tree
    twice as many and one, and some expressions reach that. -/
theorem height_bounds (p : Place) :
    (∀ n, IsTree p n →
      (∀ path, n.IsPath path →
        path.length ≤ maxDepth + 1 + namedArguments path ∧ namedArguments path ≤ maxDepth) ∧
      n.height ≤ 2 * maxDepth + 1 ∧
      ((∀ m ∈ n.preorder, m.kind ≠ .assignment) → n.height ≤ maxDepth + 1)) ∧
    ∃ s, (parse p s).height = 2 * maxDepth + 1 := by
  constructor
  · intro n hn
    have h := hn.pathsWithin
    refine ⟨fun path hpath => ⟨h.length_le path hpath, h.named_le path hpath⟩, ?_, ?_⟩
    · have := h.height_le
      omega
    · intro hpositional
      exact (h.of_positional hpositional).height_le
  · exact ⟨nestedCalls maxDepth, height_parseAt_nestedCalls p (Nat.le_refl _)⟩

/-- A call with a named argument, and one without. -/
theorem height_bounds_namedArgument :
    (∀ path, (parse ⟨1, "Main"⟩ "f(a:=x)".toList).IsPath path →
      path.length ≤ 65 + namedArguments path ∧ namedArguments path ≤ 64) ∧
    (parse ⟨1, "Main"⟩ "f(x)".toList).height ≤ 65 :=
  ⟨((height_bounds ⟨1, "Main"⟩).1 _ (.parse _)).1,
    ((height_bounds ⟨1, "Main"⟩).1 _ (.parse _)).2.2 (by decide +kernel)⟩

/-- **Calls in named arguments go deeper than the limit**: 33 of them have 67 levels. -/
theorem exists_height_gt_maxDepth :
    (parse ⟨1, "Main"⟩ (nestedCalls 33)).height = 67 ∧
      ¬ (parse ⟨1, "Main"⟩ (nestedCalls 33)).height ≤ maxDepth + 1 := by
  have h : (parse ⟨1, "Main"⟩ (nestedCalls 33)).height = 67 :=
    height_parseAt_nestedCalls _ (by decide)
  refine ⟨h, ?_⟩
  rw [h]
  decide

end Expression

end StLint

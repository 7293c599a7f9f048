import StLint.Proofs.Collection.Keyed
import StLint.Proofs.Expression.Leftmost
import StLint.Proofs.Expression.Literal
import StLint.Proofs.Pou.Tree

/-!
# String literals in expressions

A text is read as a string literal by its ends alone: it begins and ends with the same quote. If that
quote stands nowhere else, the text is one string, and no operator stands in it. Otherwise the string
is closed earlier, and **what stands behind it is swallowed**: the text between two strings with the
same quotes is neither split nor searched for calls.

* `ClosesAtEnd`, `closesAtEnd_literal_iff` — one string from the first character to the last.
* `forall_mem_parseAt` — what holds of every node of a tree.
* `IsSwallowed` — a text that is more than one string and read as one.
* `Dependencies.mem_units_ofBody`, `Dependencies.mem_ofBody_binary` — the calls of a tree.
* `strings_of_parse` — which strings an expression is read as, and what is lost.
-/

namespace StLint

open Text

/-! ## What a tree calls -/

namespace Node

/-- What the nodes of a tree call. -/
def callees (vars : List Variable) (n : Node) : List Callee :=
  n.preorder.filterMap (Callee.resolve? vars)

end Node

namespace Dependencies

variable {vars : List Variable} {n : Node}

theorem mem_units_ofBody {u : String} :
    u ∈ (ofBody vars n).units ↔ ∃ c ∈ n.callees vars, c.dependency? = some u := by
  rw [ofBody, Node.walk_eq_preorder]
  dsimp only
  rw [mem_sortOnce, List.mem_filterMap]
  rfl

theorem mem_instances_ofBody {b : InstanceBinding} :
    b ∈ (ofBody vars n).instances ↔ ∃ c ∈ n.callees vars, c.binding? = some b := by
  rw [ofBody, Node.walk_eq_preorder]
  dsimp only
  rw [mem_sortOnce, List.mem_filterMap]
  rfl

/-- What one body calls is what two others call together. -/
structure IsUnion (d a b : Dependencies) : Prop where
  units : ∀ u, u ∈ d.units ↔ u ∈ a.units ∨ u ∈ b.units
  instances : ∀ i, i ∈ d.instances ↔ i ∈ a.instances ∨ i ∈ b.instances

theorem isUnion_ofBody {l r : Node} (h : n.callees vars = l.callees vars ++ r.callees vars) :
    IsUnion (ofBody vars n) (ofBody vars l) (ofBody vars r) := by
  constructor
  · intro u
    rw [mem_units_ofBody, mem_units_ofBody, mem_units_ofBody, h]
    simp only [List.mem_append, or_and_right, exists_or]
  · intro b
    rw [mem_instances_ofBody, mem_instances_ofBody, mem_instances_ofBody, h]
    simp only [List.mem_append, or_and_right, exists_or]

end Dependencies

namespace Expression

open Source (literal)

/-! ## One string -/

/-- The quote that opens a text is closed by its last character, and nowhere earlier. A string has no
    escapes, as everywhere in expressions. -/
def ClosesAtEnd (s : List Char) : Prop :=
  (∀ i, 0 < i → i < s.length → inQuotes s i = true) ∧ inQuotes s s.length = false

variable {q : Char} {body : List Char}

/-- Inside a string only its quote matters. -/
theorem foldl_stepQuote_of_not_mem {s : List Char} (h : q ∉ s) :
    s.foldl Nesting.stepQuote (some q) = some q := by
  induction s with
  | nil => rfl
  | cons c r ih =>
      have hc : c ≠ q := fun hc => h (hc ▸ List.mem_cons_self ..)
      rw [List.foldl_cons, Nesting.stepQuote, if_neg hc]
      exact ih fun hr => h (List.mem_cons_of_mem c hr)

/-- A string is open behind its first quote. -/
theorem inQuotes_succ (hq : isQuote q = true) (r : List Char) (i : Nat) :
    inQuotes (q :: r) (i + 1) = ((r.take i).foldl Nesting.stepQuote (some q)).isSome := by
  rw [inQuotes, List.take_succ_cons, List.foldl_cons, Nesting.stepQuote, if_pos hq]

theorem closesAtEnd_literal_iff (hq : isQuote q = true) :
    ClosesAtEnd (literal q body) ↔ q ∉ body := by
  have hlength : (literal q body).length = body.length + 2 := by
    rw [literal, List.length_cons, List.length_append, List.length_singleton]
  constructor
  · rintro ⟨hinside, -⟩ hmem
    -- behind the first quote in the body no string is open
    obtain ⟨u, v, rfl, hu⟩ := List.eq_append_cons_of_mem hmem
    have hopen := hinside (u.length + 2) (Nat.succ_pos _) (by
      rw [hlength, List.length_append, List.length_cons]
      omega)
    have htake : (u ++ q :: v ++ [q]).take (u.length + 1) = u ++ [q] := by
      rw [List.append_assoc, List.take_append, List.take_of_length_le (Nat.le_succ _),
        Nat.add_sub_cancel_left]
      rfl
    rw [literal, inQuotes_succ hq, htake, List.foldl_append, foldl_stepQuote_of_not_mem hu,
      List.foldl_cons, Nesting.stepQuote, if_pos rfl] at hopen
    cases hopen
  · intro hmem
    constructor
    · intro i hpos hlt
      obtain ⟨j, rfl⟩ := Nat.exists_eq_add_one_of_ne_zero (Nat.ne_of_gt hpos)
      have htake : (body ++ [q]).take j = body.take j := by
        refine List.take_append_of_le_length ?_
        omega
      rw [literal, inQuotes_succ hq, htake,
        foldl_stepQuote_of_not_mem fun h => hmem (List.mem_of_mem_take h)]
      rfl
    · rw [hlength, literal, inQuotes_succ hq, List.take_of_length_le (by simp), List.foldl_append,
        foldl_stepQuote_of_not_mem hmem, List.foldl_cons, Nesting.stepQuote, if_pos rfl]
      rfl

/-- A text is quoted if it is a string by its ends. -/
theorem isQuoted_iff (hq : isQuote q = true) {r : List Char} :
    Literal.isQuoted (q :: r) = true ↔ ∃ body, q :: r = literal q body := by
  have hends : Literal.isQuoted (q :: r) = true ↔ r ≠ [] ∧ r.getLast? = some q := by
    rcases Source.isQuote_iff.mp hq with rfl | rfl
    all_goals
      cases r with
      | nil => simp [Literal.isQuoted]
      | cons c r => simp [Literal.isQuoted, List.getLast?_cons_cons]
  rw [hends]
  constructor
  · rintro ⟨-, hlast⟩
    obtain ⟨body, rfl⟩ := List.getLast?_eq_some_iff.mp hlast
    exact ⟨body, rfl⟩
  · rintro ⟨body, h⟩
    obtain ⟨-, rfl⟩ := List.cons.inj h
    exact ⟨List.append_ne_nil_of_right_ne_nil _ (List.cons_ne_nil _ _), List.getLast?_concat⟩

/-! ## The nodes of a tree -/

section Nodes

variable {P : Node → Prop} {p : Place}

theorem forall_mem_of_leaf {n : Node} (hn : P n) (hc : n.children = []) : ∀ m ∈ n.preorder, P m := by
  refine Node.forall_mem_preorder hn ?_
  rw [hc]
  exact nofun

/-- What holds of every node of the arguments of a call, and of nodes that are neither literals nor calls,
    holds of its arguments. -/
theorem forall_mem_children_call
    (hother : ∀ n : Node, n.kind ≠ .literal → n.kind ≠ .functionCall → P n)
    {parse : List Char → Node} (h : ∀ t, ∀ m ∈ (parse t).preorder, P m) (name args : List Char) :
    ∀ c ∈ (p.call parse name args).children, ∀ m ∈ c.preorder, P m := by
  have hassign : ∀ param text {child : Node}, (∀ m ∈ child.preorder, P m) →
      ∀ m ∈ (p.assignment param text child).preorder, P m := by
    intro param text child hchild
    exact Node.forall_mem_preorder (hother _ NodeKind.noConfusion NodeKind.noConfusion)
      (Place.forall_mem_assignment hchild param text)
  have hname : ∀ t, ∀ m ∈ (p.nameNode t).preorder, P m := fun t =>
    forall_mem_of_leaf (hother _ NodeKind.noConfusion NodeKind.noConfusion) rfl
  refine Place.forall_mem_call (motive := fun n => ∀ m ∈ n.preorder, P m) (fun arg => ?_) name args
  exact Place.argument_cases (motive := fun n => ∀ m ∈ n.preorder, P m)
    (fun param text t => hassign param text (h t)) (fun param t => hassign param t (hname t)) h arg

/-- **What holds of every node of a tree**, if it holds of the nodes that are neither literals nor calls in
    any case. -/
theorem forall_mem_parseAt (p : Place)
    (hliteral : ∀ t, Literal.isLiteral (trim t) = true → P (p.literal (trim t)))
    (hcall : ∀ name args parse, isQualified name = true → P (p.call parse name args))
    (hother : ∀ n : Node, n.kind ≠ .literal → n.kind ≠ .functionCall → P n) (levels : Nat)
    (s : List Char) : ∀ m ∈ (parseAt p levels s).preorder, P m := by
  have hleaf : ∀ n : Node, n.kind = .variable → n.children = [] → ∀ m ∈ n.preorder, P m := by
    intro n hkind hchildren
    refine forall_mem_of_leaf (hother n ?_ ?_) hchildren <;> rw [hkind] <;> exact NodeKind.noConfusion
  refine parseAt_induction (motive := fun _ n => ∀ m ∈ n.preorder, P m) p ?literal ?name ?whole
    ?call ?binary levels s
  case literal => exact fun t ht => forall_mem_of_leaf (hliteral t ht) rfl
  case name => exact fun t _ => hleaf _ rfl rfl
  case whole => exact fun t => hleaf _ rfl rfl
  case call =>
    intro _ name args parse hcut h
    exact Node.forall_mem_preorder (hcall name args parse (isQualified_of_splitUnitCall? hcut))
      (forall_mem_children_call hother h name args)
  case binary =>
    intro _ op left right l r _ hl hr
    exact Node.forall_mem_preorder (hother _ NodeKind.noConfusion NodeKind.noConfusion)
      (Place.forall_mem_binary hl hr op)

end Nodes

/-! ## Texts that begin with a quote -/

variable {p : Place} {s r : List Char}

theorem isLiteral_trim_iff (hq : isQuote q = true) (hs : trim s = q :: r) :
    Literal.isLiteral (trim s) = true ↔ ∃ body, trim s = literal q body := by
  have htrim : trim (q :: r) = q :: r := by rw [← hs, trim_trim]
  rw [hs, Literal.isLiteral_of_quote hq htrim, isQuoted_iff hq]

/-- A text that is a string by its ends is read as one. -/
theorem parseAt_of_literal (hq : isQuote q = true) (hs : trim s = literal q body) (levels : Nat) :
    parseAt p levels s = p.literal (trim s) := by
  rw [parseAt.eq_def]
  dsimp only
  rw [if_pos ((isLiteral_trim_iff hq hs).mpr ⟨body, hs⟩)]

/-- No name begins with a quote. -/
theorem isQualified_quote (hq : isQuote q = true) (r : List Char) : isQualified (q :: r) = false := by
  refine Bool.eq_false_iff.mpr ?_
  intro h
  have hchar := wordChar_of_qualified h q (List.mem_cons_self ..)
  rcases Source.isQuote_iff.mp hq with rfl | rfl
  all_goals exact absurd hchar (by decide)

/-- And so no call. -/
theorem splitUnitCall?_quote (hq : isQuote q = true) (hs : trim s = q :: r) :
    splitUnitCall? (trim s) = none := by
  cases hcall : splitUnitCall? (trim s) with
  | none => rfl
  | some cut =>
      obtain ⟨w, -, hname⟩ := splitUnitCall?_eq_some hcall
      have hqualified := isQualified_of_splitUnitCall? hcall
      rw [trim_trim, hs] at hname
      obtain ⟨c, t, hcut⟩ := List.exists_cons_of_ne_nil (ne_nil_of_qualified hqualified)
      rw [hcut] at hname hqualified
      rw [← (List.cons.inj hname).1, isQualified_quote hq] at hqualified
      cases hqualified

/-- **A text that begins with a quote** and is no string by its ends is split at its operator. -/
theorem parseAt_of_quote {op : String} {left right : List Char} (hq : isQuote q = true)
    (hs : trim s = q :: r) (hends : ¬ ∃ body, trim s = literal q body)
    (hsplit : splitBinary? (trim s) = some (op, left, right)) (levels : Nat) :
    parseAt p (levels + 1) s
      = p.binary op (parseAt p levels left) (parseAt p levels right) := by
  have hname : ¬ isQualified (trim s) = true := by
    rw [hs, isQualified_quote hq]
    exact Bool.false_ne_true
  rw [parseAt, if_neg fun h => hends ((isLiteral_trim_iff hq hs).mp h), if_neg hname]
  simp only [splitUnitCall?_quote hq hs, hsplit]

theorem callees_binary (vars : List Variable) (op : String) (left right : Node) :
    (p.binary op left right).callees vars = left.callees vars ++ right.callees vars := by
  have hnode : Callee.resolve? vars (p.binary op left right) = none := rfl
  rw [Node.callees, Node.preorder_eq, List.filterMap_cons, hnode]
  show List.filterMap _ (Node.preorderAll [left, right]) = _
  rw [Node.preorderAll, Node.preorderAll, Node.preorderAll, List.append_nil, List.filterMap_append]
  rfl

/-- A literal calls nothing. -/
theorem ofBody_literal (vars : List Variable) (t : List Char) :
    Dependencies.ofBody vars (p.literal t) = ⟨[], []⟩ := by
  rw [Dependencies.ofBody, Node.walk_eq_preorder]
  rfl

/-! ## Operators in a string -/

/-- No operator begins with a quote. -/
theorem IsOperatorAt.exists_cons {op : String} (hop : op ∈ binaryOperators) {i : Nat}
    (h : IsOperatorAt op s i) : ∃ c r, s.drop i = c :: r ∧ isQuote c = false := by
  have hspelled : ∃ t rest, s.drop i = t ++ rest ∧ upper t = upper op.toList := by
    have htoken := h.token
    by_cases hword : isWordOperator op = true
    · rw [if_pos hword] at htoken
      exact ⟨_, _, (List.take_append_drop op.length _).symm, htoken.spelled⟩
    · rw [if_neg hword] at htoken
      obtain ⟨rest, hrest⟩ := htoken.spelled
      exact ⟨_, rest, hrest.symm, rfl⟩
  obtain ⟨t, rest, hdrop, ht⟩ := hspelled
  have hall : (binaryOperators.all fun op => (upper op.toList).head?.any (!isQuote ·)) = true := by
    decide
  have hhead := List.all_eq_true.mp hall op hop
  cases t with
  | nil =>
      rw [← ht] at hhead
      cases hhead
  | cons c t =>
      refine ⟨c, t ++ rest, hdrop, ?_⟩
      rw [← ht, upper, List.map_cons, List.head?_cons, Option.any_some, Bool.not_eq_true'] at hhead
      rw [Bool.eq_false_iff]
      intro hc
      rcases Source.isQuote_iff.mp hc with rfl | rfl
      all_goals exact absurd hhead (by decide)

/-- **No operator stands in a string.** -/
theorem not_isOperatorAt_of_closesAtEnd (hq : isQuote q = true) (h : ClosesAtEnd (q :: r))
    {op : String} (hop : op ∈ binaryOperators) (i : Nat) : ¬ IsOperatorAt op (q :: r) i := by
  intro hat
  obtain ⟨c, t, hdrop, hc⟩ := hat.exists_cons hop
  by_cases hzero : i = 0
  · rw [hzero, List.drop_zero] at hdrop
    rw [← (List.cons.inj hdrop).1, hq] at hc
    cases hc
  · have hlt : i < (q :: r).length := by
      by_contra hle
      rw [List.drop_eq_nil_of_le (Nat.le_of_not_lt hle)] at hdrop
      cases hdrop
    have hinside := h.1 i (Nat.pos_of_ne_zero hzero) hlt
    rw [hat.unquoted] at hinside
    cases hinside

/-! ## What is swallowed -/

/-- A text is swallowed if it begins and ends with a quote that stands in between, too. -/
def IsSwallowed (s : List Char) : Prop :=
  ∃ q body, isQuote q = true ∧ trim s = literal q body ∧ q ∈ body

/-- The value of a literal that begins with a quote is one string. -/
def IsOneString (n : Node) : Prop :=
  n.kind = .literal → ∀ q r, isQuote q = true → n.value = some (String.ofList (q :: r)) →
    ClosesAtEnd (q :: r)

theorem not_isOneString_of_isSwallowed (h : IsSwallowed s) : ¬ IsOneString (parse p s) := by
  obtain ⟨q, body, hq, hs, hmem⟩ := h
  intro hone
  have hparse : parse p s = p.literal (trim s) := parseAt_of_literal hq hs maxDepth
  rw [hparse, hs] at hone
  exact (closesAtEnd_literal_iff hq).mp (hone rfl q (body ++ [q]) hq rfl) hmem

/-- **The string literals of a tree** end with their quote. They are one string if that quote stands
    nowhere else, and then no operator stands in them. -/
theorem string_of_mem_parse {m : Node} (hm : m ∈ (parse p s).preorder) (hkind : m.kind = .literal)
    (hq : isQuote q = true) (hvalue : m.value = some (String.ofList (q :: r))) :
    ∃ body, q :: r = literal q body ∧ (ClosesAtEnd (q :: r) ↔ q ∉ body) ∧
      (q ∉ body → ∀ op ∈ binaryOperators, ∀ i, ¬ IsOperatorAt op (q :: r) i) := by
  have hread : m.kind = .literal → ∃ t, Literal.isLiteral (trim t) = true ∧
      m.value = some (String.ofList (trim t)) := by
    refine forall_mem_parseAt (P := fun m => m.kind = .literal → ∃ t,
      Literal.isLiteral (trim t) = true ∧ m.value = some (String.ofList (trim t))) p ?_ ?_ ?_
      maxDepth s m hm
    · exact fun t ht _ => ⟨t, ht, rfl⟩
    · exact fun _ _ _ _ => NodeKind.noConfusion
    · exact fun n hn _ h => absurd h hn
  obtain ⟨t, ht, htext⟩ := hread hkind
  have htrim : trim t = q :: r := by
    rw [htext] at hvalue
    exact String.ofList_injective (Option.some.inj hvalue)
  obtain ⟨body, hbody⟩ := (isLiteral_trim_iff hq htrim).mp ht
  rw [htrim] at hbody
  have hends : ClosesAtEnd (q :: r) ↔ q ∉ body := by rw [hbody, closesAtEnd_literal_iff hq]
  exact ⟨body, hbody, hends, fun hmem op hop i =>
    not_isOperatorAt_of_closesAtEnd hq (hends.mpr hmem) hop i⟩

/-- A literal at the root is the whole text. -/
theorem parseAt_eq_literal (levels : Nat) (h : (parseAt p levels s).kind = .literal) :
    parseAt p levels s = p.literal (trim s) := by
  refine parseAt_induction (motive := fun s n => n.kind = .literal → n = p.literal (trim s)) p
    ?literal ?name ?whole ?call ?binary levels s h
  case literal => exact fun _ _ _ => rfl
  case name => exact fun _ _ hkind => NodeKind.noConfusion hkind
  case whole => exact fun _ hkind => NodeKind.noConfusion hkind
  case call => exact fun _ _ _ _ _ _ hkind => NodeKind.noConfusion hkind
  case binary => exact fun _ _ _ _ _ _ _ _ _ hkind => NodeKind.noConfusion hkind

theorem isOneString_of_not_isSwallowed (h : ¬ IsSwallowed s) : IsOneString (parse p s) := by
  intro hkind q r hq hvalue
  have hroot : parse p s ∈ (parse p s).preorder := Node.mem_preorder.mpr (Or.inl rfl)
  obtain ⟨body, hbody, hends, -⟩ := string_of_mem_parse hroot hkind hq hvalue
  have hs : trim s = literal q body := by
    rw [show parse p s = p.literal (trim s) from parseAt_eq_literal maxDepth hkind] at hvalue
    rw [← hbody]
    exact String.ofList_injective (Option.some.inj hvalue)
  exact hends.mpr fun hmem => h ⟨q, body, hq, hs, hmem⟩

/-- A text between two strings that is a string by its ends has one quote. -/
theorem quote_eq_of_between {a m b : List Char} {c e : Char}
    (h : literal q a ++ (m ++ literal e b) = literal c body) : e = q := by
  have hfirst : q = c := (List.cons.inj h).1
  have hends : literal q a ++ (m ++ literal e b) = literal q a ++ (m ++ e :: b) ++ [e] := by
    simp [literal]
  have hlast : some e = some c := by
    rw [← List.getLast?_concat (l := literal q a ++ (m ++ e :: b)), ← hends, h]
    exact List.getLast?_concat (l := c :: body)
  rw [hfirst]
  exact Option.some.inj hlast

/-- **Between two strings** the text is swallowed if they have the same quotes. -/
theorem isSwallowed_between_iff {a m b : List Char} {e : Char} (hq : isQuote q = true)
    (hs : trim s = literal q a ++ (m ++ literal e b)) : IsSwallowed s ↔ e = q := by
  constructor
  · rintro ⟨c, body, -, hbody, -⟩
    exact quote_eq_of_between (hs.symm.trans hbody)
  · rintro rfl
    refine ⟨e, a ++ e :: (m ++ e :: b), hq, ?_, by simp⟩
    rw [hs]
    simp [literal]

/-- **Which strings an expression is read as.** A literal that begins with a quote ends with it, and
    it is one string without operators if the quote stands nowhere else. So the tree of a text is at
    fault exactly if the text is swallowed, and then no call in it is seen. Between two strings that
    is the case if their quotes are the same; otherwise the text is split at its operator, and the
    calls on both sides are seen. -/
theorem strings_of_parse (p : Place) (s : List Char) :
    (∀ m ∈ (parse p s).preorder, m.kind = .literal → ∀ q r, isQuote q = true →
      m.value = some (String.ofList (q :: r)) →
        ∃ body, q :: r = literal q body ∧ (ClosesAtEnd (q :: r) ↔ q ∉ body) ∧
          (q ∉ body → ∀ op ∈ binaryOperators, ∀ i, ¬ IsOperatorAt op (q :: r) i)) ∧
    (IsOneString (parse p s) ↔ ¬ IsSwallowed s) ∧
    (IsSwallowed s → parse p s = p.literal (trim s) ∧
      ∀ vars, Dependencies.ofBody vars (parse p s) = ⟨[], []⟩) ∧
    ∀ q a m e b, isQuote q = true → trim s = literal q a ++ (m ++ literal e b) →
      (IsSwallowed s ↔ e = q) ∧
      (e ≠ q → ∀ op left right, splitBinary? (trim s) = some (op, left, right) →
        ∃ l r, parse p s = p.binary op l r ∧ l = parseAt p (maxDepth - 1) left ∧
          r = parseAt p (maxDepth - 1) right ∧ ∀ vars, (Dependencies.ofBody vars (parse p s)).IsUnion
            (Dependencies.ofBody vars l) (Dependencies.ofBody vars r)) := by
  refine ⟨?_, ⟨?_, isOneString_of_not_isSwallowed⟩, ?_, ?_⟩
  · exact fun m hm hkind q r hq hvalue => string_of_mem_parse hm hkind hq hvalue
  · exact fun hone h => not_isOneString_of_isSwallowed h hone
  · rintro ⟨q, body, hq, hs, -⟩
    have hparse : parse p s = p.literal (trim s) := parseAt_of_literal hq hs maxDepth
    refine ⟨hparse, fun vars => ?_⟩
    rw [hparse, ofBody_literal]
  · intro q a m e b hq hs
    refine ⟨isSwallowed_between_iff hq hs, ?_⟩
    intro hne op left right hsplit
    have hends : ¬ ∃ body, trim s = literal q body := by
      rintro ⟨body, hbody⟩
      exact hne (quote_eq_of_between (hs.symm.trans hbody))
    have hparse : parse p s
        = p.binary op (parseAt p (maxDepth - 1) left) (parseAt p (maxDepth - 1) right) :=
      parseAt_of_quote hq hs hends hsplit (maxDepth - 1)
    refine ⟨_, _, hparse, rfl, rfl, fun vars => Dependencies.isUnion_ofBody ?_⟩
    rw [hparse, callees_binary]

/-- Two strings with the same quotes, and two with different ones. -/
theorem strings_of_parse_between :
    Dependencies.ofBody [] (parse ⟨1, "Main"⟩ "'a' + F(y) + 'b'".toList) = ⟨[], []⟩ ∧
      "F" ∈ (Dependencies.ofBody [] (parse ⟨1, "Main"⟩ "'a' + F(y) + \"b\"".toList)).units := by
  obtain ⟨-, -, hlost, hsame⟩ := strings_of_parse ⟨1, "Main"⟩ "'a' + F(y) + 'b'".toList
  obtain ⟨-, -, -, hother⟩ := strings_of_parse ⟨1, "Main"⟩ "'a' + F(y) + \"b\"".toList
  have hswallowed := (hsame '\'' ['a'] " + F(y) + ".toList '\'' ['b'] rfl (by decide)).1.mpr rfl
  refine ⟨(hlost hswallowed).2 [], ?_⟩
  obtain ⟨l, r, -, -, hr, hunion⟩ := (hother '\'' ['a'] " + F(y) + ".toList '"' ['b'] rfl
    (by decide)).2 (by decide) "+" "'a'".toList "F(y) + \"b\"".toList (by decide +kernel)
  refine ((hunion []).units "F").mpr (Or.inr ?_)
  rw [hr]
  decide +kernel

/-- **A call between two strings is lost**: the text is one literal, and depends on nothing. -/
theorem exists_swallowed_call :
    (parse ⟨1, "Main"⟩ "'a' + F(y) + 'b'".toList).kind = .literal ∧
      ¬ IsOneString (parse ⟨1, "Main"⟩ "'a' + F(y) + 'b'".toList) ∧
      (Dependencies.ofBody [] (parse ⟨1, "Main"⟩ "'a' + F(y) + 'b'".toList)).units = [] := by
  have hswallowed : IsSwallowed "'a' + F(y) + 'b'".toList :=
    ⟨'\'', "a' + F(y) + 'b".toList, rfl, by decide, by decide⟩
  refine ⟨by decide +kernel, not_isOneString_of_isSwallowed hswallowed, ?_⟩
  decide +kernel

end Expression

end StLint

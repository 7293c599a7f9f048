import StLint.Expression.Basic
import StLint.Proofs.Text.Cut

/-!
# The forms of an expression

The tree of an expression has five forms, and each says what its text was. The levels only decide
where the recursion stops: **what holds of every form holds of every tree**, whatever the number of
levels.

* `findOperator?_eq_some`, `splitBinary?_eq_some` — an operator and the text on either side of it.
* `splitUnitCall?_eq_some` — a call and its argument text.
* `Place.argument_cases`, `Place.forall_mem_call`, `Place.forall_mem_binary` — what a node is made of.
* `parseAt_levels_induction`, `parseAt_induction` — induction over the forms, with the levels that
  are left and without them.
-/

namespace StLint.Expression

open Text

/-! ## Operators -/

/-- A symbol stands where it is found. -/
theorem findSymbolFrom?_eq_some {op : String} {skip : Nat} {quote : Option Char}
    {before s : List Char} {i : Nat} (h : findSymbolFrom? op skip quote before s = some i) :
    op.toList <+: s.drop i := by
  induction s generalizing skip quote before i with
  | nil => exact nomatch h
  | cons c r ih =>
      rw [findSymbolFrom?] at h
      split at h
      · rename_i hc
        obtain rfl := Option.some.inj h
        rw [Bool.and_eq_true, Bool.and_eq_true, Bool.and_eq_true, List.isPrefixOf_iff_prefix] at hc
        exact hc.1.1.2
      · obtain ⟨j, hj, rfl⟩ := Option.map_eq_some_iff.mp h
        exact ih hj

/-- **An operator stands where it is found**, in some case. -/
theorem findOperator?_eq_some {op : String} {s : List Char} {i : Nat}
    (h : findOperator? op s = some i) :
    ∃ t rest, s.drop i = t ++ rest ∧ upper t = upper op.toList := by
  rw [findOperator?] at h
  by_cases hw : isWordOperator op = true
  · rw [if_pos hw] at h
    obtain ⟨hfind, -⟩ := Option.filter_eq_some_iff.mp h
    rw [findWord?] at hfind
    by_cases hnil : op.toList.isEmpty = true
    · rw [if_pos hnil] at hfind
      cases hfind
    · rw [if_neg hnil] at hfind
      obtain ⟨p, hp⟩ := findWordFrom?_eq_some hfind
      obtain ⟨t, rest, hsplit, ht, -, -⟩ := wordAt_iff.mp hp
      exact ⟨t, rest, hsplit, ht⟩
  · rw [if_neg hw] at h
    obtain ⟨rest, hrest⟩ := findSymbolFrom?_eq_some h
    exact ⟨op.toList, rest, hrest.symm, rfl⟩

/-- **The two sides of an operator** with the operator between them, in some case, are the text. -/
theorem splitBinary?_eq_some {s left right : List Char} {op : String}
    (h : splitBinary? s = some (op, left, right)) :
    op ∈ binaryOperators ∧
      ∃ u t v, s = u ++ (t ++ v) ∧ upper t = upper op.toList ∧ left = trim u ∧ right = trim v := by
  obtain ⟨o, ho, hfind⟩ := List.exists_of_findSome?_eq_some h
  obtain ⟨i, hi, hsides⟩ := Option.bind_eq_some_iff.mp hfind
  dsimp only at hsides
  by_cases hempty : ((trim (s.take i)).isEmpty || (trim (s.drop (i + o.length))).isEmpty) = true
  · rw [if_pos hempty] at hsides
    exact nomatch hsides
  · rw [if_neg hempty] at hsides
    obtain ⟨rfl, hlr⟩ := Prod.mk.inj (Option.some.inj hsides)
    obtain ⟨rfl, rfl⟩ := Prod.mk.inj hlr
    obtain ⟨t, v, hsplit, ht⟩ := findOperator?_eq_some hi
    have hlength : t.length = o.length := by
      rw [length_eq_of_upper_eq ht, String.length_toList]
    have hv : s.drop (i + o.length) = v := by
      rw [← List.drop_drop, hsplit, ← hlength, List.drop_left]
    refine ⟨ho, s.take i, t, v, ?_, ht, rfl, by rw [hv]⟩
    rw [← hsplit, List.take_append_drop]

/-! ## Calls -/

theorem splitUnitCall?_eq_some {s name args : List Char}
    (h : splitUnitCall? s = some (name, args)) :
    ∃ w, (∀ c ∈ w, isBlank c = true) ∧ trim s = name ++ (w ++ '(' :: (args ++ [')'])) :=
  (splitCall?_eq_some (Option.filter_eq_some_iff.mp h).1).2

/-- What is called has a name. -/
theorem isQualified_of_splitUnitCall? {s name args : List Char}
    (h : splitUnitCall? s = some (name, args)) : isQualified name = true :=
  (splitCall?_eq_some (Option.filter_eq_some_iff.mp h).1).1

/-! ## What a node is made of -/

namespace Place

variable {motive : Node → Prop} {p : Place} {parse : List Char → Node}

/-- **The forms of an argument**: it names its parameter, with a value or with a target, or it is an
    expression. -/
theorem argument_cases (value : ∀ param text t, motive (p.assignment param text (parse t)))
    (target : ∀ param t, motive (p.assignment param t (p.nameNode t)))
    (positional : ∀ t, motive (parse t)) (arg : List Char) : motive (p.argument parse arg) := by
  rw [argument]
  cases cutTopLevel? ":=" arg with
  | some cut => exact value _ _ _
  | none =>
      cases cutTopLevel? "=>" arg with
      | some cut => exact target _ _
      | none => exact positional arg

theorem forall_mem_assignment {child : Node} (h : motive child) (param text : List Char) :
    ∀ c ∈ (p.assignment param text child).children, motive c := by
  intro c hc
  rw [List.mem_singleton.mp hc]
  exact h

theorem forall_mem_call (h : ∀ arg, motive (p.argument parse arg)) (name args : List Char) :
    ∀ c ∈ (p.call parse name args).children, motive c := by
  intro c hc
  obtain ⟨arg, -, rfl⟩ := List.mem_map.mp hc
  exact h arg

theorem forall_mem_binary {left right : Node} (hl : motive left) (hr : motive right) (op : String) :
    ∀ c ∈ (p.binary op left right).children, motive c := by
  intro c hc
  rcases List.mem_cons.mp hc with rfl | hc
  · exact hl
  · rw [List.mem_singleton.mp hc]
    exact hr

end Place

/-! ## Induction -/

/-- **Induction over the forms of an expression and the levels that are left.** A call and an operator
    leave one level less for what they are made of. -/
theorem parseAt_levels_induction {motive : Nat → List Char → Node → Prop} (p : Place)
    (literal : ∀ levels s, Literal.isLiteral (trim s) = true → motive levels s (p.literal (trim s)))
    (name : ∀ levels s, isQualified (trim s) = true → motive levels s (p.nameNode (trim s)))
    (whole : ∀ levels s, motive levels s (p.unresolved (trim s)))
    (call : ∀ below s name args parse, splitUnitCall? (trim s) = some (name, args) →
      (∀ t, motive below t (parse t)) → motive (below + 1) s (p.call parse name args))
    (binary : ∀ below s op left right l r, splitBinary? (trim s) = some (op, left, right) →
      motive below left l → motive below right r → motive (below + 1) s (p.binary op l r))
    (levels : Nat) (s : List Char) : motive levels s (parseAt p levels s) := by
  induction levels generalizing s with
  | zero =>
      rw [parseAt]
      by_cases hl : Literal.isLiteral (trim s) = true
      · rw [if_pos hl]
        exact literal 0 s hl
      rw [if_neg hl]
      by_cases hq : isQualified (trim s) = true
      · rw [if_pos hq]
        exact name 0 s hq
      · rw [if_neg hq]
        exact whole 0 s
  | succ below ih =>
      rw [parseAt]
      by_cases hl : Literal.isLiteral (trim s) = true
      · rw [if_pos hl]
        exact literal _ s hl
      rw [if_neg hl]
      by_cases hq : isQualified (trim s) = true
      · rw [if_pos hq]
        exact name _ s hq
      rw [if_neg hq]
      cases hc : splitUnitCall? (trim s) with
      | some cut => exact call below s cut.1 cut.2 (parseAt p below) hc ih
      | none =>
          cases hb : splitBinary? (trim s) with
          | some cut => exact binary below s cut.1 cut.2.1 cut.2.2 _ _ hb (ih _) (ih _)
          | none => exact whole _ s

/-- **Induction over the forms of an expression.** A call is taken with any reader of its arguments
    of which the statement holds already, so it does not matter how many levels are left. -/
theorem parseAt_induction {motive : List Char → Node → Prop} (p : Place)
    (literal : ∀ s, Literal.isLiteral (trim s) = true → motive s (p.literal (trim s)))
    (name : ∀ s, isQualified (trim s) = true → motive s (p.nameNode (trim s)))
    (whole : ∀ s, motive s (p.unresolved (trim s)))
    (call : ∀ s name args parse, splitUnitCall? (trim s) = some (name, args) →
      (∀ t, motive t (parse t)) → motive s (p.call parse name args))
    (binary : ∀ s op left right l r, splitBinary? (trim s) = some (op, left, right) →
      motive left l → motive right r → motive s (p.binary op l r))
    (levels : Nat) (s : List Char) : motive s (parseAt p levels s) :=
  parseAt_levels_induction (motive := fun _ => motive) p (fun _ => literal) (fun _ => name)
    (fun _ => whole) (fun _ => call) (fun _ => binary) levels s

end StLint.Expression

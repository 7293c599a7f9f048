import StLint.Proofs.Expression.Form
import StLint.Proofs.Pou.Tree
import StLint.Proofs.Text.Occurrence

/-!
# The words of an expression

An expression is cut at operators, brackets and commas, and **no cut loses or makes a word** that the
language leaves to the names of a program. So what a tree mentions stands in its text.

* `Language.IsFree` — a word that is not reserved.
* `containsWord_splitBinary?` — the sides of an operator.
* `Node.Holds`, `Node.Mentions` — a text of a node, and a word in a text of a tree.
* `mentions_parse_iff` — a tree mentions what its text holds.
-/

namespace StLint

open Text

namespace Language

/-- A word that the language leaves to the names of a program. -/
structure IsFree (word : String) : Prop where
  isKeyword : IsKeyword word.toList
  notReserved : isReserved word.toList = false

theorem isKeyword_of_mem_reservedWords {keyword : String} (h : keyword ∈ reservedWords) :
    IsKeyword keyword.toList ∧ isReserved keyword.toList = true := by
  have hall : (reservedWords.all fun k => (!k.toList.isEmpty && (upper k.toList).all isWordChar) &&
      isReserved k.toList) = true := by decide +kernel
  have hk := List.all_eq_true.mp hall keyword h
  rw [Bool.and_eq_true] at hk
  exact ⟨isKeyword_of_all hk.1, hk.2⟩

variable {word : String}

/-- A reserved word is no other word. -/
theorem IsFree.containsWord_of_reserved (hw : IsFree word) {s : List Char}
    (hs : ∀ c ∈ s, isWordChar c = true) (h : isReserved s = true) : containsWord word s = false := by
  rw [Bool.eq_false_iff]
  intro hword
  have hfree := hw.notReserved
  rw [isReserved, isOneOfIgnoringCase] at h hfree
  rw [← upper_eq_of_containsWord hw.isKeyword.1 hs hword, h] at hfree
  cases hfree

/-- Nor is it one in another case. -/
theorem IsFree.containsWord_of_upper_eq (hw : IsFree word) {keyword : String}
    (hk : keyword ∈ reservedWords) {s : List Char} (hs : upper s = upper keyword.toList) :
    containsWord word s = false := by
  obtain ⟨hkeyword, hreserved⟩ := isKeyword_of_mem_reservedWords hk
  refine hw.containsWord_of_reserved (wordChar_of_upper_eq hkeyword hs) ?_
  rw [isReserved, isOneOfIgnoringCase] at hreserved ⊢
  rw [hs]
  exact hreserved

/-- **A reserved word that is found** is passed over. -/
theorem IsFree.containsWord_findWord? (hw : IsFree word) {keyword : String}
    (hk : keyword ∈ reservedWords) {s : List Char} {i : Nat} (h : findWord? keyword s = some i) :
    containsWord word s =
      (containsWord word (s.take i) || containsWord word (s.drop (i + keyword.length))) := by
  have hne := (isKeyword_of_mem_reservedWords hk).1.1
  rw [findWord?, if_neg (fun h => hne (List.isEmpty_iff.mp h))] at h
  obtain ⟨u, k, v, hs, hlength, hupper, hu, hv⟩ := @exists_of_findWordFrom? _ [] s _ h
  rw [List.nil_append] at hs
  rw [List.length_nil, Nat.zero_add] at hlength
  have hdrop : s.drop (i + keyword.length) = v := by
    rw [hs, ← hlength, ← List.drop_drop, List.drop_left, ← String.length_toList,
      ← length_eq_of_upper_eq hupper, List.drop_left]
  have htake : s.take i = u := by
    rw [hs, ← hlength, List.take_left]
  rw [hdrop, htake, hs, containsWord_append hw.isKeyword (Or.inl hu),
    containsWord_append hw.isKeyword (Or.inr hv), hw.containsWord_of_upper_eq hk hupper,
    Bool.false_or]

end Language

/-! ## What a tree mentions -/

namespace Node

/-- A text is the name or the value of a node. -/
def Holds (n : Node) (s : List Char) : Prop :=
  n.name = some (String.ofList s) ∨ n.value = some (String.ofList s)

/-- A node of a tree holds a text with a word. -/
def Mentions (word : String) (n : Node) : Prop :=
  ∃ m ∈ n.preorder, ∃ s, m.Holds s ∧ containsWord word s = true

variable {word : String} {n : Node}

/-- The texts of a node with a word. -/
theorem exists_holds_iff :
    (∃ s, n.Holds s ∧ containsWord word s = true) ↔
      n.name.any (containsWord word ·.toList) = true ∨
        n.value.any (containsWord word ·.toList) = true := by
  rw [Option.any_eq_true, Option.any_eq_true]
  constructor
  · rintro ⟨s, hname | hvalue, h⟩
    · exact Or.inl ⟨_, hname, by rwa [String.toList_ofList]⟩
    · exact Or.inr ⟨_, hvalue, by rwa [String.toList_ofList]⟩
  · rintro (⟨t, hname, h⟩ | ⟨t, hvalue, h⟩)
    · exact ⟨t.toList, Or.inl (by rw [hname, String.ofList_toList]), h⟩
    · exact ⟨t.toList, Or.inr (by rw [hvalue, String.ofList_toList]), h⟩

/-- A tree mentions what its own texts and its children do. -/
theorem mentions_iff :
    n.Mentions word ↔
      (n.name.any (containsWord word ·.toList) = true ∨
        n.value.any (containsWord word ·.toList) = true) ∨ ∃ c ∈ n.children, c.Mentions word := by
  rw [← exists_holds_iff]
  constructor
  · rintro ⟨m, hm, hmentions⟩
    rcases mem_preorder.mp hm with rfl | ⟨c, hc, hm⟩
    · exact Or.inl hmentions
    · exact Or.inr ⟨c, hc, m, hm, hmentions⟩
  · rintro (hmentions | ⟨c, hc, m, hm, hmentions⟩)
    · exact ⟨n, mem_preorder.mpr (Or.inl rfl), hmentions⟩
    · exact ⟨m, mem_preorder.mpr (Or.inr ⟨c, hc, hm⟩), hmentions⟩

end Node

namespace Expression

open StLint.Language (IsFree)

variable {word : String} {s : List Char}

/-! ## Operators -/

/-- An operator is a reserved word, or has no word character at all. -/
theorem reserved_or_symbol {op : String} (h : op ∈ binaryOperators) :
    isWordOperator op = true ∧ op ∈ Language.reservedWords ∨
      isWordOperator op = false ∧ op.toList ≠ [] ∧ ∀ c ∈ op.toList, isWordChar c = false := by
  have hall : ∀ op ∈ binaryOperators, isWordOperator op = true ∧ op ∈ Language.reservedWords ∨
      isWordOperator op = false ∧ op.toList ≠ [] ∧ op.toList.all (fun c => !isWordChar c) = true := by
    decide
  rcases hall op h with hword | ⟨hsymbol, hne, hchars⟩
  · exact Or.inl hword
  · exact Or.inr ⟨hsymbol, hne, not_wordChar_of_all hchars⟩

theorem containsWord_findOperator? (hw : IsFree word) {op : String} (hop : op ∈ binaryOperators)
    {i : Nat} (h : findOperator? op s = some i) :
    containsWord word s =
      (containsWord word (s.take i) || containsWord word (s.drop (i + op.length))) := by
  rw [findOperator?] at h
  rcases reserved_or_symbol hop with ⟨hword, hreserved⟩ | ⟨hsymbol, hne, hchars⟩
  · rw [if_pos hword] at h
    exact hw.containsWord_findWord? hreserved (Option.filter_eq_some_iff.mp h).1
  · rw [if_neg (Bool.eq_false_iff.mp hsymbol)] at h
    obtain ⟨rest, hrest⟩ := findSymbolFrom?_eq_some h
    have hdrop : s.drop (i + op.length) = rest := by
      rw [← List.drop_drop, ← hrest, ← String.length_toList, List.drop_left]
    conv_lhs => rw [← List.take_append_drop i s, ← hrest]
    rw [hdrop, containsWord_append_of_not_wordChar hw.isKeyword hchars hne]

/-- **The sides of an operator** hold the words of the text. -/
theorem containsWord_splitBinary? (hw : IsFree word) {op : String} {left right : List Char}
    (h : splitBinary? s = some (op, left, right)) :
    op ∈ binaryOperators ∧
      containsWord word s = (containsWord word left || containsWord word right) := by
  obtain ⟨o, ho, hfind⟩ := List.exists_of_findSome?_eq_some h
  obtain ⟨i, hi, hsides⟩ := Option.bind_eq_some_iff.mp hfind
  dsimp only at hsides
  by_cases hempty : ((trim (s.take i)).isEmpty || (trim (s.drop (i + o.length))).isEmpty) = true
  · rw [if_pos hempty] at hsides
    cases hsides
  · rw [if_neg hempty] at hsides
    obtain ⟨rfl, hlr⟩ := Prod.mk.inj (Option.some.inj hsides)
    obtain ⟨rfl, rfl⟩ := Prod.mk.inj hlr
    refine ⟨ho, ?_⟩
    rw [containsWord_trim_eq hw.isKeyword, containsWord_trim_eq hw.isKeyword]
    exact containsWord_findOperator? hw ho hi

/-- No operator is a word of a program. -/
theorem containsWord_operator (hw : IsFree word) {op : String} (hop : op ∈ binaryOperators) :
    containsWord word op.toList = false := by
  rcases reserved_or_symbol hop with ⟨-, hreserved⟩ | ⟨-, -, hchars⟩
  · exact hw.containsWord_of_upper_eq hreserved rfl
  · exact containsWord_of_not_wordChar hw.isKeyword hchars

/-! ## Trees -/

namespace Place

variable (p : Place)

/-- A node with a name, a value and one child, as arguments and statements make it. -/
theorem mentions_assignment (name value : List Char) (child : Node) :
    (p.assignment name value child).Mentions word ↔
      (containsWord word name = true ∨ containsWord word value = true) ∨ child.Mentions word := by
  rw [Node.mentions_iff]
  simp [assignment, String.toList_ofList]

theorem mentions_literal (s : List Char) :
    (p.literal s).Mentions word ↔ containsWord word s = true := by
  rw [Node.mentions_iff]
  simp [literal, node, Node.leaf]

theorem mentions_nameNode (s : List Char) :
    (p.nameNode s).Mentions word ↔ containsWord word s = true := by
  rw [Node.mentions_iff]
  simp [nameNode, node, Node.leaf]

theorem mentions_unresolved (s : List Char) :
    (p.unresolved s).Mentions word ↔ containsWord word s = true := by
  rw [Node.mentions_iff]
  simp [unresolved, nameNode, node, Node.leaf]

theorem mentions_binary (hw : IsFree word) {op : String} (hop : op ∈ binaryOperators)
    (left right : Node) :
    (p.binary op left right).Mentions word ↔ left.Mentions word ∨ right.Mentions word := by
  rw [Node.mentions_iff]
  simp [binary, node, Node.leaf, containsWord_operator hw hop]

variable {parse : List Char → Node}

/-- An argument mentions the words of its text, if what it is made of does. -/
theorem mentions_argument (hw : IsFree word)
    (h : ∀ t, (parse t).Mentions word ↔ containsWord word t = true) (arg : List Char) :
    (p.argument parse arg).Mentions word ↔ containsWord word arg = true := by
  -- a named argument is cut at its mark
  have hcut : ∀ {mark : String} {param value : List Char} {child : Node},
      (∀ c ∈ mark.toList, isWordChar c = false) → mark.toList ≠ [] →
      cutTopLevel? mark arg = some (param, value) →
      (child.Mentions word ↔ containsWord word (trim value) = true) →
      ((p.assignment (trim param) (trim value) child).Mentions word ↔
        containsWord word arg = true) := by
    intro mark param value child hmark hne hcut hchild
    rw [mentions_assignment, hchild, or_assoc, or_self, containsWord_trim_eq hw.isKeyword,
      containsWord_trim_eq hw.isKeyword, containsWord_cutTopLevel? hw.isKeyword hmark hne hcut,
      Bool.or_eq_true]
  rw [argument]
  cases hassign : cutTopLevel? ":=" arg with
  | some cut => exact hcut (not_wordChar_of_all (by decide)) (by decide) hassign (h _)
  | none =>
      dsimp only
      cases hpass : cutTopLevel? "=>" arg with
      | some cut =>
          exact hcut (not_wordChar_of_all (by decide)) (by decide) hpass (p.mentions_nameNode _)
      | none => exact h arg

/-- **A call mentions the words of its text**, if what its arguments are made of does. -/
theorem mentions_call (hw : IsFree word)
    (h : ∀ t, (parse t).Mentions word ↔ containsWord word t = true) (name args : List Char) :
    (p.call parse name args).Mentions word ↔
      (containsWord word name || containsWord word args) = true := by
  have hown : ((p.call parse name args).name.any (containsWord word ·.toList) = true ∨
      (p.call parse name args).value.any (containsWord word ·.toList) = true) ↔
        (containsWord word name || containsWord word args) = true := by
    rw [Bool.or_eq_true, ← containsWord_trim_eq hw.isKeyword args]
    simp [call]
  have hchildren : (∃ c ∈ (p.call parse name args).children, c.Mentions word) →
      containsWord word args = true := by
    rintro ⟨c, hc, hmentions⟩
    obtain ⟨arg, harg, rfl⟩ := List.mem_map.mp hc
    rw [mentions_argument p hw h] at hmentions
    rw [containsWord_splitTopLevel hw.isKeyword (by decide : isWordChar ',' = false)]
    exact List.any_eq_true.mpr ⟨arg, (List.mem_filter.mp harg).1, hmentions⟩
  rw [Node.mentions_iff, hown, Bool.or_eq_true]
  exact or_iff_left_of_imp fun hc => Or.inr (hchildren hc)

end Place

/-- **A tree mentions what its text holds**, whatever the number of levels. -/
theorem mentions_parseAt_iff (hw : IsFree word) (p : Place) (levels : Nat) (s : List Char) :
    (parseAt p levels s).Mentions word ↔ containsWord word s = true := by
  have htrim := containsWord_trim_eq hw.isKeyword
  refine parseAt_induction (motive := fun s n => n.Mentions word ↔ containsWord word s = true) p
    ?literal ?name ?whole ?call ?binary levels s
  case literal => exact fun s _ => by rw [p.mentions_literal, htrim]
  case name => exact fun s _ => by rw [p.mentions_nameNode, htrim]
  case whole => exact fun s => by rw [p.mentions_unresolved, htrim]
  case call =>
    intro s name args parse hcut h
    rw [p.mentions_call hw h, ← containsWord_splitCall? hw.isKeyword
      (Option.filter_eq_some_iff.mp hcut).1, htrim]
  case binary =>
    intro s op left right l r hcut hl hr
    obtain ⟨hop, hsides⟩ := containsWord_splitBinary? hw hcut
    rw [p.mentions_binary hw hop, hl, hr, ← htrim s, hsides, Bool.or_eq_true]

theorem mentions_parse_iff (hw : IsFree word) (p : Place) (s : List Char) :
    (parse p s).Mentions word ↔ containsWord word s = true := mentions_parseAt_iff hw p maxDepth s

theorem mentions_call_iff (hw : IsFree word) (p : Place) (name args : List Char) :
    (call p name args).Mentions word ↔
      (containsWord word name || containsWord word args) = true :=
  p.mentions_call hw (mentions_parseAt_iff hw p (maxDepth - 1)) name args

end Expression

end StLint

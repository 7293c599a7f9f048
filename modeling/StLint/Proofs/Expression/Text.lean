import Mathlib.Data.List.Forall2
import StLint.Proofs.Expression.Form
import StLint.Proofs.Pou.Tree
import StLint.Proofs.Text.Cut

/-!
# The text of an expression

The tree of an expression is searched in place of its text, so **no part of the text may be missing
from the tree**. Up to white space and case the text is read back from the nodes: every cut keeps
both sides and what stood between them, and what cannot be cut is kept whole. A call keeps its
argument text as its value, and its children spell that text again unless an argument is empty.

* `ArgumentText` — what an argument spells: a named one its name, the mark and what is passed.
* `KeepsArguments` — the children of a call, joined, spell its value.
* `Faithful` — what a tree owes its text; one lemma for each form.
* `compact_flat_parse` — every tree is faithful.
-/

namespace StLint.Expression

open Text

/-- The marks between the name of a parameter and what is passed. -/
def argumentMarks : List String := [":=", "=>"]

/-- The text that an argument spells. -/
inductive ArgumentText : Node → List Char → Prop
  | positional {n : Node} (h : n.kind ≠ .assignment) : ArgumentText n (flat n)
  | named {n child : Node} {mark : String} (hk : n.kind = .assignment)
      (hc : n.children = [child]) (hm : mark ∈ argumentMarks) :
      ArgumentText n (fieldText n.name ++ (mark.toList ++ flat child))

/-- A call whose argument text has no empty part. -/
def HasFullArguments (n : Node) : Prop :=
  n.kind = .functionCall ∧ ∀ part ∈ splitTopLevel ',' (fieldText n.value), part ≠ []

/-- The children of a call, joined by commas, spell its argument text. -/
def KeepsArguments (n : Node) : Prop :=
  ∃ texts, List.Forall₂ ArgumentText n.children texts ∧
    compact ([','].intercalate texts) = compact (fieldText n.value)

/-- What a tree owes its text: it spells the text, and so does every call in it. -/
structure Faithful (s : List Char) (n : Node) : Prop where
  kind : n.kind ≠ .assignment
  text : compact (flat n) = compact s
  calls : ∀ m ∈ n.preorder, HasFullArguments m → KeepsArguments m

/-- The text of a field that is set. -/
private theorem fieldText_some (s : List Char) : fieldText (some (String.ofList s)) = s :=
  String.toList_ofList

namespace Place

variable {p : Place} {s : List Char}

/-! ## Single nodes -/

/-- A single node that is no call spells what it says. -/
private theorem faithful_of_leaf {n : Node} (hchildren : n.children = [])
    (hcall : n.kind ≠ .functionCall) (hkind : n.kind ≠ .assignment) (hflat : flat n = trim s) :
    Faithful s n := by
  refine ⟨hkind, ?_, ?_⟩
  · rw [hflat, compact_trim]
  · intro m hm hfull
    rcases Node.mem_preorder.mp hm with rfl | ⟨c, hc, -⟩
    · exact absurd hfull.1 hcall
    · rw [hchildren] at hc
      exact nomatch hc

theorem faithful_literal (p : Place) (s : List Char) : Faithful s (p.literal (trim s)) :=
  faithful_of_leaf rfl (fun h => nomatch h) (fun h => nomatch h) (fieldText_some (trim s))

theorem faithful_nameNode (p : Place) (s : List Char) : Faithful s (p.nameNode (trim s)) :=
  faithful_of_leaf rfl (fun h => nomatch h) (fun h => nomatch h) (fieldText_some (trim s))

theorem faithful_unresolved (p : Place) (s : List Char) : Faithful s (p.unresolved (trim s)) :=
  faithful_of_leaf rfl (fun h => nomatch h) (fun h => nomatch h) (fieldText_some (trim s))

/-! ## Operators -/

/-- **An operator between faithful sides is faithful.** -/
theorem faithful_binary {op : String} {left right : List Char} {l r : Node}
    (h : splitBinary? (trim s) = some (op, left, right)) (hl : Faithful left l)
    (hr : Faithful right r) : Faithful s (p.binary op l r) := by
  obtain ⟨-, u, t, v, hs, ht, rfl, rfl⟩ := splitBinary?_eq_some h
  refine ⟨fun h => (nomatch h), ?_, ?_⟩
  · have hflat : flat (p.binary op l r) = flat l ++ op.toList ++ flat r := rfl
    rw [hflat, compact_append, compact_append, hl.text, hr.text, compact_trim, compact_trim,
      ← compact_eq_of_upper_eq ht, List.append_assoc, ← compact_append, ← compact_append, ← hs,
      compact_trim]
  · intro m hm hfull
    rcases Node.mem_preorder.mp hm with rfl | ⟨c, hc, hbelow⟩
    · exact nomatch hfull.1
    rcases List.mem_cons.mp hc with rfl | hc
    · exact hl.calls m hbelow hfull
    · rw [List.mem_singleton.mp hc] at hbelow
      exact hr.calls m hbelow hfull

/-! ## Calls -/

/-- What an argument owes its text. -/
private def FaithfulArgument (arg : List Char) (n : Node) : Prop :=
  (∃ text, ArgumentText n text ∧ compact text = compact arg) ∧
    ∀ m ∈ n.preorder, HasFullArguments m → KeepsArguments m

/-- A named argument spells its two sides with the mark between them. -/
private theorem faithful_assignment {mark : String} (hm : mark ∈ argumentMarks)
    {arg param value : List Char} (hcut : cutTopLevel? mark arg = some (param, value)) {child : Node}
    (hchild : Faithful (trim value) child) :
    FaithfulArgument arg (p.assignment (trim param) (trim value) child) := by
  refine ⟨⟨_, .named rfl rfl hm, ?_⟩, ?_⟩
  · show compact (fieldText (some (String.ofList (trim param))) ++ (mark.toList ++ flat child)) = _
    rw [fieldText_some, compact_append, compact_append, hchild.text, compact_trim, compact_trim,
      ← compact_append, ← compact_append, ← cutTopLevel?_eq_some hcut]
  · intro m hm hfull
    rcases Node.mem_preorder.mp hm with rfl | ⟨c, hc, hbelow⟩
    · exact nomatch hfull.1
    · rw [List.mem_singleton.mp hc] at hbelow
      exact hchild.calls m hbelow hfull

variable {parse : List Char → Node}

/-- An argument is faithful, if what it is made of is. -/
private theorem faithful_argument (h : ∀ t, Faithful t (parse t)) (arg : List Char) :
    FaithfulArgument arg (p.argument parse arg) := by
  rw [argument]
  cases hassign : cutTopLevel? ":=" arg with
  | some cut => exact faithful_assignment (List.mem_cons_self ..) hassign (h _)
  | none =>
      cases hout : cutTopLevel? "=>" arg with
      | some cut =>
          have htarget := faithful_nameNode p (trim cut.2)
          rw [trim_trim] at htarget
          exact faithful_assignment (List.mem_cons_of_mem _ (List.mem_cons_self ..)) hout htarget
      | none =>
          have harg := h arg
          exact ⟨⟨_, .positional harg.kind, harg.text⟩, harg.calls⟩

/-- The parts of an argument text, joined by commas, spell it. -/
theorem compact_intercalate_splitTopLevel (args : List Char) :
    compact ([','].intercalate (splitTopLevel ',' args)) = compact args := by
  rw [splitTopLevel]
  by_cases hblank : allBlank args = true
  · rw [if_pos hblank, compact_of_blank (allBlank_iff.mp hblank)]
    rfl
  · rw [if_neg hblank]
    have hparts : List.Forall₂ (fun s t => compact s = compact t)
        ((topLevelPieces ',' .start args).map trim) (topLevelPieces ',' .start args) := by
      rw [List.forall₂_map_left_iff, List.forall₂_same]
      exact fun piece _ => compact_trim piece
    rw [compact_intercalate_congr [','] hparts, intercalate_topLevelPieces]

/-- Without empty arguments the children of a call spell its argument text. -/
private theorem keepsArguments_call (h : ∀ t, Faithful t (parse t)) (name args : List Char)
    (hfull : HasFullArguments (p.call parse name args)) :
    KeepsArguments (p.call parse name args) := by
  have hvalue : fieldText (p.call parse name args).value = trim args := fieldText_some (trim args)
  have hparts : (splitTopLevel ',' args).filter (!·.isEmpty) = splitTopLevel ',' args := by
    rw [List.filter_eq_self]
    intro part hpart
    have hne := hfull.2 part (by rw [hvalue, splitTopLevel_trim (by decide)]; exact hpart)
    rw [Bool.not_eq_true', List.isEmpty_eq_false_iff]
    exact hne
  -- each argument spells some text that agrees with its part
  have hspell : ∀ parts : List (List Char), ∃ texts,
      List.Forall₂ ArgumentText (parts.map (p.argument parse)) texts ∧
        List.Forall₂ (fun s t => compact s = compact t) texts parts := by
    intro parts
    induction parts with
    | nil => exact ⟨[], .nil, .nil⟩
    | cons part parts ih =>
        obtain ⟨text, htext, hcompact⟩ := (faithful_argument (p := p) h part).1
        obtain ⟨texts, htexts, hagree⟩ := ih
        exact ⟨text :: texts, .cons htext htexts, .cons hcompact hagree⟩
  obtain ⟨texts, htexts, hagree⟩ := hspell (splitTopLevel ',' args)
  refine ⟨texts, ?_, ?_⟩
  · show List.Forall₂ ArgumentText (((splitTopLevel ',' args).filter (!·.isEmpty)).map _) texts
    rw [hparts]
    exact htexts
  · rw [hvalue, compact_trim, compact_intercalate_congr [','] hagree,
      compact_intercalate_splitTopLevel]

/-- **A call is faithful, if its arguments are.** -/
theorem faithful_call {name args : List Char} (hcut : splitUnitCall? (trim s) = some (name, args))
    (h : ∀ t, Faithful t (parse t)) : Faithful s (p.call parse name args) := by
  refine ⟨fun h => (nomatch h), ?_, ?_⟩
  · obtain ⟨w, hw, hs⟩ := splitUnitCall?_eq_some hcut
    have hflat : flat (p.call parse name args)
        = fieldText (some (String.ofList name))
          ++ '(' :: fieldText (some (String.ofList (trim args))) ++ [')'] := rfl
    have hargs : '(' :: (trim args ++ [')']) = ['('] ++ (trim args ++ [')']) := rfl
    have hparens : '(' :: (args ++ [')']) = ['('] ++ (args ++ [')']) := rfl
    rw [trim_trim] at hs
    rw [hflat, fieldText_some, fieldText_some, List.append_assoc, List.cons_append, hargs,
      ← compact_trim s, hs, hparens]
    simp only [compact_append, compact_trim, compact_of_blank hw, List.nil_append]
  · intro m hm hfull
    rcases Node.mem_preorder.mp hm with rfl | ⟨c, hc, hbelow⟩
    · exact keepsArguments_call h name args hfull
    · obtain ⟨arg, -, rfl⟩ := List.mem_map.mp hc
      exact (faithful_argument h arg).2 m hbelow hfull

end Place

/-! ## Expressions -/

theorem faithful_parse (p : Place) (s : List Char) : Faithful s (parse p s) := by
  refine parseAt_induction p ?literal ?name ?whole ?call ?binary maxDepth s
  case literal => exact fun s _ => Place.faithful_literal p s
  case name => exact fun s _ => Place.faithful_nameNode p s
  case whole => exact fun s => Place.faithful_unresolved p s
  case call => exact fun s name args parse hcut h => Place.faithful_call hcut h
  case binary => exact fun s op left right l r hcut hl hr => Place.faithful_binary hcut hl hr

/-- **The tree of an expression loses no text.** Up to white space and case it spells the text it was
    read from, and every call in it whose argument text has no empty part spells that text again by
    its children. -/
theorem compact_flat_parse (p : Place) (s : List Char) :
    compact (flat (parse p s)) = compact s ∧
      ∀ n ∈ (parse p s).preorder, HasFullArguments n → KeepsArguments n :=
  ⟨(faithful_parse p s).text, (faithful_parse p s).calls⟩

/-- A call under an operator, with an operator in a named argument. -/
def namedArgument : List Char := "f(a, b := 2 + x) and\tdone".toList

/-- The call is spelled by its arguments, and the whole text by its tree. -/
theorem compact_flat_parse_namedArgument :
    compact (flat (parse ⟨3, "Main"⟩ namedArgument)) = "F(A,B:=2+X)ANDDONE".toList ∧
      ∃ n ∈ (parse ⟨3, "Main"⟩ namedArgument).preorder,
        n.name = some "f" ∧ HasFullArguments n ∧ KeepsArguments n := by
  have hparse := compact_flat_parse ⟨3, "Main"⟩ namedArgument
  let call := Place.call ⟨3, "Main"⟩ (parseAt ⟨3, "Main"⟩ 62) "f".toList "a, b := 2 + x".toList
  have hmem : call ∈ (parse ⟨3, "Main"⟩ namedArgument).preorder := by
    rw [Node.mem_preorder]
    exact .inr ⟨call, List.mem_cons_self .., Node.mem_preorder.mpr (.inl rfl)⟩
  have hfull : HasFullArguments call := ⟨rfl, by decide⟩
  refine ⟨?_, call, hmem, rfl, hfull, hparse.2 call hmem hfull⟩
  rw [hparse.1]
  decide

end StLint.Expression

import StLint.Proofs.Text.TopLevel

/-!
# Calls

A call is a dotted name, white space, and arguments between round brackets. The scan carries the open
quote and the number of brackets that are still to be closed, and stops where that number would fall
below zero. So it comes to the very end of a text exactly if the arguments **balance outside strings**:
no prefix of them closes more than it opens, the totals are equal, and no string is left open.

* `IsDotted` — a dotted name, by its components; `isQualified_iff`.
* `IsClosedFrom` — what has to stand before the bracket that closes; `isClosedFrom_cons` is its step.
* `closingParen?_concat_iff` — the scan follows `IsClosedFrom` character by character.
* `IsCall` — the grammar of a call; `splitCall?_exact`.
-/

namespace StLint.Text

/-! ## Names -/

/-- Identifiers joined by dots, at least one. -/
def IsDotted (name : List Char) : Prop :=
  ∃ components : List (List Char), components ≠ [] ∧ ['.'].intercalate components = name ∧
    ∀ p ∈ components, ∃ c r, p = c :: r ∧ (isLetter c = true ∨ c = '_') ∧
      ∀ d ∈ r, isWordChar d = true

theorem isIdentifier_iff {p : List Char} :
    isIdentifier p = true ↔
      ∃ c r, p = c :: r ∧ (isLetter c = true ∨ c = '_') ∧ ∀ d ∈ r, isWordChar d = true := by
  cases p with
  | nil => simp [isIdentifier]
  | cons c r => simp [isIdentifier]

/-- **A name is qualified exactly if it is dotted.** -/
theorem isQualified_iff {name : List Char} : isQualified name = true ↔ IsDotted name := by
  rw [isQualified, List.all_eq_true, splitOn_eq_list_splitOn]
  constructor
  · intro h
    exact ⟨_, List.splitOn_ne_nil '.' name, List.intercalate_splitOn '.', fun p hp =>
      isIdentifier_iff.mp (h p hp)⟩
  · rintro ⟨components, hne, rfl, h⟩
    have hdot : ∀ p ∈ components, '.' ∉ p := by
      intro p hp hmem
      have hword := (wordChar_of_identifier (isIdentifier_iff.mpr (h p hp))).2 '.' hmem
      exact absurd hword (by decide)
    rw [List.splitOn_intercalate '.' hdot hne]
    exact fun p hp => isIdentifier_iff.mpr (h p hp)

/-! ## Brackets -/

/-- The round brackets that a text opens outside strings, where `quote` is open before it. -/
def opened (quote : Option Char) (s : List Char) : Nat := (outsideQuotes quote s).count '('

/-- The round brackets that a text closes outside strings. -/
def closed (quote : Option Char) (s : List Char) : Nat := (outsideQuotes quote s).count ')'

theorem opened_append (quote : Option Char) (s t : List Char) :
    opened quote (s ++ t) = opened quote s + opened (openQuote quote s) t := by
  rw [opened, outsideQuotes_append, List.count_append, opened, opened]

theorem closed_append (quote : Option Char) (s t : List Char) :
    closed quote (s ++ t) = closed quote s + closed (openQuote quote s) t := by
  rw [closed, outsideQuotes_append, List.count_append, closed, closed]

/-- A text after which the brackets that are open before it, `depth` of them, and its own are closed,
    and no string is left open. It closes none of those before they are opened. -/
structure IsClosedFrom (quote : Option Char) (depth : Nat) (s : List Char) : Prop where
  unquoted : openQuote quote s = none
  covered : ∀ t, t <+: s → closed quote t ≤ depth + opened quote t
  total : depth + opened quote s = closed quote s

/-- The brackets that are still to be closed after one more character. -/
def depthAfter (quote : Option Char) (depth : Nat) (c : Char) : Nat :=
  depth + opened quote [c] - closed quote [c]

theorem isClosedFrom_nil {quote : Option Char} {depth : Nat} :
    IsClosedFrom quote depth [] ↔ quote = none ∧ depth = 0 := by
  constructor
  · rintro ⟨hquote, -, htotal⟩
    refine ⟨hquote, ?_⟩
    simpa [opened, closed, outsideQuotes] using htotal
  · rintro ⟨rfl, rfl⟩
    refine ⟨rfl, ?_, rfl⟩
    intro t ht
    rw [List.prefix_nil.mp ht]
    exact Nat.zero_le _

/-- **The step**: the first character must not close too much, and the rest is closed from there. -/
theorem isClosedFrom_cons {quote : Option Char} {depth : Nat} {c : Char} {r : List Char} :
    IsClosedFrom quote depth (c :: r) ↔
      closed quote [c] ≤ depth + opened quote [c] ∧
        IsClosedFrom (Nesting.stepQuote quote c) (depthAfter quote depth c) r := by
  have hopened : ∀ t, opened quote (c :: t)
      = opened quote [c] + opened (Nesting.stepQuote quote c) t := opened_append quote [c]
  have hclosed : ∀ t, closed quote (c :: t)
      = closed quote [c] + closed (Nesting.stepQuote quote c) t := closed_append quote [c]
  have hquote : openQuote quote (c :: r) = openQuote (Nesting.stepQuote quote c) r := rfl
  constructor
  · rintro ⟨hunquoted, hcovered, htotal⟩
    have hhead := hcovered [c] ⟨r, rfl⟩
    refine ⟨hhead, hquote ▸ hunquoted, ?_, ?_⟩
    · intro t ht
      have hcons := hcovered (c :: t) ((List.prefix_cons_inj c).mpr ht)
      rw [hopened, hclosed] at hcons
      rw [depthAfter]
      omega
    · rw [hopened, hclosed] at htotal
      rw [depthAfter]
      omega
  · rintro ⟨hhead, hunquoted, hcovered, htotal⟩
    rw [depthAfter] at hcovered htotal
    refine ⟨hquote ▸ hunquoted, ?_, ?_⟩
    · intro t ht
      cases t with
      | nil => exact Nat.zero_le _
      | cons d t =>
          obtain ⟨rfl, hrest⟩ := List.cons_prefix_cons.mp ht
          have hrest := hcovered t hrest
          rw [hopened, hclosed]
          omega
    · rw [hopened, hclosed]
      omega

/-! ## The bracket that closes -/

/-- The step of the scan, in terms of what one character opens and closes. -/
theorem closingParen?_cons (quote : Option Char) (depth : Nat) (c : Char) (r : List Char) :
    closingParen? quote depth (c :: r) =
      if closed quote [c] ≤ depth + opened quote [c] then
        (closingParen? (Nesting.stepQuote quote c) (depthAfter quote depth c) r).map
          fun (inside, rest) => (c :: inside, rest)
      else some ([], r) := by
  rw [closingParen?.eq_def, depthAfter]
  cases quote with
  | some q => simp [opened, closed, outsideQuotes]
  | none =>
      by_cases hclose : c = ')'
      · subst hclose
        cases depth <;> simp [opened, closed, outsideQuotes, Nesting.stepQuote, isQuote]
      · by_cases hopen : c = '('
        · subst hopen
          simp [opened, closed, outsideQuotes, isQuote]
        · by_cases hquote : isQuote c = true <;>
            simp [opened, closed, outsideQuotes, hclose, hopen, hquote]

/-- **The scan comes to the last character** exactly if what stands before it is closed there. -/
theorem closingParen?_concat_iff {quote : Option Char} {depth : Nat} {s : List Char} :
    closingParen? quote depth (s ++ [')']) = some (s, []) ↔ IsClosedFrom quote depth s := by
  induction s generalizing quote depth with
  | nil =>
      rw [isClosedFrom_nil, List.nil_append, closingParen?_cons]
      cases quote with
      | some q => simp [opened, closed, outsideQuotes, closingParen?]
      | none => cases depth <;> simp [opened, closed, outsideQuotes, isQuote, closingParen?]
  | cons c r ih =>
      rw [isClosedFrom_cons, ← ih, List.cons_append, closingParen?_cons]
      by_cases hhead : closed quote [c] ≤ depth + opened quote [c]
      · simp [hhead]
      · simp [hhead]

/-! ## The grammar -/

/-- The round brackets of a text balance outside strings. -/
abbrev IsParenBalanced (args : List Char) : Prop := IsClosedFrom none 0 args

/-- A text is the call of a name with arguments, up to white space around it. -/
structure IsCall (s name args : List Char) : Prop where
  dotted : IsDotted name
  spelled : ∃ w, (∀ c ∈ w, isBlank c = true) ∧ trim s = name ++ (w ++ '(' :: (args ++ [')']))
  balanced : IsParenBalanced args

/-- Behind a name and white space the first bracket is the one that counts. -/
theorem splitCall?_of_trim {s name w rest : List Char} (hname : isQualified name = true)
    (hw : ∀ c ∈ w, isBlank c = true) (hs : trim s = name ++ (w ++ '(' :: rest)) :
    splitCall? s = match closingParen? none 0 rest with
      | some (args, []) => some (name, args)
      | _ => none := by
  have hplain : ∀ c ∈ name, isBlank c = false := by
    intro c hc
    rcases wordChar_of_qualified hname c hc with hword | rfl
    · exact not_blank_of_wordChar hword
    · rfl
  have hparen : '(' ∉ name ++ w := by
    intro hmem
    rcases List.mem_append.mp hmem with hmem | hmem
    · exact absurd (wordChar_of_qualified hname '(' hmem) (by decide)
    · exact absurd (hw '(' hmem) (by decide)
  have htrim : trimEnd (name ++ w) = name := by
    rw [trimEnd_append_of_blank name hw, trimEnd_eq_self hplain]
  rw [splitCall?, hs, ← List.append_assoc, dropWhile_ne_append hparen, takeWhile_ne_append hparen]
  dsimp only
  rw [htrim]
  exact if_pos hname

theorem splitCall?_eq_some_iff {s name args : List Char} :
    splitCall? s = some (name, args) ↔ IsCall s name args := by
  constructor
  · intro h
    obtain ⟨hname, w, hw, hs⟩ := splitCall?_eq_some h
    refine ⟨isQualified_iff.mp hname, ⟨w, hw, hs⟩, closingParen?_concat_iff.mp ?_⟩
    -- what the scan found behind the bracket is what stands there
    rw [splitCall?_of_trim hname hw hs] at h
    split at h
    · rename_i inside hscan
      obtain ⟨-, rfl⟩ := Prod.mk.inj (Option.some.inj h)
      exact hscan
    · exact nomatch h
  · rintro ⟨hname, ⟨w, hw, hs⟩, hbalanced⟩
    rw [splitCall?_of_trim (isQualified_iff.mpr hname) hw hs, closingParen?_concat_iff.mpr hbalanced]

/-- **What is recognised as a call**: the texts of the grammar, each with its name and its arguments, and
    no others. -/
theorem splitCall?_exact (s : List Char) :
    (∀ name args, splitCall? s = some (name, args) ↔ IsCall s name args) ∧
      (splitCall? s = none ↔ ∀ name args, ¬ IsCall s name args) := by
  refine ⟨fun name args => splitCall?_eq_some_iff, ?_⟩
  constructor
  · intro hnone name args hcall
    rw [splitCall?_eq_some_iff.mpr hcall] at hnone
    exact nomatch hnone
  · intro hcall
    cases h : splitCall? s with
    | none => rfl
    | some found => exact absurd (splitCall?_eq_some_iff.mp h) (hcall found.1 found.2)

end StLint.Text

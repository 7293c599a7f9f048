import Mathlib.Data.List.Induction
import StLint.Proofs.Expression.Form
import StLint.Proofs.Text.Search

/-!
# The leftmost operator

An operator counts where it stands as a whole token outside quoted strings. A symbol is looked for
until such a place is found. A word is looked for at its **first whole-word occurrence only**: if
that stands in a string, the search gives up, whatever follows the string.

* `IsPartOfToken`, `IsSign`, `IsExponentSign` — where a symbol is no operator.
* `IsSymbolAt`, `IsOperatorAt` — the places of an operator.
* `isLeftmost_findSymbol`, `findOperator?_word` — what the searches for symbols and for words find.
* `isLeftmost_operatorOffset?_iff` — which searches for an operator find the leftmost one.
-/

namespace StLint

namespace Text

theorem trimStart_reverse (s : List Char) : trimStart s.reverse = (trimEnd s).reverse := by
  induction s using List.reverseRecOn with
  | nil => rfl
  | append_singleton s c ih =>
      rw [List.reverse_append, List.reverse_singleton, List.singleton_append, trimStart_cons]
      by_cases hc : isBlank c = true
      · have hw : ∀ d ∈ [c], isBlank d = true := by
          intro d hd
          rwa [List.mem_singleton.mp hd]
        rw [if_pos hc, ih, trimEnd_append_of_blank s hw]
      · rw [if_neg hc, trimEnd_concat s (Bool.eq_false_iff.mpr hc), List.reverse_append]
        rfl

end Text

namespace Expression

open Text

/-! ## Symbols that are no operators -/

/-- The tokens that an operator of one character can be a part of. -/
def longTokens : List String := ["<=", ">=", "<>", ":=", "=>", "!=", "(*", "*)"]

/-- A character is part of one of these tokens. -/
def IsPartOfToken (s : List Char) (i : Nat) : Prop :=
  ∃ t ∈ longTokens, ∃ j, t.toList <+: s.drop j ∧ j ≤ i ∧ i < j + t.length

/-- A plus or minus is a sign where nothing or the character of an operator stands before it, up to
    white space. -/
def IsSign (before : List Char) : Prop := (trimEnd before).getLast?.all precedesSign = true

/-- It is the sign of an exponent where a number that ends with `e` stands before it. -/
def IsExponentSign (before : List Char) : Prop :=
  ∃ u number, before = u ++ number ∧ u.getLast?.any isNumberChar = false ∧
    (∀ c ∈ number, isNumberChar c = true) ∧ number.head?.any isDigit = true ∧
    number.getLast?.any (fun c => c = 'e' || c = 'E') = true

theorem isPartOfToken_iff {u v : List Char} {c : Char} :
    IsPartOfToken (u ++ c :: v) u.length ↔ ∃ t ∈ longTokens, ∃ a b, t.toList = [a, b] ∧
      ((c = a ∧ v.head? = some b) ∨ (u.getLast? = some a ∧ c = b)) := by
  have htwo : ∀ t ∈ longTokens, ∃ a b, t.toList = [a, b] := by
    simp [longTokens]
  constructor
  · rintro ⟨t, ht, j, hprefix, hle, hlt⟩
    obtain ⟨a, b, hab⟩ := htwo t ht
    refine ⟨t, ht, a, b, hab, ?_⟩
    rw [← String.length_toList, hab] at hlt
    rw [hab] at hprefix
    obtain ⟨r, hr⟩ := hprefix
    rcases Nat.eq_or_lt_of_le hle with rfl | hlt'
    · -- it begins the token
      rw [List.drop_left] at hr
      obtain ⟨rfl, rfl⟩ := List.cons.inj hr
      exact Or.inl ⟨rfl, rfl⟩
    · -- it ends the token
      have hj : u.length = j + 1 := by
        have : u.length < j + 2 := hlt
        omega
      obtain ⟨x, d, rfl⟩ : ∃ x d, u = x ++ [d] := by
        obtain ⟨x, d, hu⟩ := (List.eq_nil_or_concat u).resolve_left (by rintro rfl; cases hj)
        exact ⟨x, d, hu.trans List.concat_eq_append⟩
      rw [List.length_append, List.length_singleton] at hj
      rw [← Nat.succ.inj hj, List.append_assoc, List.drop_left] at hr
      obtain ⟨rfl, hcons⟩ := List.cons.inj hr
      obtain ⟨rfl, -⟩ := List.cons.inj hcons
      exact Or.inr ⟨by rw [List.getLast?_concat], rfl⟩
  · rintro ⟨t, ht, a, b, hab, ⟨rfl, hv⟩ | ⟨hu, rfl⟩⟩
    · obtain ⟨r, rfl⟩ := List.head?_eq_some_iff.mp hv
      refine ⟨t, ht, u.length, ?_, Nat.le_refl _, ?_⟩
      · rw [hab, List.drop_left]
        exact ⟨r, rfl⟩
      · rw [← String.length_toList, hab]
        exact Nat.lt_add_of_pos_right (Nat.succ_pos _)
    · obtain ⟨x, rfl⟩ := List.getLast?_eq_some_iff.mp hu
      refine ⟨t, ht, x.length, ?_, ?_, ?_⟩
      · rw [hab, List.append_assoc, List.drop_left]
        exact ⟨v, rfl⟩
      · rw [List.length_append]
        exact Nat.le_add_right ..
      · rw [← String.length_toList, hab, List.length_append]
        exact Nat.lt_succ_self _

/-- **An operator of one character is glued** where it is part of a token. -/
theorem isGlued_iff {op : String} (hop : op ∈ binaryOperators) {u v : List Char} {c : Char}
    (h : op.toList = [c]) :
    isGlued op u.getLast? v.head? = true ↔ IsPartOfToken (u ++ c :: v) u.length := by
  rw [isPartOfToken_iff]
  simp only [binaryOperators, List.mem_cons, List.not_mem_nil, or_false] at hop
  -- a word or a symbol of two characters is not spelled with one
  rcases hop with rfl | rfl | rfl | rfl | rfl | rfl | rfl | rfl | rfl | rfl | rfl | rfl | rfl |
    rfl | rfl
  all_goals simp at h
  all_goals subst h
  all_goals cases u.getLast? <;> cases v.head? <;> simp [isGlued, longTokens] <;> grind

theorem endsWithExponent_reverse_iff {u : List Char} :
    endsWithExponent u.reverse = true ↔ IsExponentSign u := by
  rw [endsWithExponent, Bool.and_eq_true]
  constructor
  · rintro ⟨hlast, hfirst⟩
    refine ⟨(u.reverse.dropWhile isNumberChar).reverse, (u.reverse.takeWhile isNumberChar).reverse,
      ?_, ?_, ?_, ?_, ?_⟩
    · rw [← List.reverse_append, List.takeWhile_append_dropWhile, List.reverse_reverse]
    · rw [List.getLast?_reverse]
      cases hd : (u.reverse.dropWhile isNumberChar) with
      | nil => rfl
      | cons d r =>
          have := List.head?_dropWhile_not isNumberChar u.reverse
          rw [hd] at this
          simpa using this
    · intro c hc
      exact List.mem_takeWhile_imp (List.mem_reverse.mp hc)
    · rwa [List.head?_reverse]
    · rwa [List.getLast?_reverse]
  · rintro ⟨a, number, rfl, ha, hnumber, hfirst, hlast⟩
    have htoken : (a ++ number).reverse.takeWhile isNumberChar = number.reverse := by
      rw [List.reverse_append, List.takeWhile_append_of_pos]
      · cases hr : a.reverse with
        | nil => exact List.append_nil _
        | cons d r =>
            rw [List.getLast?_eq_head?_reverse, hr, List.head?_cons, Option.any_some] at ha
            rw [List.takeWhile_cons_of_neg (Bool.eq_false_iff.mp ha), List.append_nil]
      · intro c hc
        exact hnumber c (List.mem_reverse.mp hc)
    rw [htoken, List.head?_reverse, List.getLast?_reverse]
    exact ⟨hlast, hfirst⟩

theorem isSignAfter_reverse_iff {u : List Char} :
    isSignAfter u.reverse = true ↔ IsSign u ∨ IsExponentSign u := by
  rw [isSignAfter, trimStart_reverse, IsSign, ← endsWithExponent_reverse_iff]
  rw [List.getLast?_eq_head?_reverse]
  cases (trimEnd u).reverse with
  | nil => simp
  | cons c r => simp

/-! ## The places of an operator -/

/-- A symbol stands in a text as an operator: it is not part of another token, and a plus or minus
    is not a sign. -/
structure IsSymbolAt (op : String) (s : List Char) (i : Nat) : Prop where
  spelled : op.toList <+: s.drop i
  whole : op.length = 1 → ¬ IsPartOfToken s i
  binary : op = "+" ∨ op = "-" → ¬ IsSign (s.take i) ∧ ¬ IsExponentSign (s.take i)

/-- **The places of an operator**: outside quoted strings, and as a whole token. -/
structure IsOperatorAt (op : String) (s : List Char) (i : Nat) : Prop where
  unquoted : inQuotes s i = false
  token : if isWordOperator op then IsWordAt op s i else IsSymbolAt op s i

/-- **No symbol overlaps itself**, so nothing is missed behind a symbol that is no token. -/
theorem not_prefix_drop_of_prefix {op : String} (hop : op ∈ binaryOperators)
    (hword : isWordOperator op = false) {s : List Char} (h : op.toList <+: s) {j : Nat} (hpos : 0 < j)
    (hlt : j < op.length) : ¬ op.toList <+: s.drop j := by
  rw [← String.length_toList] at hlt
  simp only [binaryOperators, List.mem_cons, List.not_mem_nil, or_false] at hop
  -- only a symbol of two characters has a place inside, and its characters differ
  rcases hop with rfl | rfl | rfl | rfl | rfl | rfl | rfl | rfl | rfl | rfl | rfl | rfl | rfl |
    rfl | rfl
  all_goals first
    | exact absurd hword (by decide)
    | exact absurd (Nat.lt_of_lt_of_le hlt (by decide)) (Nat.not_lt.mpr hpos)
    | obtain rfl : j = 1 := Nat.le_antisymm (Nat.le_of_lt_succ hlt) hpos
      obtain ⟨rest, rfl⟩ := h
      simp

theorem findSymbolFrom?_eq_find? {op : String} (hop : op ∈ binaryOperators)
    (hword : isWordOperator op = false) {skip : Nat} (quote : Option Char) (before : List Char)
    {s : List Char} (hskip : ∀ j < skip, ¬ op.toList <+: s.drop j) :
    findSymbolFrom? op skip quote before s
      = (List.range s.length).find? fun i =>
          op.toList.isPrefixOf (s.drop i) && ((s.take i).foldl Nesting.stepQuote quote).isNone &&
            isSymbolToken op ((s.take i).reverse ++ before) ((s.drop i).drop op.length) := by
  induction s generalizing skip quote before with
  | nil => rfl
  | cons c r ih =>
      have hstands : (decide (skip = 0) && op.toList.isPrefixOf (c :: r))
          = op.toList.isPrefixOf (c :: r) := by
        cases skip with
        | zero => exact Bool.true_and _
        | succ n =>
            have hnot : op.toList.isPrefixOf (c :: r) = false := by
              rw [Bool.eq_false_iff, Ne, List.isPrefixOf_iff_prefix]
              exact hskip 0 (Nat.succ_pos n)
            rw [hnot, Bool.and_false]
      have hrest : ∀ j < (if op.toList.isPrefixOf (c :: r) then op.length - 1 else skip - 1),
          ¬ op.toList <+: r.drop j := by
        intro j hj
        by_cases hprefix : op.toList.isPrefixOf (c :: r) = true
        · rw [if_pos hprefix] at hj
          exact not_prefix_drop_of_prefix hop hword (List.isPrefixOf_iff_prefix.mp hprefix)
            (Nat.succ_pos j) (by omega)
        · rw [if_neg hprefix] at hj
          exact hskip (j + 1) (by omega)
      rw [findSymbolFrom?, hstands, ih _ _ hrest, List.length_cons, find?_range_succ]
      congr 3
      funext i
      rw [List.take_succ_cons, List.drop_succ_cons, List.foldl_cons, List.reverse_cons,
        List.append_assoc]
      rfl

/-- No operator of two characters is glued. -/
theorem isGlued_of_length {op : String} (h : op.length ≠ 1) (prev next : Option Char) :
    isGlued op prev next = false := by
  have hne : ∀ t : String, t.length = 1 → op ≠ t := by
    rintro t ht rfl
    exact h ht
  rw [isGlued, if_neg (hne _ rfl), if_neg (hne _ rfl), if_neg (hne _ rfl), if_neg (hne _ rfl)]

theorem isSymbolToken_iff {op : String} (hop : op ∈ binaryOperators) {u v : List Char} :
    isSymbolToken op u.reverse v = true ↔
      (op.length = 1 → ¬ IsPartOfToken (u ++ (op.toList ++ v)) u.length) ∧
        (op = "+" ∨ op = "-" → ¬ IsSign u ∧ ¬ IsExponentSign u) := by
  have hglued : isGlued op u.getLast? v.head? = false ↔
      (op.length = 1 → ¬ IsPartOfToken (u ++ (op.toList ++ v)) u.length) := by
    by_cases hlength : op.length = 1
    · obtain ⟨c, hc⟩ := List.length_eq_one_iff.mp (String.length_toList.trans hlength)
      rw [Bool.eq_false_iff, Ne, isGlued_iff hop hc, hc]
      exact ⟨fun h _ => h, fun h => h hlength⟩
    · rw [isGlued_of_length hlength]
      exact ⟨fun _ h => absurd h hlength, fun _ => rfl⟩
  have hsign : ((decide (op = "-") || decide (op = "+")) && isSignAfter u.reverse) = false ↔
      (op = "+" ∨ op = "-" → ¬ IsSign u ∧ ¬ IsExponentSign u) := by
    rw [Bool.and_eq_false_imp, Bool.or_eq_true, decide_eq_true_eq, decide_eq_true_eq,
      Bool.eq_false_iff, Ne, isSignAfter_reverse_iff, not_or, or_comm]
  rw [isSymbolToken, List.head?_reverse, Bool.and_eq_true, Bool.not_eq_true', Bool.not_eq_true',
    hglued, hsign]

theorem ne_nil_of_mem_binaryOperators {op : String} (h : op ∈ binaryOperators) :
    op.toList ≠ [] := by
  have hall : (binaryOperators.all fun op => !op.toList.isEmpty) = true := by decide
  exact List.isEmpty_eq_false_iff.mp (Bool.not_eq_true' _ ▸ List.all_eq_true.mp hall op h)

/-- What the search asks for at a place. -/
theorem isSymbolAt_iff {op : String} (hop : op ∈ binaryOperators) {s : List Char} {i : Nat} :
    IsSymbolAt op s i ↔ i < s.length ∧ op.toList <+: s.drop i ∧
      isSymbolToken op (s.take i).reverse ((s.drop i).drop op.length) = true := by
  constructor
  · rintro ⟨hspelled, hwhole, hbinary⟩
    have hlt : i < s.length := by
      by_contra hle
      rw [List.drop_eq_nil_of_le (Nat.le_of_not_lt hle), List.prefix_nil] at hspelled
      exact ne_nil_of_mem_binaryOperators hop hspelled
    obtain ⟨v, hv⟩ := hspelled
    have hs : s.take i ++ (op.toList ++ v) = s := by rw [hv, List.take_append_drop]
    have hi : (s.take i).length = i := List.length_take_of_le (Nat.le_of_lt hlt)
    refine ⟨hlt, ⟨v, hv⟩, ?_⟩
    rw [← hv, ← String.length_toList, List.drop_left, isSymbolToken_iff hop, hs, hi]
    exact ⟨hwhole, hbinary⟩
  · rintro ⟨hlt, ⟨v, hv⟩, htoken⟩
    have hs : s.take i ++ (op.toList ++ v) = s := by rw [hv, List.take_append_drop]
    have hi : (s.take i).length = i := List.length_take_of_le (Nat.le_of_lt hlt)
    rw [← hv, ← String.length_toList, List.drop_left, isSymbolToken_iff hop, hs, hi] at htoken
    exact ⟨⟨v, hv⟩, htoken.1, htoken.2⟩

/-- **The search for a symbol** finds its leftmost place. -/
theorem isLeftmost_findSymbol {op : String} (hop : op ∈ binaryOperators)
    (hword : isWordOperator op = false) (s : List Char) :
    IsLeftmost {i | IsOperatorAt op s i} (findOperator? op s) := by
  rw [findOperator?, if_neg (Bool.eq_false_iff.mp hword),
    findSymbolFrom?_eq_find? hop hword none [] fun j hj => absurd hj (Nat.not_lt_zero j)]
  refine isLeftmost_find?_range ?_
  intro i
  have hquote : ((s.take i).foldl Nesting.stepQuote none).isNone = true ↔ inQuotes s i = false := by
    rw [inQuotes, Option.isNone_iff_eq_none, Option.isSome_eq_false_iff, Option.isNone_iff_eq_none]
  rw [List.append_nil, Bool.and_eq_true, Bool.and_eq_true, hquote, List.isPrefixOf_iff_prefix]
  constructor
  · rintro ⟨hunquoted, htoken⟩
    rw [if_neg (Bool.eq_false_iff.mp hword)] at htoken
    obtain ⟨hlt, hspelled, hfound⟩ := (isSymbolAt_iff hop).mp htoken
    exact ⟨hlt, ⟨hspelled, hunquoted⟩, hfound⟩
  · rintro ⟨hlt, ⟨hspelled, hunquoted⟩, hfound⟩
    refine ⟨hunquoted, ?_⟩
    rw [if_neg (Bool.eq_false_iff.mp hword)]
    exact (isSymbolAt_iff hop).mpr ⟨hlt, hspelled, hfound⟩

/-! ## The leftmost operator -/

/-- The byte offset that the search for an operator answers. -/
def operatorOffset? (op : String) (s : List Char) : Option Nat :=
  (findOperator? op s).map (byteOffset s)

/-- The byte offsets at which an operator stands. -/
def operatorOffsets (op : String) (s : List Char) : Set Nat :=
  byteOffset s '' {i | IsOperatorAt op s i}

/-- An operator is hidden by a string in which its word stands first. -/
structure IsHidden (op : String) (s : List Char) : Prop where
  word : isWordOperator op = true
  quoted : ∃ i, IsLeast {i | IsWordAt op s i} i ∧ inQuotes s i = true
  behind : ∃ i, IsOperatorAt op s i

/-- The places of a word operator. -/
theorem isOperatorAt_word_iff {op : String} (hword : isWordOperator op = true) {s : List Char}
    {i : Nat} : IsOperatorAt op s i ↔ inQuotes s i = false ∧ IsWordAt op s i := by
  constructor
  · rintro ⟨hunquoted, htoken⟩
    rw [if_pos hword] at htoken
    exact ⟨hunquoted, htoken⟩
  · rintro ⟨hunquoted, htoken⟩
    refine ⟨hunquoted, ?_⟩
    rw [if_pos hword]
    exact htoken

/-- **The search for a word operator** finds its leftmost place, unless that is hidden. -/
theorem findOperator?_word {op : String} (hop : op ∈ binaryOperators)
    (hword : isWordOperator op = true) (s : List Char) :
    (IsHidden op s ∧ findOperator? op s = none) ∨
      (¬ IsHidden op s ∧ IsLeftmost {i | IsOperatorAt op s i} (findOperator? op s)) := by
  have hfirst := isLeftmost_findWord? (ne_nil_of_mem_binaryOperators hop) s
  rw [findOperator?, if_pos hword]
  cases hfind : findWord? op s with
  | none =>
      rw [hfind] at hfirst
      have hnone : ∀ i, ¬ IsWordAt op s i := fun i hi =>
        Set.eq_empty_iff_forall_notMem.mp hfirst i hi
      refine Or.inr ⟨?_, ?_⟩
      · rintro ⟨-, ⟨i, hi, -⟩, -⟩
        exact hnone i hi.1
      · refine Set.eq_empty_iff_forall_notMem.mpr ?_
        intro i hi
        exact hnone i ((isOperatorAt_word_iff hword).mp hi).2
  | some i =>
      rw [hfind] at hfirst
      by_cases hquoted : inQuotes s i = true
      · rw [Option.filter_some, if_neg (by simp [hquoted])]
        by_cases hbehind : ∃ j, IsOperatorAt op s j
        · exact Or.inl ⟨⟨hword, ⟨i, hfirst, hquoted⟩, hbehind⟩, rfl⟩
        · refine Or.inr ⟨fun h => hbehind h.behind, ?_⟩
          exact Set.eq_empty_iff_forall_notMem.mpr fun j hj => hbehind ⟨j, hj⟩
      · rw [Bool.not_eq_true] at hquoted
        rw [Option.filter_some, if_pos (by simp [hquoted])]
        refine Or.inr ⟨?_, ?_, ?_⟩
        · rintro ⟨-, ⟨j, hj, hj'⟩, -⟩
          rw [hj.unique hfirst, hquoted] at hj'
          cases hj'
        · exact (isOperatorAt_word_iff hword).mpr ⟨hquoted, hfirst.1⟩
        · intro j hj
          exact hfirst.2 ((isOperatorAt_word_iff hword).mp hj).2

/-- **Which searches find the leftmost operator**: all for a symbol, and for a word those where no
    string hides it. A hidden operator is not found at all. -/
theorem isLeftmost_operatorOffset?_iff {op : String} (hop : op ∈ binaryOperators) (s : List Char) :
    (IsLeftmost (operatorOffsets op s) (operatorOffset? op s) ↔ ¬ IsHidden op s) ∧
      (IsHidden op s → operatorOffset? op s = none) := by
  have hfound : (IsHidden op s ∧ findOperator? op s = none) ∨
      (¬ IsHidden op s ∧ IsLeftmost {i | IsOperatorAt op s i} (findOperator? op s)) := by
    cases hword : isWordOperator op with
    | true => exact findOperator?_word hop hword s
    | false =>
        refine Or.inr ⟨?_, isLeftmost_findSymbol hop hword s⟩
        intro hhidden
        rw [hhidden.word] at hword
        cases hword
  rcases hfound with ⟨hhidden, hnone⟩ | ⟨hplain, hleftmost⟩
  · have hoffset : operatorOffset? op s = none := by
      rw [operatorOffset?, hnone]
      rfl
    refine ⟨⟨?_, fun h => absurd hhidden h⟩, fun _ => hoffset⟩
    intro hempty
    rw [hoffset] at hempty
    obtain ⟨i, hi⟩ := hhidden.behind
    exact absurd (Set.mem_image_of_mem _ hi) (Set.eq_empty_iff_forall_notMem.mp hempty _)
  · exact ⟨⟨fun _ => hplain, fun _ => hleftmost.byteOffset s⟩, fun h => absurd h hplain⟩

/-- A minus behind a product and in an exponent, and the one that is an operator. -/
theorem isLeftmost_operatorOffset?_signs :
    IsLeast (operatorOffsets "-" "a * -b + 1.5e-3 - c".toList) 16 := by
  have hop : "-" ∈ binaryOperators := by decide
  have hplain : ¬ IsHidden "-" "a * -b + 1.5e-3 - c".toList := fun h => absurd h.word (by decide)
  have hleftmost :=
    (isLeftmost_operatorOffset?_iff hop "a * -b + 1.5e-3 - c".toList).1.mpr hplain
  have hoffset : operatorOffset? "-" "a * -b + 1.5e-3 - c".toList = some 16 := by decide +kernel
  rwa [hoffset] at hleftmost

/-- **A string can hide an operator**: the `AND` behind it is not found. -/
theorem exists_hidden_operator :
    operatorOffset? "AND" "s = 'x AND y' AND b".toList = none ∧
      14 ∈ operatorOffsets "AND" "s = 'x AND y' AND b".toList ∧
      ¬ IsLeftmost (operatorOffsets "AND" "s = 'x AND y' AND b".toList)
        (operatorOffset? "AND" "s = 'x AND y' AND b".toList) := by
  have hnone : operatorOffset? "AND" "s = 'x AND y' AND b".toList = none := by decide +kernel
  have hmem : 14 ∈ operatorOffsets "AND" "s = 'x AND y' AND b".toList := by
    refine ⟨14, (isOperatorAt_word_iff (by decide)).mpr ⟨by decide, ?_⟩, by decide⟩
    constructor
    all_goals decide
  refine ⟨hnone, hmem, ?_⟩
  rw [hnone]
  intro hempty
  exact Set.eq_empty_iff_forall_notMem.mp hempty 14 hmem

end Expression

end StLint

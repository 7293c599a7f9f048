import StLint.Proofs.Text.Blank
import StLint.Text.Nesting

/-!
# Quotes and brackets

A scanner that looks for a place at top level carries the open quote and the depth along. A text
without quotes whose brackets are balanced **leaves that state as it was**, so such texts can be put
next to each other and a cut behind them is still found.

* `isBalanced` — every bracket of a text is closed in it, round and square ones each by themselves.
* `IsNeutral` — the state after a text is the state before it; balanced texts are neutral.
* `splitTopLevel_of_not_mem`, `splitTopLevel_concat` — the parts of a line with no or one separator.
* `cutTopLevel?_append` — the cut at the first place at top level.
* `closingParen?_append` — the bracket that closes a call.
-/

namespace StLint.Text

/-! ## Balanced texts -/

/-- Every bracket of one form is closed in the text, where `depth` more are open before it. -/
def balancedFrom (opening closing : Char) : Nat → List Char → Bool
  | depth, [] => depth = 0
  | depth, c :: r =>
    if c = opening then balancedFrom opening closing (depth + 1) r
    else if c = closing then 0 < depth && balancedFrom opening closing (depth - 1) r
    else balancedFrom opening closing depth r

/-- The round brackets of a text are balanced, and so are the square ones. -/
def isBalanced (s : List Char) : Bool := balancedFrom '(' ')' 0 s && balancedFrom '[' ']' 0 s

/-- In a balanced text as many brackets are closed as opened. -/
theorem count_of_balancedFrom {opening closing : Char} (hne : opening ≠ closing) {depth : Nat}
    {s : List Char} (h : balancedFrom opening closing depth s = true) :
    depth + s.count opening = s.count closing := by
  induction s generalizing depth with
  | nil => simpa [balancedFrom] using h
  | cons c r ih =>
      rw [balancedFrom] at h
      by_cases ho : c = opening
      · rw [if_pos ho] at h
        have := ih h
        rw [ho, List.count_cons_self, List.count_cons_of_ne hne]
        omega
      · rw [if_neg ho] at h
        rw [List.count_cons_of_ne ho]
        by_cases hc : c = closing
        · rw [if_pos hc, Bool.and_eq_true, decide_eq_true_eq] at h
          have := ih h.2
          have := h.1
          rw [hc, List.count_cons_self]
          omega
        · rw [if_neg hc] at h
          rw [List.count_cons_of_ne hc]
          exact ih h

/-! ## Neutral texts -/

namespace Nesting

theorem after_append (n : Nesting) (s t : List Char) : n.after (s ++ t) = (n.after s).after t :=
  List.foldl_append

/-- Outside strings a text without quotes changes the depth by its brackets. -/
theorem after_of_no_quotes {s : List Char} (h : ∀ c ∈ s, isQuote c = false) (d : Int) :
    after ⟨none, d⟩ s
      = ⟨none, d + s.count '(' + s.count '[' - s.count ')' - s.count ']'⟩ := by
  induction s generalizing d with
  | nil => simp [after]
  | cons c r ih =>
      have hr := ih fun e he => h e (List.mem_cons_of_mem c he)
      have hc := h c (List.mem_cons_self ..)
      have hstep : after ⟨none, d⟩ (c :: r)
          = after ⟨none, if isOpening c then d + 1 else if isClosing c then d - 1 else d⟩ r := by
        show after (step ⟨none, d⟩ c) r = _
        simp [step, stepQuote, hc]
      rw [hstep, hr]
      by_cases h1 : c = '('
      · subst h1
        simp [isOpening]
        omega
      by_cases h2 : c = '['
      · subst h2
        simp [isOpening]
        omega
      by_cases h3 : c = ')'
      · subst h3
        simp [isOpening, isClosing]
        omega
      by_cases h4 : c = ']'
      · subst h4
        simp [isOpening, isClosing]
        omega
      simp [isOpening, isClosing, h1, h2, h3, h4]

end Nesting

/-- Outside strings the state after a text is the state before it. -/
def IsNeutral (s : List Char) : Prop := ∀ d : Int, Nesting.after ⟨none, d⟩ s = ⟨none, d⟩

theorem IsNeutral.append {s t : List Char} (hs : IsNeutral s) (ht : IsNeutral t) :
    IsNeutral (s ++ t) := by
  intro d
  rw [Nesting.after_append, hs, ht]

/-- **A balanced text without quotes is neutral.** -/
theorem isNeutral_of_isBalanced {s : List Char} (hq : ∀ c ∈ s, isQuote c = false)
    (hb : isBalanced s = true) : IsNeutral s := by
  intro d
  rw [isBalanced, Bool.and_eq_true] at hb
  -- the depth counts both forms of brackets together, and each is balanced by itself
  have hround := count_of_balancedFrom (by decide) hb.1
  have hsquare := count_of_balancedFrom (by decide) hb.2
  rw [Nesting.after_of_no_quotes hq, Nesting.mk.injEq]
  refine ⟨rfl, ?_⟩
  omega

/-- A text between round brackets is neutral if it is. -/
theorem IsNeutral.parens {s : List Char} (hs : IsNeutral s) : IsNeutral ('(' :: s ++ [')']) := by
  intro d
  rw [Nesting.after_append]
  show Nesting.after (Nesting.after (Nesting.step ⟨none, d⟩ '(') s) [')'] = _
  rw [show Nesting.step ⟨none, d⟩ '(' = ⟨none, d + 1⟩ from rfl, hs]
  show (⟨none, d + 1 - 1⟩ : Nesting) = _
  rw [Int.add_sub_cancel]

/-- A character that opens and closes nothing. -/
def isFlat (c : Char) : Bool := !isQuote c && !isOpening c && !isClosing c

/-- A class of characters without quotes and brackets is flat. -/
theorem isFlat_of_class {p : Char → Bool} (hp : (['\'', '"', '(', ')', '[', ']'].any p) = false)
    {c : Char} (h : p c = true) : isFlat c = true := by
  cases hc : isFlat c with
  | true => rfl
  | false =>
      rw [List.any_eq_false] at hp
      simp only [isFlat, isQuote, isOpening, isClosing, Bool.and_eq_false_iff, Bool.not_eq_false',
        Bool.or_eq_true, decide_eq_true_eq] at hc
      rcases hc with ((rfl | rfl) | (rfl | rfl)) | (rfl | rfl) <;> exact absurd h (hp _ (by decide))

theorem isFlat_of_wordChar {c : Char} (h : isWordChar c = true) : isFlat c = true :=
  isFlat_of_class (by decide) h

theorem step_of_isFlat {c : Char} (h : isFlat c = true) (d : Int) :
    Nesting.step ⟨none, d⟩ c = ⟨none, d⟩ := by
  simp only [isFlat, Bool.and_eq_true, Bool.not_eq_true'] at h
  simp [Nesting.step, Nesting.stepQuote, h.1.1, h.1.2, h.2]

theorem isNeutral_of_isFlat {s : List Char} (h : ∀ c ∈ s, isFlat c = true) : IsNeutral s := by
  intro d
  induction s with
  | nil => rfl
  | cons c r ih =>
      show Nesting.after (Nesting.step ⟨none, d⟩ c) r = _
      rw [step_of_isFlat (h c (List.mem_cons_self ..))]
      exact ih fun e he => h e (List.mem_cons_of_mem c he)

theorem isFree_of_isFlat {c : Char} (h : isFlat c = true) :
    Nesting.isFree ⟨none, 0⟩ c = true := by
  simp only [isFlat, Bool.and_eq_true, Bool.not_eq_true'] at h
  simp [Nesting.isFree, h.1.1, h.1.2, h.2]

/-! ## Cuts at top level -/

/-- A text without the separator is one piece. -/
theorem topLevelPieces_of_not_mem {sep : Char} {s : List Char} (h : sep ∉ s) (n : Nesting) :
    topLevelPieces sep n s = [s] := by
  induction s generalizing n with
  | nil => rfl
  | cons c r ih =>
      have hc : c ≠ sep := fun hc => h (hc ▸ List.mem_cons_self ..)
      rw [topLevelPieces, if_neg (by simp [hc]), ih fun hr => h (List.mem_cons_of_mem c hr)]

/-- A separator at top level at the end of a text leaves an empty piece behind it. -/
theorem topLevelPieces_concat {sep : Char} {s : List Char} (h : sep ∉ s) (n : Nesting)
    (hfree : (n.after s).isFree sep = true) :
    topLevelPieces sep n (s ++ [sep]) = [s, []] := by
  induction s generalizing n with
  | nil =>
      have hsep : n.isFree sep = true := hfree
      rw [List.nil_append, topLevelPieces, if_pos (by simp [hsep])]
      rfl
  | cons c r ih =>
      have hc : c ≠ sep := fun hc => h (hc ▸ List.mem_cons_self ..)
      rw [List.cons_append, topLevelPieces, if_neg (by simp [hc]),
        ih (fun hr => h (List.mem_cons_of_mem c hr)) (n.step c) hfree]

/-- **A line without the separator is one part.** -/
theorem splitTopLevel_of_not_mem {sep : Char} {s : List Char} (h : sep ∉ s) (hs : trim s ≠ []) :
    (splitTopLevel sep s).filter (!·.isEmpty) = [trim s] := by
  have hblank : ¬ allBlank s = true := fun hb => hs (trim_eq_nil_iff.mpr (allBlank_iff.mp hb))
  rw [splitTopLevel, if_neg hblank, topLevelPieces_of_not_mem h, List.map_singleton,
    List.filter_cons_of_pos (by simpa using hs), List.filter_nil]

/-- **A line that ends with the separator is one part.** -/
theorem splitTopLevel_concat {sep : Char} {s : List Char} (h : sep ∉ s) (hn : IsNeutral s)
    (hsep : isFlat sep = true) (hs : trim s ≠ []) :
    (splitTopLevel sep (s ++ [sep])).filter (!·.isEmpty) = [trim s] := by
  have hblank : ¬ allBlank (s ++ [sep]) = true := by
    intro hb
    refine hs (trim_eq_nil_iff.mpr ?_)
    intro c hc
    exact allBlank_iff.mp hb c (List.mem_append_left _ hc)
  have hfree : (Nesting.start.after s).isFree sep = true := by
    rw [show Nesting.start = ⟨none, 0⟩ from rfl, hn]
    exact isFree_of_isFlat hsep
  rw [splitTopLevel, if_neg hblank, topLevelPieces_concat h .start hfree, List.map_cons,
    List.map_singleton, List.filter_cons_of_pos (by simpa using hs),
    List.filter_cons_of_neg (by decide), List.filter_nil]

/-- **A phrase is looked for behind** a text without its first character, in the state that the text
    leaves. -/
theorem findTopLevelFrom?_append_of_not_mem {c : Char} {phrase s : List Char} (h : c ∉ s)
    (n : Nesting) (r : List Char) :
    findTopLevelFrom? (c :: phrase) n (s ++ r)
      = (findTopLevelFrom? (c :: phrase) (n.after s) r).map (s.length + ·) := by
  induction s generalizing n with
  | nil => simp [Nesting.after]
  | cons d s ih =>
      have hd : c ≠ d := fun hc => h (hc ▸ List.mem_cons_self ..)
      have hnext := ih (fun hs => h (List.mem_cons_of_mem d hs)) (n.step d)
      rw [List.cons_append, findTopLevelFrom?, if_neg (by simp [hd]), hnext, Option.map_map]
      refine Option.map_congr ?_
      intro i _
      show s.length + i + 1 = s.length + 1 + i
      omega

/-- The same behind the rest of a string: its quote is the only character that matters. -/
theorem findTopLevelFrom?_append_of_quoted {q : Char} {phrase s : List Char} (h : q ∉ s) (d : Int)
    (r : List Char) :
    findTopLevelFrom? phrase ⟨some q, d⟩ (s ++ q :: r)
      = (findTopLevelFrom? phrase ⟨none, d⟩ r).map (s.length + 1 + ·) := by
  induction s with
  | nil =>
      rw [List.nil_append, findTopLevelFrom?, if_neg (by simp [Nesting.isFree])]
      simp [Nesting.step, Nesting.stepQuote, Nat.add_comm]
  | cons c s ih =>
      have hc : c ≠ q := fun hc => h (hc ▸ List.mem_cons_self ..)
      have hstep : Nesting.step ⟨some q, d⟩ c = ⟨some q, d⟩ := by
        simp [Nesting.step, Nesting.stepQuote, hc]
      rw [List.cons_append, findTopLevelFrom?, if_neg (by simp [Nesting.isFree]), hstep,
        ih fun hs => h (List.mem_cons_of_mem c hs), Option.map_map]
      refine Option.map_congr ?_
      intro i _
      show s.length + 1 + i + 1 = s.length + 1 + 1 + i
      omega

/-- Without its first character a phrase is not found. -/
theorem findTopLevelFrom?_of_not_mem {c : Char} {phrase s : List Char} (h : c ∉ s) (n : Nesting) :
    findTopLevelFrom? (c :: phrase) n s = none := by
  have hfind := @findTopLevelFrom?_append_of_not_mem c phrase s h n []
  rw [List.append_nil] at hfind
  rw [hfind]
  rfl

/-- **The first place at top level** behind a flat text. -/
theorem findTopLevelFrom?_append {c : Char} {phrase s r : List Char} (hs : ∀ d ∈ s, isFlat d = true)
    (hc : isFlat c = true) (hmem : c ∉ s) :
    findTopLevelFrom? (c :: phrase) ⟨none, 0⟩ (s ++ c :: phrase ++ r) = some s.length := by
  rw [List.append_assoc, findTopLevelFrom?_append_of_not_mem hmem, isNeutral_of_isFlat hs,
    List.cons_append, findTopLevelFrom?, if_pos]
  · rfl
  · rw [isFree_of_isFlat hc, Bool.true_and, List.isPrefixOf_iff_prefix]
    exact List.prefix_append (c :: phrase) r

/-- A text is cut at the first place at top level. -/
theorem cutTopLevel?_append {phrase : String} {c : Char} {p s : List Char}
    (hphrase : phrase.toList = c :: p) (hs : ∀ d ∈ s, isFlat d = true) (hc : isFlat c = true)
    (hmem : c ∉ s) (r : List Char) : cutTopLevel? phrase (s ++ (phrase.toList ++ r)) = some (s, r) := by
  have hfind : findTopLevel? phrase (s ++ (phrase.toList ++ r)) = some s.length := by
    rw [findTopLevel?, hphrase, ← List.append_assoc]
    exact findTopLevelFrom?_append hs hc hmem
  have hdrop : (s ++ (phrase.toList ++ r)).drop (s.length + phrase.length) = r := by
    rw [← List.append_assoc, ← String.length_toList, ← List.length_append, List.drop_left]
  rw [cutTopLevel?, hfind, Option.map_some, List.take_left, hdrop]

/-- **The bracket that closes a call** is the one behind its balanced arguments. -/
theorem closingParen?_append {s : List Char} (hq : ∀ c ∈ s, isQuote c = false) {depth : Nat}
    (hb : balancedFrom '(' ')' depth s = true) :
    closingParen? none depth (s ++ [')']) = some (s, []) := by
  induction s generalizing depth with
  | nil =>
      have hdepth : depth = 0 := by simpa [balancedFrom] using hb
      subst hdepth
      rfl
  | cons c r ih =>
      have hr := fun e he => hq e (List.mem_cons_of_mem c he)
      have hc := hq c (List.mem_cons_self ..)
      rw [balancedFrom] at hb
      rw [List.cons_append, closingParen?.eq_def]
      dsimp only
      by_cases ho : c = '('
      · rw [if_pos ho] at hb
        subst ho
        simp [Nesting.stepQuote, hc, ih hr hb]
      · rw [if_neg ho] at hb
        by_cases hcl : c = ')'
        · rw [if_pos hcl, Bool.and_eq_true, decide_eq_true_eq] at hb
          subst hcl
          cases depth with
          | zero => exact absurd hb.1 (Nat.lt_irrefl 0)
          | succ d =>
              rw [Nat.add_sub_cancel] at hb
              simp [ih hr hb.2]
        · rw [if_neg hcl] at hb
          simp [Nesting.stepQuote, hc, ho, hcl, ih hr hb]

end StLint.Text

import Mathlib.Data.List.Infix
import StLint.Proofs.Text.Cut

/-!
# The parts of a text at top level

A text is cut at those separators that stand **outside strings and with no bracket open**. The state that
a scan carries along is what counting says: its depth is the number of the opening brackets outside
strings, less the number of the closing ones. So the parts can be told from the text alone, and the search
for the first separator finds the first cut.

* `openQuote`, `openings`, `closings` — what stands before a place; `Nesting.after_eq`.
* `IsAtTopLevel` — a place at top level, by what stands before it.
* `Split` — the pieces of a text, one cut after the other; `split_topLevelPieces`.
* `splitTopLevel_exact` — the parts, the first cut, and that no cut is made inside brackets where none is
  closed before it is opened.
-/

namespace StLint.Text

/-! ## What stands before a place -/

/-- The quote that is open behind a text, where `quote` is open before it. -/
def openQuote (quote : Option Char) (s : List Char) : Option Char := s.foldl Nesting.stepQuote quote

/-- The characters of a text outside strings, where `quote` is open before it. -/
def outsideQuotes : Option Char → List Char → List Char
  | _, [] => []
  | none, c :: r => if isQuote c then outsideQuotes (some c) r else c :: outsideQuotes none r
  | some q, c :: r => outsideQuotes (if c = q then none else some q) r

/-- The number of opening brackets outside strings. -/
def openings (quote : Option Char) (s : List Char) : Nat := (outsideQuotes quote s).countP isOpening

/-- The number of closing brackets outside strings. -/
def closings (quote : Option Char) (s : List Char) : Nat := (outsideQuotes quote s).countP isClosing

theorem outsideQuotes_append (quote : Option Char) (s t : List Char) :
    outsideQuotes quote (s ++ t) = outsideQuotes quote s ++ outsideQuotes (openQuote quote s) t := by
  induction s generalizing quote with
  | nil => rfl
  | cons c r ih =>
      have hnext : openQuote quote (c :: r) = openQuote (Nesting.stepQuote quote c) r := rfl
      rw [List.cons_append, hnext]
      cases quote with
      | some q =>
          rw [outsideQuotes, outsideQuotes, ih]
          rfl
      | none =>
          rw [outsideQuotes, outsideQuotes, Nesting.stepQuote]
          by_cases hc : isQuote c = true
          · rw [if_pos hc, if_pos hc, if_pos hc, ih]
          · rw [if_neg hc, if_neg hc, if_neg hc, ih, List.cons_append]

theorem openings_append (quote : Option Char) (s t : List Char) :
    openings quote (s ++ t) = openings quote s + openings (openQuote quote s) t := by
  rw [openings, outsideQuotes_append, List.countP_append, openings, openings]

theorem closings_append (quote : Option Char) (s t : List Char) :
    closings quote (s ++ t) = closings quote s + closings (openQuote quote s) t := by
  rw [closings, outsideQuotes_append, List.countP_append, closings, closings]

/-- A bracket opens or closes, and not both. -/
theorem not_isClosing_of_isOpening {c : Char} (h : isOpening c = true) : isClosing c = false := by
  rw [isOpening, Bool.or_eq_true, decide_eq_true_eq, decide_eq_true_eq] at h
  rcases h with rfl | rfl <;> rfl

theorem not_isQuote_of_isOpening {c : Char} (h : isOpening c = true) : isQuote c = false := by
  rw [isOpening, Bool.or_eq_true, decide_eq_true_eq, decide_eq_true_eq] at h
  rcases h with rfl | rfl <;> rfl

theorem not_isQuote_of_isClosing {c : Char} (h : isClosing c = true) : isQuote c = false := by
  rw [isClosing, Bool.or_eq_true, decide_eq_true_eq, decide_eq_true_eq] at h
  rcases h with rfl | rfl <;> rfl

/-- An opening bracket outside strings is counted. -/
theorem openings_opening {c : Char} (h : isOpening c = true) : openings none [c] = 1 := by
  rw [openings, outsideQuotes, if_neg (by rw [not_isQuote_of_isOpening h]; exact Bool.false_ne_true),
    outsideQuotes, List.countP_singleton, if_pos h]

theorem closings_opening {c : Char} (h : isOpening c = true) : closings none [c] = 0 := by
  rw [closings, outsideQuotes, if_neg (by rw [not_isQuote_of_isOpening h]; exact Bool.false_ne_true),
    outsideQuotes, List.countP_singleton, not_isClosing_of_isOpening h]
  rfl

/-- One character changes the depth by what it counts for. -/
theorem Nesting.depth_step (n : Nesting) (c : Char) :
    (n.step c).depth = n.depth + openings n.quote [c] - closings n.quote [c] := by
  obtain ⟨quote, depth⟩ := n
  cases quote with
  | some q => simp [step, openings, closings, outsideQuotes]
  | none =>
      by_cases ho : isOpening c = true
      · rw [openings_opening ho, closings_opening ho]
        simp [step, ho]
      · by_cases hc : isClosing c = true
        · simp [step, openings, closings, outsideQuotes, ho, hc, not_isQuote_of_isClosing hc]
        · by_cases hq : isQuote c = true <;> simp [step, openings, closings, outsideQuotes, ho, hc, hq]

/-- **The state of a scan is what counting says.** -/
theorem Nesting.after_eq (n : Nesting) (s : List Char) :
    n.after s = ⟨openQuote n.quote s, n.depth + openings n.quote s - closings n.quote s⟩ := by
  induction s generalizing n with
  | nil => simp [after, openQuote, openings, closings, outsideQuotes]
  | cons c r ih =>
      have hopen := openings_append n.quote [c] r
      have hclose := closings_append n.quote [c] r
      have hnext : n.after (c :: r) = (n.step c).after r := rfl
      rw [List.singleton_append] at hopen hclose
      rw [hnext, ih, Nesting.mk.injEq]
      refine ⟨rfl, ?_⟩
      have hstep : (n.step c).quote = openQuote n.quote [c] := rfl
      rw [n.depth_step c, hstep]
      omega

/-- A place is at top level if no string is open there, and at most as many brackets have been opened
    outside strings as closed. -/
def IsAtTopLevel (before : List Char) : Prop :=
  openQuote none before = none ∧ openings none before ≤ closings none before

/-- **A flat separator is cut at** exactly if it stands at top level. -/
theorem isFree_after_start_iff {sep : Char} (hsep : isFlat sep = true) (s : List Char) :
    (Nesting.start.after s).isFree sep = true ↔ IsAtTopLevel s := by
  rw [isFlat, Bool.and_eq_true, Bool.and_eq_true] at hsep
  rw [Nesting.after_eq, IsAtTopLevel, Nesting.isFree, hsep.1.1, hsep.1.2, hsep.2]
  simp only [Nesting.start, Bool.and_true, Bool.and_eq_true, Option.isNone_iff_eq_none]
  refine and_congr_right fun _ => ⟨fun h => ?_, fun h => decide_eq_true ?_⟩
  · have hdepth := of_decide_eq_true h
    omega
  · omega

/-! ## One cut after the other -/

/-- Pieces in front of others are joined with them by one more separator. -/
theorem intercalate_append {sep : Char} {left right : List (List Char)} (hleft : left ≠ [])
    (hright : right ≠ []) :
    [sep].intercalate (left ++ right)
      = ([sep].intercalate left ++ [sep]) ++ [sep].intercalate right := by
  induction left with
  | nil => exact absurd rfl hleft
  | cons l left ih =>
      rw [List.cons_append,
        List.intercalate_cons_of_ne_nil (List.append_ne_nil_of_right_ne_nil left hright)]
      cases left with
      | nil => simp
      | cons m left =>
          rw [ih (List.cons_ne_nil m left), List.intercalate_cons_of_ne_nil (List.cons_ne_nil m left)]
          simp

/-- What stands before a cut is the start of the text. -/
theorem intercalate_prefix (sep : Char) (left : List (List Char)) (p q : List Char)
    (right : List (List Char)) :
    [sep].intercalate (left ++ [p]) <+: [sep].intercalate (left ++ p :: q :: right) := by
  have hpieces : left ++ p :: q :: right = (left ++ [p]) ++ q :: right := by simp
  rw [hpieces, intercalate_append (by simp) (List.cons_ne_nil q right), List.append_assoc]
  exact List.prefix_append _ _

/-- No separator of a text is free, where `n` is the state before it. -/
def IsWhole (sep : Char) (n : Nesting) (p : List Char) : Prop :=
  ∀ a b, p = a ++ sep :: b → (n.after a).isFree sep = false

theorem isWhole_nil (sep : Char) (n : Nesting) : IsWhole sep n [] := by
  intro a b h
  exact absurd h.symm (List.append_ne_nil_of_right_ne_nil a (List.cons_ne_nil sep b))

theorem isWhole_cons {sep c : Char} {n : Nesting} {p : List Char} :
    IsWhole sep n (c :: p) ↔ (c = sep → n.isFree sep = false) ∧ IsWhole sep (n.step c) p := by
  constructor
  · intro h
    refine ⟨?_, fun a b hp => h (c :: a) b (by rw [hp, List.cons_append])⟩
    rintro rfl
    exact h [] p rfl
  · rintro ⟨hhead, htail⟩ a b hp
    cases a with
    | nil =>
        obtain ⟨rfl, -⟩ := List.cons.inj hp
        exact hhead rfl
    | cons d a =>
        obtain ⟨rfl, hrest⟩ := List.cons.inj hp
        exact htail a b hrest

/-- The pieces of a text, where `n` is the state before it: each is whole, and each but the last is
    followed by a free separator. -/
inductive Split (sep : Char) : Nesting → List Char → List (List Char) → Prop
  | last {n : Nesting} {p : List Char} : IsWhole sep n p → Split sep n p [p]
  | cut {n : Nesting} {p r : List Char} {ps : List (List Char)} : IsWhole sep n p →
      (n.after p).isFree sep = true → Split sep (n.after (p ++ [sep])) r ps →
        Split sep n (p ++ sep :: r) (p :: ps)

/-- **The scan makes these pieces.** -/
theorem split_topLevelPieces (sep : Char) (n : Nesting) (s : List Char) :
    Split sep n s (topLevelPieces sep n s) := by
  induction s generalizing n with
  | nil => exact .last (isWhole_nil sep n)
  | cons c r ih =>
      rw [topLevelPieces]
      by_cases hfree : (n.isFree c && decide (c = sep)) = true
      · rw [if_pos hfree]
        rw [Bool.and_eq_true, decide_eq_true_eq] at hfree
        obtain ⟨hfree, rfl⟩ := hfree
        exact .cut (p := []) (isWhole_nil c n) hfree (ih (n.step c))
      · rw [if_neg hfree]
        have hhead : c = sep → n.isFree sep = false := by
          rintro rfl
          simpa using hfree
        -- the character goes with the first piece behind it
        have hr := ih (n.step c)
        generalize topLevelPieces sep (n.step c) r = pieces at hr
        cases hr with
        | last hwhole => exact .last (isWhole_cons.mpr ⟨hhead, hwhole⟩)
        | cut hwhole hfree hrest => exact .cut (isWhole_cons.mpr ⟨hhead, hwhole⟩) hfree hrest

/-- In a whole text the separator is not found. -/
theorem IsWhole.findTopLevelFrom?_append {sep : Char} {n : Nesting} {p : List Char}
    (h : IsWhole sep n p) (r : List Char) :
    findTopLevelFrom? [sep] n (p ++ r)
      = (findTopLevelFrom? [sep] (n.after p) r).map (p.length + ·) := by
  induction p generalizing n with
  | nil => simp [Nesting.after]
  | cons c p ih =>
      obtain ⟨hhead, htail⟩ := isWhole_cons.mp h
      have hnot : ¬ (n.isFree c && [sep].isPrefixOf (c :: (p ++ r))) = true := by
        intro hfound
        rw [Bool.and_eq_true] at hfound
        have hsep : sep = c := by simpa using hfound.2
        subst hsep
        exact Bool.noConfusion (hfound.1.symm.trans (hhead rfl))
      have hafter : n.after (c :: p) = (n.step c).after p := rfl
      rw [List.cons_append, findTopLevelFrom?, if_neg hnot, ih htail, Option.map_map, hafter]
      refine Option.map_congr ?_
      intro i _
      show p.length + i + 1 = p.length + 1 + i
      omega

namespace Split

variable {sep : Char} {n : Nesting} {s p : List Char} {ps : List (List Char)}

/-- **The separator is found at the first cut**, if there is one. -/
theorem findTopLevelFrom?_eq (h : Split sep n s (p :: ps)) :
    findTopLevelFrom? [sep] n s = if ps = [] then none else some p.length := by
  cases h with
  | last hwhole =>
      have hfind := hwhole.findTopLevelFrom?_append []
      rw [List.append_nil] at hfind
      rw [hfind, if_pos rfl]
      rfl
  | cut hwhole hfree hrest =>
      have hne : ps ≠ [] := by
        rintro rfl
        cases hrest
      rw [hwhole.findTopLevelFrom?_append, findTopLevelFrom?, hfree, if_neg hne]
      simp

/-- **Each cut is made at a free separator.** -/
theorem isFree (h : Split sep n s ps) {left right : List (List Char)} {p q : List Char}
    (hps : ps = left ++ p :: q :: right) :
    (n.after ([sep].intercalate (left ++ [p]))).isFree sep = true := by
  induction h generalizing left with
  | last hwhole =>
      have hlength := congrArg List.length hps
      simp at hlength
      omega
  | cut hwhole hfree hrest ih =>
      cases left with
      | nil =>
          obtain ⟨rfl, -⟩ := List.cons.inj hps
          simpa using hfree
      | cons l left =>
          obtain ⟨rfl, hrest⟩ := List.cons.inj hps
          rw [List.cons_append, List.intercalate_cons_of_ne_nil (by simp), Nesting.after_append]
          exact ih hrest

/-- **No free separator is left in a piece.** -/
theorem not_isFree (h : Split sep n s ps) {left right : List (List Char)} {a b : List Char}
    (hps : ps = left ++ (a ++ sep :: b) :: right) :
    (n.after ([sep].intercalate (left ++ [a]))).isFree sep = false := by
  induction h generalizing left with
  | last hwhole =>
      cases left with
      | nil =>
          obtain ⟨hp, -⟩ := List.cons.inj hps
          simpa using hwhole a b hp
      | cons l left =>
          obtain ⟨-, hrest⟩ := List.cons.inj hps
          exact absurd hrest.symm (List.append_ne_nil_of_right_ne_nil left (List.cons_ne_nil _ _))
  | cut hwhole hfree hrest ih =>
      cases left with
      | nil =>
          obtain ⟨hp, -⟩ := List.cons.inj hps
          simpa using hwhole a b hp
      | cons l left =>
          obtain ⟨rfl, hrest⟩ := List.cons.inj hps
          rw [List.cons_append, List.intercalate_cons_of_ne_nil (by simp), Nesting.after_append]
          exact ih hrest

end Split

/-! ## Brackets that are open -/

/-- Behind a text a bracket is still open: one that stands outside strings, and behind which no more
    brackets are closed than opened, wherever one looks. -/
def LeavesBracketOpen (before : List Char) : Prop :=
  ∃ a c b, before = a ++ c :: b ∧ isOpening c = true ∧ openQuote none a = none ∧
    ∀ t, t <+: b → closings none t ≤ openings none t

/-- Nowhere in a text have more brackets been closed than opened. -/
def IsNeverOverclosed (s : List Char) : Prop := ∀ t, t <+: s → closings none t ≤ openings none t

/-- **At top level no bracket is open**, where none is closed before it is opened. -/
theorem not_leavesBracketOpen {s t : List Char} (hs : IsNeverOverclosed s) (ht : t <+: s)
    (htop : IsAtTopLevel t) : ¬ LeavesBracketOpen t := by
  rintro ⟨a, c, b, rfl, hc, hquote, hopen⟩
  -- what is open before the bracket, the bracket, and what is open behind it
  have ha := hs a ((List.prefix_append a (c :: b)).trans ht)
  have hb := hopen b List.prefix_rfl
  have hquote' : openQuote none [c] = none := by
    show (if isQuote c then some c else none) = none
    rw [not_isQuote_of_isOpening hc]
    rfl
  have hopens : openings none (c :: b) = 1 + openings none b := by
    rw [← List.singleton_append, openings_append, openings_opening hc, hquote']
  have hcloses : closings none (c :: b) = closings none b := by
    rw [← List.singleton_append, closings_append, closings_opening hc, hquote', Nat.zero_add]
  have htop := htop.2
  rw [openings_append, closings_append, hquote, hopens, hcloses] at htop
  omega

/-! ## The parts -/

/-- The pieces of a text between its separators at top level. -/
structure IsTopLevelSplit (sep : Char) (s : List Char) (pieces : List (List Char)) : Prop where
  /-- The pieces joined by the separator are the text. -/
  join : [sep].intercalate pieces = s
  /-- Each separator between two pieces stands at top level. -/
  cut : ∀ left p q right, pieces = left ++ p :: q :: right →
    IsAtTopLevel ([sep].intercalate (left ++ [p]))
  /-- No separator in a piece does. -/
  whole : ∀ left a b right, pieces = left ++ (a ++ sep :: b) :: right →
    ¬ IsAtTopLevel ([sep].intercalate (left ++ [a]))

theorem isTopLevelSplit_topLevelPieces {sep : Char} (hsep : isFlat sep = true) (s : List Char) :
    IsTopLevelSplit sep s (topLevelPieces sep .start s) where
  join := intercalate_topLevelPieces sep .start s
  cut := by
    intro left p q right hpieces
    exact (isFree_after_start_iff hsep _).mp ((split_topLevelPieces sep .start s).isFree hpieces)
  whole := by
    intro left a b right hpieces htop
    have hfree := (isFree_after_start_iff hsep _).mpr htop
    rw [(split_topLevelPieces sep .start s).not_isFree hpieces] at hfree
    exact Bool.noConfusion hfree

/-- **The parts of a text at top level.** A blank text has none. The parts of any other text are the trims
    of its pieces, the search finds the first separator between two of them, and there is one part only
    where it finds none. Where no bracket is closed before it is opened, no cut is made inside brackets, and
    none is ever made inside a string. -/
theorem splitTopLevel_exact {sep : Char} (hsep : isFlat sep = true) (s : List Char) :
    (splitTopLevel sep s = [] ↔ allBlank s = true) ∧
    (allBlank s = false →
      ∃ pieces, splitTopLevel sep s = pieces.map trim ∧ IsTopLevelSplit sep s pieces ∧
        (∀ p rest, pieces = p :: rest → findTopLevel? (String.singleton sep) s =
          if rest = [] then none else some p.length) ∧
        ((splitTopLevel sep s).length = 1 ↔ findTopLevel? (String.singleton sep) s = none) ∧
        (∀ left p q right, pieces = left ++ p :: q :: right →
          openQuote none ([sep].intercalate (left ++ [p])) = none ∧
          (IsNeverOverclosed s → ¬ LeavesBracketOpen ([sep].intercalate (left ++ [p]))))) := by
  have hne := topLevelPieces_ne_nil sep .start s
  have hsplit := isTopLevelSplit_topLevelPieces hsep s
  have hfirst : ∀ p rest, topLevelPieces sep .start s = p :: rest →
      findTopLevel? (String.singleton sep) s = if rest = [] then none else some p.length := by
    intro p rest hpieces
    have h := split_topLevelPieces sep .start s
    rw [hpieces] at h
    rw [findTopLevel?, String.toList_singleton, h.findTopLevelFrom?_eq]
  refine ⟨?_, fun hblank => ?_⟩
  · rw [splitTopLevel]
    by_cases hblank : allBlank s = true
    · rw [if_pos hblank]
      exact iff_of_true rfl hblank
    · rw [if_neg hblank]
      exact iff_of_false (fun h => hne (List.map_eq_nil_iff.mp h)) hblank
  · have hparts : splitTopLevel sep s = (topLevelPieces sep .start s).map trim := by
      rw [splitTopLevel, hblank]
      rfl
    refine ⟨_, hparts, hsplit, hfirst, ?_, ?_⟩
    · obtain ⟨p, rest, hpieces⟩ := List.exists_cons_of_ne_nil hne
      rw [hparts, List.length_map, hfirst p rest hpieces, hpieces]
      cases rest with
      | nil => simp
      | cons q rest => simp
    · intro left p q right hpieces
      have htop := hsplit.cut left p q right hpieces
      refine ⟨htop.1, fun hs => not_leavesBracketOpen hs ?_ htop⟩
      have hjoin := hsplit.join
      rw [hpieces] at hjoin
      rw [← hjoin]
      exact intercalate_prefix sep left p q right

/-- Arguments with a nested call and a string, a separator in each of them. -/
def nestedArguments : List Char := "a, f(b, [c]), 'x,(y'".toList

/-- Their brackets are closed behind where they are opened: the one in the string does not count. -/
theorem isNeverOverclosed_nestedArguments : IsNeverOverclosed nestedArguments := by
  intro t ht
  have hall : ∀ t ∈ nestedArguments.inits, closings none t ≤ openings none t := by decide +kernel
  exact hall t ((List.mem_inits t nestedArguments).mpr ht)

/-- The arguments are three, cut at the separators outside, and the search finds the first of these. -/
theorem splitTopLevel_exact_nestedArguments :
    isFlat ',' = true ∧ allBlank nestedArguments = false ∧
      splitTopLevel ',' nestedArguments = ["a".toList, "f(b, [c])".toList, "'x,(y'".toList] ∧
      findTopLevel? (String.singleton ',') nestedArguments = some 1 ∧
      ∃ pieces, splitTopLevel ',' nestedArguments = pieces.map trim ∧
        IsTopLevelSplit ',' nestedArguments pieces ∧
        ∀ left p q right, pieces = left ++ p :: q :: right →
          ¬ LeavesBracketOpen ([','].intercalate (left ++ [p])) := by
  have hsep : isFlat ',' = true := by decide
  have hblank : allBlank nestedArguments = false := by decide +kernel
  obtain ⟨pieces, hparts, hsplit, -, -, hcut⟩ := (splitTopLevel_exact hsep nestedArguments).2 hblank
  refine ⟨hsep, hblank, by decide +kernel, by decide +kernel, pieces, hparts, hsplit, ?_⟩
  intro left p q right hpieces
  exact (hcut left p q right hpieces).2 isNeverOverclosed_nestedArguments

end StLint.Text

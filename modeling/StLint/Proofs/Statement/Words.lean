import StLint.Proofs.Expression.Words
import StLint.Proofs.Statement.Row

/-!
# The words of a statement

A statement is cut at its keywords and at punctuation. **No cut loses a word** that the language
leaves to the names of a program: the statement holds it exactly if one of the pieces does.

* `containsWord_afterWord` — the keyword of a statement and what follows it.
* `containsWord_splitHeader`, `containsWord_forHeader` — the header of a block and its first statement.
* `branchLabel`, `containsWord_statementText` — the label of a branch and the statement behind it.
-/

namespace StLint

open Text Text.Pattern

namespace Statement

open StLint.Language (IsFree reservedWords)

variable {word : String} {s : List Char}

/-! ## Keywords -/

/-- What follows the word at the start of a text begins with no word character. -/
theorem head?_drop_leadingWord (s : List Char) :
    (s.drop (leadingWord s).length).head?.any isWordChar = false := by
  rw [leadingWord]
  induction s with
  | nil => rfl
  | cons c r ih =>
      by_cases hc : isWordChar c = true
      · rw [List.takeWhile_cons_of_pos hc, List.length_cons, List.drop_succ_cons]
        exact ih
      · rw [List.takeWhile_cons_of_neg hc]
        exact Bool.eq_false_iff.mpr hc

/-- **Behind the keyword of a statement** stand all its words. -/
theorem containsWord_drop_leadingWord (hw : IsFree word)
    (h : Lead.ofWord (leadingWord s) ≠ .plain) :
    containsWord word (s.drop (leadingWord s).length) = containsWord word s := by
  have hreserved : Language.isReserved (leadingWord s) = true := by
    by_contra hfree
    exact h (lead_of_not_reserved (Bool.eq_false_iff.mpr hfree))
  have hchars : ∀ c ∈ leadingWord s, isWordChar c = true := fun _ hc => List.mem_takeWhile_imp hc
  have hsplit : s = leadingWord s ++ s.drop (leadingWord s).length :=
    (List.prefix_iff_eq_append.mp (List.takeWhile_prefix isWordChar)).symm
  conv_rhs => rw [hsplit]
  rw [containsWord_append hw.isKeyword (Or.inr (head?_drop_leadingWord s)),
    hw.containsWord_of_reserved hchars hreserved, Bool.false_or]

theorem containsWord_afterWord (hw : IsFree word) (h : Lead.ofWord (leadingWord s) ≠ .plain) :
    containsWord word (afterWord s) = containsWord word s := by
  rw [afterWord, containsWord_trim_eq hw.isKeyword, containsWord_drop_leadingWord hw h]

/-- **A header** is cut at the keyword that ends it. -/
theorem containsWord_splitHeader (hw : IsFree word) {keyword : String}
    (hk : keyword ∈ reservedWords) (s : List Char) :
    containsWord word s =
      (containsWord word (splitHeader keyword s).1 ||
        containsWord word (splitHeader keyword s).2) := by
  rw [splitHeader]
  cases hfind : findWord? keyword s with
  | none =>
      dsimp only
      rw [containsWord_stripStatementEnd hw.isKeyword, containsWord_nil, Bool.or_false]
  | some i =>
      dsimp only
      rw [containsWord_trim_eq hw.isKeyword, containsWord_trim_eq hw.isKeyword]
      exact hw.containsWord_findWord? hk hfind

/-! ## Loop headers -/

theorem eq_append_of_dropPrefix? {phrase r : List Char} (h : dropPrefix? phrase s = some r) :
    s = phrase ++ r := by
  rw [dropPrefix?] at h
  by_cases hp : phrase.isPrefixOf s = true
  · rw [if_pos hp] at h
    rw [← Option.some.inj h]
    exact List.prefix_iff_eq_append.mp (List.isPrefixOf_iff_prefix.mp hp) |>.symm
  · rw [if_neg hp] at h
    cases h

/-- **A keyword between white space** is passed over. -/
theorem containsWord_gap_keyword (hw : IsFree word) {keyword : String} (hk : keyword ∈ reservedWords)
    {a w k b : List Char} (hblank : ∀ c ∈ w, isBlank c = true) (hne : 1 ≤ w.length)
    (hupper : upper k = upper keyword.toList) (hb : b.head?.any isWordChar = false) :
    containsWord word (a ++ (w ++ (k ++ b))) = (containsWord word a || containsWord word b) := by
  have hgap : ∀ c ∈ w, isWordChar c = false := fun c hc => not_wordChar_of_blank (hblank c hc)
  rw [containsWord_append_of_not_wordChar hw.isKeyword hgap (List.length_pos_iff.mp hne),
    containsWord_append hw.isKeyword (Or.inr hb), hw.containsWord_of_upper_eq hk hupper,
    Bool.false_or]

/-- The same with white space behind the keyword. -/
theorem containsWord_gap_keyword_gap (hw : IsFree word) {keyword : String}
    (hk : keyword ∈ reservedWords) {a w k v b : List Char} (hblank : ∀ c ∈ w, isBlank c = true)
    (hne : 1 ≤ w.length) (hupper : upper k = upper keyword.toList)
    (hbehind : ∀ c ∈ v, isBlank c = true) (hvne : 1 ≤ v.length) :
    containsWord word (a ++ (w ++ (k ++ (v ++ b)))) =
      (containsWord word a || containsWord word b) := by
  have hhead : (v ++ b).head?.any isWordChar = false := by
    rw [any_head?_append isWordChar (List.length_pos_iff.mp hvne)]
    exact not_wordChar_head?_of_blank hbehind
  rw [containsWord_gap_keyword hw hk hblank hne hupper hhead,
    containsWord_blank_append hw.isKeyword hbehind]

/-- What ends a header does not run into the bound `a` in front of it. -/
theorem containsWord_append_loopBody? (hw : IsFree word) (a : List Char) {body : List Char}
    (h : loopBody? s = some body) :
    containsWord word (a ++ s) = (containsWord word a || containsWord word body) := by
  rcases either_eq_some h with hdo | hend
  · obtain ⟨w, r, rfl, hblank, hne, hkeyword⟩ := exists_of_blanks hdo
    obtain ⟨k, rest, rfl, hupper, hrest⟩ := exists_of_keyword isHeaderWord_do hkeyword
    by_cases hend : wordMayEnd rest = true
    · rw [if_pos hend] at hrest
      obtain rfl := Option.some.inj hrest
      have hhead : rest.head?.any isWordChar = false := by
        cases rest with
        | nil => rfl
        | cons c r =>
            rw [wordMayEnd, List.head?_cons, Option.any_some, Bool.not_eq_true'] at hend
            rw [List.head?_cons, Option.any_some, Bool.eq_false_iff]
            intro hc
            rw [isUnicodeWord_of_wordChar hc] at hend
            cases hend
      exact containsWord_gap_keyword hw (by decide : "DO" ∈ reservedWords) hblank hne hupper hhead
    · rw [if_neg hend] at hrest
      cases hrest
  · by_cases hblank : allBlank s = true
    · rw [if_pos hblank] at hend
      obtain rfl := Option.some.inj hend
      rw [containsWord_append_blank hw.isKeyword a (allBlank_iff.mp hblank), containsWord_nil,
        Bool.or_false]
    · rw [if_neg hblank] at hend
      cases hend

/-- The bounds of a loop are written with their keywords. -/
theorem containsWord_bounds (hw : IsFree word) (b : Bounds) :
    containsWord word b.text =
      (containsWord word b.first || containsWord word b.last ||
        b.step.any (containsWord word)) := by
  have hkeyword : ∀ {keyword : String}, keyword ∈ reservedWords → ∀ a c : List Char,
      containsWord word (a ++ ([' '] ++ (keyword.toList ++ ([' '] ++ c)))) =
        (containsWord word a || containsWord word c) := fun hk a c =>
    containsWord_gap_keyword_gap hw hk blank_space (Nat.le_refl 1) rfl blank_space (Nat.le_refl 1)
  have hto := hkeyword (by decide : "TO" ∈ reservedWords) b.first b.last
  cases hstep : b.step with
  | none =>
      have htext : b.text = b.first ++ ([' '] ++ ("TO".toList ++ ([' '] ++ b.last))) := by
        rw [Bounds.text, hstep]
        simp
      rw [htext, hto, Option.any_none, Bool.or_false]
  | some step =>
      have htext : b.text = b.first ++ ([' '] ++ ("TO".toList ++ ([' '] ++ b.last))) ++
          ([' '] ++ ("BY".toList ++ ([' '] ++ step))) := by
        rw [Bounds.text, hstep]
        simp
      rw [htext, hkeyword (by decide : "BY" ∈ reservedWords), hto, Option.any_some]

theorem containsWord_readLast (hw : IsFree word) {first body : List Char} {b : Bounds}
    (h : Bounds.readLast loopBody? first s = some (b, body)) :
    b.first = trim first ∧ containsWord word s =
      (containsWord word b.last || b.step.any (containsWord word) || containsWord word body) := by
  have htrim := containsWord_trim_eq hw.isKeyword
  obtain ⟨last, r, rfl, hlast⟩ := exists_of_shortest h
  rcases either_eq_some hlast with hstep | hend
  · obtain ⟨w, r₁, rfl, hblank, hne, hkeyword⟩ := exists_of_blanks hstep
    obtain ⟨k, r₂, rfl, hupper, hgap⟩ := exists_of_keyword isHeaderWord_by hkeyword
    obtain ⟨v, r₃, rfl, hbehind, hvne, hpart⟩ := exists_of_blanks hgap
    obtain ⟨step, r₄, rfl, hend⟩ := exists_of_shortest hpart
    obtain ⟨rest, hbody, hfound⟩ := Option.map_eq_some_iff.mp hend
    obtain ⟨rfl, rfl⟩ := Prod.mk.inj hfound
    refine ⟨rfl, ?_⟩
    rw [containsWord_gap_keyword_gap hw (by decide : "BY" ∈ reservedWords) hblank hne hupper hbehind
      hvne, containsWord_append_loopBody? hw step hbody, ← Bool.or_assoc, Option.any_some, htrim,
      htrim]
    rfl
  · obtain ⟨rest, hbody, hfound⟩ := Option.map_eq_some_iff.mp hend
    obtain ⟨rfl, rfl⟩ := Prod.mk.inj hfound
    refine ⟨rfl, ?_⟩
    rw [containsWord_append_loopBody? hw last hbody, Option.any_none, Bool.or_false, htrim]
    rfl

theorem containsWord_readThen (hw : IsFree word) {body : List Char} {b : Bounds}
    (h : Bounds.readThen loopBody? s = some (b, body)) :
    containsWord word s = (containsWord word b.text || containsWord word body) := by
  obtain ⟨w₀, r₀, rfl, hblank₀, -, hfirst⟩ := exists_of_blanks h
  obtain ⟨first, r, rfl, hgap⟩ := exists_of_shortest hfirst
  obtain ⟨w, r₁, rfl, hblank, hne, hkeyword⟩ := exists_of_blanks hgap
  obtain ⟨k, r₂, rfl, hupper, hbounds⟩ := exists_of_keyword isHeaderWord_to hkeyword
  obtain ⟨v, r₃, rfl, hbehind, hvne, hlast⟩ := exists_of_blanks hbounds
  obtain ⟨hbfirst, hrest⟩ := containsWord_readLast hw hlast
  rw [containsWord_blank_append hw.isKeyword hblank₀,
    containsWord_gap_keyword_gap hw (by decide : "TO" ∈ reservedWords) hblank hne hupper hbehind hvne,
    hrest, containsWord_bounds hw, hbfirst, containsWord_trim_eq hw.isKeyword, Bool.or_assoc,
    Bool.or_assoc, Bool.or_assoc]
  rfl

/-- **The header of a `FOR` loop** holds its words in the counter and the bounds. -/
theorem containsWord_forHeader (hw : IsFree word) {h : ForHeader} (hread : ForHeader.read? s = some h) :
    containsWord word s = (containsWord word h.counter || containsWord word h.bounds.text ||
      containsWord word h.body) := by
  obtain ⟨w, r, rfl, hblank, -, hname⟩ := exists_of_blanks hread
  by_cases hstart : r.head?.any startsName = true
  · rw [if_pos hstart] at hname
    obtain ⟨v, r₁, hr, hbehind, -, hassign⟩ := exists_of_blanks hname
    obtain ⟨r₂, hprefix, hfound⟩ := Option.bind_eq_some_iff.mp hassign
    obtain ⟨⟨b, body⟩, hbounds, rfl⟩ := Option.map_eq_some_iff.mp hfound
    have hmark : ∀ c ∈ v ++ ":=".toList, isWordChar c = false := by
      intro c hc
      rcases List.mem_append.mp hc with hc | hc
      · exact not_wordChar_of_blank (hbehind c hc)
      · exact not_wordChar_of_all (s := ":=".toList) (by decide) c hc
    have hsplit : r = r.takeWhile continuesCounter ++ ((v ++ ":=".toList) ++ r₂) := by
      conv_lhs => rw [← List.takeWhile_append_dropWhile (p := continuesCounter) (l := r), hr]
      rw [eq_append_of_dropPrefix? hprefix, List.append_assoc]
    rw [containsWord_blank_append hw.isKeyword hblank]
    conv_lhs => rw [hsplit]
    rw [containsWord_append_of_not_wordChar hw.isKeyword hmark
      (List.append_ne_nil_of_right_ne_nil v (by decide)), containsWord_readThen hw hbounds,
      containsWord_trim_eq hw.isKeyword, Bool.or_assoc]
  · rw [if_neg hstart] at hname
    cases hname

/-! ## Branch labels -/

/-- The label of a branch in front of a statement directly inside a `CASE`. -/
def branchLabel (stack : BlockStack) (s : List Char) : List Char :=
  if stack.innermost? = some .caseBlock ∧ (dropBranchLabel? (trim s)).isSome then
    (trim s).takeWhile (· ≠ ':')
  else []

/-- A label ends at its colon. -/
theorem containsWord_dropBranchLabel? (hw : IsFree word) {r : List Char}
    (h : dropBranchLabel? s = some r) :
    containsWord word s =
      (containsWord word (s.takeWhile (· ≠ ':')) || containsWord word r) := by
  rw [dropBranchLabel?] at h
  cases hd : s.dropWhile (· ≠ ':') with
  | nil =>
      rw [hd] at h
      cases h
  | cons c rest =>
      rw [hd] at h
      dsimp only at h
      by_cases hassign : rest.head? = some '='
      · rw [if_pos hassign] at h
        cases h
      rw [if_neg hassign] at h
      by_cases hlabel : (!(trim (s.takeWhile (· ≠ ':'))).isEmpty &&
          (trim (s.takeWhile (· ≠ ':'))).all isLabelChar) = true
      · rw [if_pos hlabel] at h
        obtain rfl := Option.some.inj h
        have hsplit : s = s.takeWhile (· ≠ ':') ++ ([':'] ++ rest) := by
          conv_lhs => rw [← List.takeWhile_append_dropWhile (p := (· ≠ ':')) (l := s), hd,
            eq_of_dropWhile_ne hd]
          rfl
        conv_lhs => rw [hsplit]
        rw [containsWord_append_of_not_wordChar hw.isKeyword (s := [':'])
            (not_wordChar_of_all (by decide)) (by decide),
          containsWord_trim_eq hw.isKeyword]
      · rw [if_neg hlabel] at h
        cases h

/-- **A statement is read behind its label.** -/
theorem containsWord_statementText (hw : IsFree word) (stack : BlockStack) (s : List Char) :
    containsWord word s =
      (containsWord word (branchLabel stack s) || containsWord word (statementText stack s)) := by
  rw [← containsWord_trim_eq hw.isKeyword s, branchLabel, statementText]
  by_cases hcase : stack.innermost? = some .caseBlock
  · cases hlabel : dropBranchLabel? (trim s) with
    | none =>
        rw [if_pos hcase, if_neg (fun h => Bool.false_ne_true h.2), containsWord_nil, Bool.false_or]
        rfl
    | some r =>
        rw [if_pos hcase, if_pos ⟨hcase, rfl⟩, Option.getD_some]
        exact containsWord_dropBranchLabel? hw hlabel
  · rw [if_neg hcase, if_neg (fun h => hcase h.1), containsWord_nil, Bool.false_or]

end Statement

end StLint

import StLint.Proofs.Source.Declaration
import StLint.Proofs.Text.Word

/-!
# The lines of a unit

A unit reaches from the line that declares it to the line that closes it. Both are lines of the
source, while the reader works on the lines that are kept of it; **a line that is kept between the
two kept lines stands between the two lines of the source**.

* `declarationLine?`, `closingLine` — the two lines, counted in the source.
* `pairwise_number_collapse` — the kept lines are numbered in order.
* `exists_findDeclaration?_collapse` — the kept lines below the declaration.
* `number_of_mem_takeWhile_collapse` — the kept lines above the end.
-/

namespace StLint.Source

open Text

/-- The first of several lines that declares a unit, where the first one has number `n`. -/
def declarationFromLine? (n : Nat) : List (List Char) → Option (Nat × Declaration)
  | [] => none
  | l :: ls =>
    match Declaration.ofLine? l with
    | some d => some (n, d)
    | none => declarationFromLine? (n + 1) ls

/-- The number of the first line that declares a unit, with its declaration. -/
def declarationLine? (source : List Char) : Option (Nat × Declaration) :=
  declarationFromLine? 1 (lines (stripComments source))

/-- The number of the first line below line `h` that closes a unit of the kind; one past the last
    line if there is none. -/
def closingLine (kind : UnitKind) (source : List Char) (h : Nat) : Nat :=
  h + 1 + ((lines (stripComments source)).drop h).findIdx (startsWithKeyword kind.endKeyword)

variable {previousBlank : Bool} {k : Nat} {ls : List (List Char)}

theorem declarationFromLine?_eq_none_iff :
    declarationFromLine? k ls = none ↔ ∀ l ∈ ls, Declaration.ofLine? l = none := by
  induction ls generalizing k with
  | nil => exact ⟨fun _ => nofun, fun _ => rfl⟩
  | cons l ls ih =>
      rw [declarationFromLine?, List.forall_mem_cons]
      cases hl : Declaration.ofLine? l with
      | some d => exact ⟨nofun, fun h => nomatch h.1⟩
      | none => exact ih.trans (and_iff_right rfl).symm

/-- The first line that declares a unit stands below lines that declare none. -/
theorem declarationFromLine?_eq_some_iff {n : Nat} {d : Declaration} :
    declarationFromLine? k ls = some (n, d) ↔
      ∃ above l below, ls = above ++ l :: below ∧ n = k + above.length ∧
        (∀ m ∈ above, Declaration.ofLine? m = none) ∧ Declaration.ofLine? l = some d := by
  induction ls generalizing k with
  | nil =>
      constructor
      · exact nofun
      · rintro ⟨above, l, below, hls, -⟩
        cases above <;> exact nomatch hls
  | cons l ls ih =>
      rw [declarationFromLine?]
      cases hl : Declaration.ofLine? l with
      | some e =>
          constructor
          · intro h
            obtain ⟨rfl, rfl⟩ := Prod.mk.inj (Option.some.inj h)
            exact ⟨[], l, ls, rfl, rfl, nofun, hl⟩
          · rintro ⟨above, m, below, hls, rfl, habove, hm⟩
            cases above with
            | nil =>
                obtain ⟨rfl, rfl⟩ := List.cons.inj hls
                rw [hl] at hm
                rw [Option.some.inj hm]
                rfl
            | cons a as =>
                obtain ⟨rfl, -⟩ := List.cons.inj hls
                rw [habove l (List.mem_cons_self ..)] at hl
                exact nomatch hl
      | none =>
          refine ih.trans ⟨?_, ?_⟩
          · rintro ⟨above, m, below, rfl, rfl, habove, hm⟩
            refine ⟨l :: above, m, below, rfl, ?_, List.forall_mem_cons.mpr ⟨hl, habove⟩, hm⟩
            rw [List.length_cons]
            omega
          · rintro ⟨above, m, below, hls, rfl, habove, hm⟩
            cases above with
            | nil =>
                obtain ⟨rfl, -⟩ := List.cons.inj hls
                rw [hl] at hm
                exact nomatch hm
            | cons a as =>
                obtain ⟨rfl, rfl⟩ := List.cons.inj hls
                refine ⟨as, m, below, rfl, ?_, (List.forall_mem_cons.mp habove).2, hm⟩
                rw [List.length_cons]
                omega

/-- The kept lines are numbered in order. -/
theorem pairwise_number_collapse (previousBlank : Bool) (k : Nat) (ls : List (List Char)) :
    (collapse previousBlank k ls).Pairwise fun l m => l.number < m.number := by
  induction ls generalizing previousBlank k with
  | nil => exact List.Pairwise.nil
  | cons l ls ih =>
      have habove : ∀ (b : Bool) (t : List Char), ∀ m ∈ collapse b (k + 1) ls,
          (⟨k, t⟩ : CodeLine).number < m.number :=
        fun _ _ _ hm => (number_of_mem_collapse hm).1
      rw [collapse_cons]
      by_cases hl : trimEnd l = []
      · rw [if_pos hl]
        cases previousBlank with
        | true => exact ih true (k + 1)
        | false => exact List.pairwise_cons.mpr ⟨habove true [], ih true (k + 1)⟩
      · rw [if_neg hl]
        exact List.pairwise_cons.mpr ⟨habove false (trimEnd l), ih false (k + 1)⟩

/-! ## Below the declaration -/

/-- Where no line declares a unit, no kept line does. -/
theorem findDeclaration?_collapse_of_none (h : declarationFromLine? k ls = none) :
    findDeclaration? (collapse previousBlank k ls) = none := by
  induction ls generalizing previousBlank k with
  | nil => rfl
  | cons l ls ih =>
      rw [declarationFromLine?] at h
      cases hl : Declaration.ofLine? l with
      | some d =>
          rw [hl] at h
          exact nomatch h
      | none =>
          rw [hl] at h
          rw [collapse_cons]
          by_cases hblank : trimEnd l = []
          · rw [if_pos hblank]
            cases previousBlank with
            | true => exact ih h
            | false =>
                show (findDeclaration? (collapse true (k + 1) ls)).map _ = none
                rw [ih h]
                rfl
          · rw [if_neg hblank, findDeclaration?, Declaration.ofLine?_trimEnd, hl, ih h]
            rfl

/-- **The kept lines below the declaration** are what is kept of the lines below it. -/
theorem exists_findDeclaration?_collapse {n : Nat} {d : Declaration}
    (h : declarationFromLine? k ls = some (n, d)) :
    ∃ i b, findDeclaration? (collapse previousBlank k ls) = some (i, d) ∧ k ≤ n ∧
      (collapse previousBlank k ls).drop (i + 1) = collapse b (n + 1) (ls.drop (n + 1 - k)) := by
  induction ls generalizing previousBlank k with
  | nil => exact nomatch h
  | cons l ls ih =>
      rw [declarationFromLine?] at h
      cases hl : Declaration.ofLine? l with
      | some e =>
          rw [hl] at h
          obtain ⟨rfl, rfl⟩ := Prod.mk.inj (Option.some.inj h)
          have hne : trimEnd l ≠ [] := by
            intro hnil
            rw [← Declaration.ofLine?_trimEnd, hnil] at hl
            exact nomatch hl
          refine ⟨0, false, ?_, Nat.le_refl k, ?_⟩
          · rw [collapse_cons, if_neg hne, findDeclaration?, Declaration.ofLine?_trimEnd, hl]
          · rw [collapse_cons, if_neg hne, Nat.add_sub_cancel_left]
            rfl
      | none =>
          rw [hl] at h
          have hlater : ∀ b, ∃ i b', findDeclaration? (collapse b (k + 1) ls) = some (i, d) ∧
              k + 1 ≤ n ∧ (collapse b (k + 1) ls).drop (i + 1)
                = collapse b' (n + 1) (ls.drop (n - k)) := by
            intro b
            rw [← Nat.add_sub_add_right n 1 k]
            exact ih h
          -- the line is passed over, whether it is kept or not
          have hpass : ∀ (b : Bool) (t : List Char), Declaration.ofLine? t = none →
              ∃ i b', findDeclaration? (⟨k, t⟩ :: collapse b (k + 1) ls) = some (i, d) ∧ k ≤ n ∧
                (⟨k, t⟩ :: collapse b (k + 1) ls).drop (i + 1)
                  = collapse b' (n + 1) (ls.drop (n - k)) := by
            intro b t ht
            obtain ⟨i, b', hi, hkn, hdrop⟩ := hlater b
            refine ⟨i + 1, b', ?_, Nat.le_of_succ_le hkn, hdrop⟩
            rw [findDeclaration?, ht, hi]
            rfl
          obtain ⟨_, _, -, hkn, -⟩ := hlater true
          rw [show n + 1 - k = (n - k) + 1 by omega, List.drop_succ_cons, collapse_cons]
          by_cases hblank : trimEnd l = []
          · rw [if_pos hblank]
            cases previousBlank with
            | true =>
                obtain ⟨i, b', hi, -, hdrop⟩ := hlater true
                exact ⟨i, b', hi, Nat.le_of_succ_le hkn, hdrop⟩
            | false => exact hpass true [] rfl
          · rw [if_neg hblank]
            exact hpass false (trimEnd l) (by rw [Declaration.ofLine?_trimEnd, hl])

/-! ## Above the end -/

/-- **The kept lines up to the first one with a property** stand above the first such line. -/
theorem number_of_mem_takeWhile_collapse {p : List Char → Bool} (hnil : p [] = false)
    (htrim : ∀ l, p (trimEnd l) = p l) {l : CodeLine}
    (h : l ∈ (collapse previousBlank k ls).takeWhile fun l => !p l.text) :
    k ≤ l.number ∧ l.number < k + ls.findIdx p := by
  induction ls generalizing previousBlank k with
  | nil => exact nomatch h
  | cons m ms ih =>
      have hlater : ∀ b, l ∈ (collapse b (k + 1) ms).takeWhile (fun l => !p l.text) →
          k ≤ l.number ∧ l.number < k + (ms.findIdx p + 1) := by
        intro b hb
        obtain ⟨h1, h2⟩ := ih hb
        omega
      have hkeep : ∀ (b : Bool) (t : List Char), p t = false →
          l ∈ ((⟨k, t⟩ :: collapse b (k + 1) ms : List CodeLine).takeWhile fun l => !p l.text) →
          k ≤ l.number ∧ l.number < k + (ms.findIdx p + 1) := by
        intro b t ht hl
        rw [List.takeWhile_cons_of_pos (by simp [ht])] at hl
        rcases List.mem_cons.mp hl with rfl | hl
        · exact ⟨Nat.le_refl k, by simp⟩
        · exact hlater b hl
      rw [collapse_cons] at h
      by_cases hm : p m = true
      · -- the line has the property, and so has what is kept of it
        have hkept : p (trimEnd m) = true := by rw [htrim, hm]
        rw [if_neg (by rintro hblank; rw [hblank, hnil] at hkept; exact nomatch hkept),
          List.takeWhile_cons_of_neg (by simp [hkept])] at h
        exact nomatch h
      · rw [Bool.not_eq_true] at hm
        rw [List.findIdx_cons, hm, cond_false]
        by_cases hblank : trimEnd m = []
        · rw [if_pos hblank] at h
          cases previousBlank with
          | true => exact hlater true h
          | false => exact hkeep true [] hnil h
        · rw [if_neg hblank] at h
          exact hkeep false (trimEnd m) (by rw [htrim, hm]) h

/-- **A line that is not blank is kept**, if it stands above the first line with a property. -/
theorem mem_takeWhile_collapse {p : List Char → Bool} (hnil : p [] = false)
    (htrim : ∀ l, p (trimEnd l) = p l) {j : Nat} {l : List Char} (hl : ls[j]? = some l)
    (hne : trimEnd l ≠ []) (hj : j < ls.findIdx p) :
    ⟨k + j, trimEnd l⟩ ∈ (collapse previousBlank k ls).takeWhile fun l => !p l.text := by
  induction ls generalizing previousBlank k j with
  | nil => exact nomatch hl
  | cons m ms ih =>
      have hm : p m = false := by
        by_contra hm
        rw [Bool.not_eq_false] at hm
        rw [List.findIdx_cons, hm] at hj
        exact Nat.not_lt_zero j hj
      have hkept : ∀ t, p t = false → ∀ b,
          (⟨k, t⟩ :: collapse b (k + 1) ms : List CodeLine).takeWhile (fun l => !p l.text)
            = ⟨k, t⟩ :: (collapse b (k + 1) ms).takeWhile fun l => !p l.text := by
        intro t ht b
        exact List.takeWhile_cons_of_pos (by simp [ht])
      rw [List.findIdx_cons, hm, cond_false] at hj
      rw [collapse_cons]
      cases j with
      | zero =>
          obtain rfl : m = l := Option.some.inj hl
          rw [if_neg hne, hkept _ (by rw [htrim, hm])]
          exact List.mem_cons_self ..
      | succ j =>
          have hlater : ∀ b, ⟨k + (j + 1), trimEnd l⟩
              ∈ (collapse b (k + 1) ms).takeWhile fun l => !p l.text := by
            intro b
            rw [show k + (j + 1) = k + 1 + j by omega]
            exact ih hl (Nat.lt_of_succ_lt_succ hj)
          by_cases hblank : trimEnd m = []
          · rw [if_pos hblank]
            cases previousBlank with
            | true => exact hlater true
            | false =>
                show _ ∈ (⟨k, []⟩ :: collapse true (k + 1) ms : List CodeLine).takeWhile _
                rw [hkept [] hnil]
                exact List.mem_cons_of_mem _ (hlater true)
          · rw [if_neg hblank, hkept _ (by rw [htrim, hm])]
            exact List.mem_cons_of_mem _ (hlater false)

/-! ## Between the two -/

theorem stripComments_normalizeLineEndings (source : List Char) :
    stripComments (normalizeLineEndings source) = stripComments source := by
  rw [stripComments, normalizeLineEndings_idem, stripComments]

theorem findDeclaration?_codeLines_of_none {source : List Char} (h : declarationLine? source = none) :
    findDeclaration? (codeLines (normalizeLineEndings source)) = none := by
  rw [codeLines, stripComments_normalizeLineEndings]
  exact findDeclaration?_collapse_of_none h

/-- The kept lines of a source below its declaration are what is kept of the lines below it. -/
theorem exists_findDeclaration?_codeLines {source : List Char} {h : Nat} {d : Declaration}
    (hfrom : declarationLine? source = some (h, d)) :
    ∃ i b, findDeclaration? (codeLines (normalizeLineEndings source)) = some (i, d) ∧
      (codeLines (normalizeLineEndings source)).drop (i + 1)
        = collapse b (h + 1) ((lines (stripComments (normalizeLineEndings source))).drop h) := by
  rw [codeLines, stripComments_normalizeLineEndings]
  obtain ⟨i, b, hfind, -, hdrop⟩ := exists_findDeclaration?_collapse hfrom
  exact ⟨i, b, hfind, hdrop⟩

theorem closingLine_normalizeLineEndings (kind : UnitKind) (source : List Char) (h : Nat) :
    closingLine kind (normalizeLineEndings source) h = closingLine kind source h := by
  rw [closingLine, stripComments_normalizeLineEndings, closingLine]

theorem isKeyword_endKeyword (kind : UnitKind) : IsKeyword kind.endKeyword.toList := by
  cases kind <;> exact isKeyword_of_all (by decide)

/-- **The kept lines between a declaration and the line that closes it** stand between the two lines
    of the source. -/
theorem number_of_mem_below_declaration {source : List Char} {h i : Nat} {d : Declaration}
    {b : Bool} (hdrop : (codeLines source).drop (i + 1)
      = collapse b (h + 1) ((lines (stripComments source)).drop h)) {l : CodeLine}
    (hl : l ∈ ((codeLines source).drop (i + 1)).takeWhile
      fun l => !startsWithKeyword d.kind.endKeyword l.text) :
    h < l.number ∧ l.number < closingLine d.kind source h := by
  rw [hdrop] at hl
  have hnil : startsWithKeyword d.kind.endKeyword [] = false := by cases d.kind <;> rfl
  exact number_of_mem_takeWhile_collapse hnil
    (startsWithKeyword_trimEnd (isKeyword_endKeyword d.kind)) hl

/-- **A line of the source that is not blank** and stands between a declaration and the line that
    closes it is kept. -/
theorem mem_below_declaration {source : List Char} {h i : Nat} {d : Declaration} {b : Bool}
    (hdrop : (codeLines source).drop (i + 1)
      = collapse b (h + 1) ((lines (stripComments source)).drop h)) {n : Nat} {l : List Char}
    (hn : h < n) (hclosing : n < closingLine d.kind source h)
    (hl : (lines (stripComments source))[n - 1]? = some l) (hne : trimEnd l ≠ []) :
    ⟨n, trimEnd l⟩ ∈ ((codeLines source).drop (i + 1)).takeWhile
      fun l => !startsWithKeyword d.kind.endKeyword l.text := by
  obtain ⟨j, rfl⟩ : ∃ j, n = h + 1 + j := ⟨n - (h + 1), by omega⟩
  have hnil : startsWithKeyword d.kind.endKeyword [] = false := by cases d.kind <;> rfl
  rw [hdrop]
  refine mem_takeWhile_collapse hnil (startsWithKeyword_trimEnd (isKeyword_endKeyword d.kind)) ?_
    hne (Nat.lt_of_add_lt_add_left hclosing)
  rw [List.getElem?_drop, ← hl]
  congr 1
  omega

end StLint.Source

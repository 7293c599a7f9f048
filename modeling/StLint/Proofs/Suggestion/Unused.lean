import StLint.Proofs.Pou.Trace
import StLint.Proofs.Statement.Part
import StLint.Suggestion.Rules

/-!
# Unused variables

A variable is reported as unused if no node of the body mentions it, and the nodes hold what is kept
of the statements. So a variable whose only occurrences are dropped, such as in the condition of an
`ELSIF`, **is reported although the body uses it**.

* `Rules.isReferenced_iff` — a name is referenced if a statement mentions it.
* `Rules.unusedVariable_mem_ofUnit_iff` — a private variable is reported if it is not referenced.
* `Pou.unused_parts` — what is reported, and where its occurrences are.
-/

namespace StLint

open Text Source
open Statement (PartOn)

namespace Rules

/-- **A name is referenced if a statement mentions it.** -/
theorem isReferenced_iff {body : Node} {name : String} :
    isReferenced body name = true ↔ ∃ c ∈ body.children, c.Mentions name := by
  have hfields : ∀ m : Node,
      (∃ t ∈ [m.name, m.value].filterMap id, containsWord name t.toList = true) ↔
        m.name.any (containsWord name ·.toList) = true ∨
          m.value.any (containsWord name ·.toList) = true := by
    intro m
    cases m.name <;> cases m.value <;> simp
  rw [isReferenced, bodyTexts, Node.drop_one_walk, List.any_eq_true]
  constructor
  · rintro ⟨t, ht, hword⟩
    obtain ⟨m, hm, ht⟩ := List.mem_flatMap.mp ht
    obtain ⟨c, hc, hm⟩ := Node.mem_preorderAll.mp hm
    exact ⟨c, hc, m, hm, Node.exists_holds_iff.mpr ((hfields m).mp ⟨t, ht, hword⟩)⟩
  · rintro ⟨c, hc, m, hm, hholds⟩
    obtain ⟨t, ht, hword⟩ := (hfields m).mpr (Node.exists_holds_iff.mp hholds)
    exact ⟨t, List.mem_flatMap.mpr ⟨m, Node.mem_preorderAll.mpr ⟨c, hc, hm⟩, ht⟩, hword⟩

/-- No other rule speaks of unused variables. -/
theorem mem_unusedVariables_of_mem_ofUnit {t : Thresholds} {u : Pou} {i : Issue}
    (h : i ∈ ofUnit t u) (htype : i.type = .unusedVariable) : i ∈ unusedVariables u := by
  rw [ofUnit, List.mem_append, List.mem_append, List.mem_append, List.mem_append] at h
  rcases h with (((h | h) | h) | h) | h
  · exact h
  · obtain ⟨n, -, h⟩ := List.mem_flatMap.mp h
    obtain ⟨literal, -, rfl⟩ := List.mem_map.mp h
    cases htype
  · obtain ⟨n, -, rfl⟩ := List.mem_map.mp h
    cases htype
  · rw [missingDescription] at h
    by_cases hdescribed : u.description.isSome = true
    · rw [if_pos hdescribed] at h
      cases h
    · rw [if_neg hdescribed] at h
      rw [List.mem_singleton.mp h] at htype
      cases htype
  · rw [largeUnit] at h
    by_cases hlarge : t.largeUnit < u.statementCount
    · rw [if_pos hlarge] at h
      rw [List.mem_singleton.mp h] at htype
      cases htype
    · rw [if_neg hlarge] at h
      cases h

theorem name_eq_of_unusedVariable_eq {u : Pou} {v w : Variable}
    (h : unusedVariable u v = unusedVariable u w) : v.name = w.name := by
  have htext : v.name ++ " is declared but never used" = w.name ++ " is declared but never used" :=
    congrArg Issue.description h
  rw [← String.toList_inj, String.toList_append, String.toList_append] at htext
  exact String.toList_inj.mp (List.append_cancel_right htext)

/-- **A private variable is reported exactly if it is not referenced.** -/
theorem unusedVariable_mem_ofUnit_iff {t : Thresholds} {u : Pou} {v : Variable} (hv : v ∈ u.vars)
    (hprivate : isPrivate v = true) :
    unusedVariable u v ∈ ofUnit t u ↔ isReferenced u.body v.name = false := by
  constructor
  · intro h
    obtain ⟨w, hw, heq⟩ := List.mem_map.mp (mem_unusedVariables_of_mem_ofUnit h rfl)
    have hunreferenced := (Bool.and_eq_true_iff.mp (List.mem_filter.mp hw).2).2
    rwa [name_eq_of_unusedVariable_eq heq, Bool.not_eq_true'] at hunreferenced
  · intro h
    have hkept : (isPrivate v && !isReferenced u.body v.name) = true := by
      rw [hprivate, h]
      rfl
    rw [ofUnit]
    simp only [List.mem_append]
    exact Or.inl (Or.inl (Or.inl (Or.inl (List.mem_map_of_mem (List.mem_filter.mpr ⟨hv, hkept⟩)))))

end Rules

namespace Pou

/-! ## The lines of a body -/

/-- The tree of a unit is that of the lines below its sections. -/
theorem body_ofDeclaration_of_layout (label : String) (source : List Char) {raw : List Char}
    {ls sections body : List CodeLine} {index : Nat} {d : Declaration}
    (h : layoutAt raw ls index d = (sections, body)) :
    (ofDeclaration label source raw ls index d).body
      = (Statement.Body.ofSegments (String.ofList d.name) (Statement.segments body)).root := by
  have hbody : body = (layoutAt raw ls index d).2 := by rw [h]
  rw [body_ofDeclaration, hbody, ← slice_bodyStart]
  rfl

/-- **The body of a unit is read from the lines below its sections**, and all lines of code that the
    unit keeps are among those of the two parts. -/
theorem exists_layout {label : String} {source : List Char} {u : Pou}
    (hu : parse label source = .ok u) :
    ∃ h d sections body, declarationLine? source = some (h, d) ∧
      layout? source = some (sections, body) ∧
      u.body = (Statement.Body.ofSegments u.name (Statement.segments body)).root ∧
      ∀ n l, h < n → n < closingLine d.kind source h →
        (lines (stripComments source))[n - 1]? = some l → allBlank l = false →
        ⟨n, trimEnd l⟩ ∈ sections ++ body := by
  rw [parse_eq_find] at hu
  cases hfrom : declarationLine? source with
  | none =>
      rw [findDeclaration?_codeLines_of_none hfrom] at hu
      cases hu
  | some x =>
      obtain ⟨h, d⟩ := x
      obtain ⟨i, b, hfind, hdrop⟩ := exists_findDeclaration?_codeLines hfrom
      rw [hfind] at hu
      obtain rfl := Except.ok.inj hu
      obtain ⟨sections, body, hparts⟩ : ∃ sections body, layoutAt (normalizeLineEndings source)
        (codeLines (normalizeLineEndings source)) i d = (sections, body) := ⟨_, _, rfl⟩
      refine ⟨h, d, sections, body, rfl, ?_, ?_, ?_⟩
      · rw [layout?]
        simp only [hfind, Option.map_some, hparts]
      · exact body_ofDeclaration_of_layout label source hparts
      · intro n l hn hclosing hl hblank
        have hne : trimEnd l ≠ [] := by
          intro hnil
          rw [trimEnd_eq_nil_iff, ← allBlank_iff, hblank] at hnil
          cases hnil
        have hkept : sections ++ body = linesAt (codeLines (normalizeLineEndings source)) i d := by
          rw [← layoutAt_append, hparts]
        rw [hkept, linesAt, slice_endIndex]
        rw [← stripComments_normalizeLineEndings] at hl
        rw [← closingLine_normalizeLineEndings] at hclosing
        exact mem_below_declaration hdrop hn hclosing hl hne

/-- **What is reported as unused.** A private variable is reported exactly if no part that is kept
    of a statement holds its name, and then every occurrence on a line of the body, below the
    sections and above the line that closes the unit, stands in a part that is dropped. For a name
    that is reserved or no word at all one direction is left, as it may be cut itself. -/
theorem unused_parts {label : String} {source : List Char} {u : Pou}
    (hu : parse label source = .ok u) :
    ∃ h d sections body, declarationLine? source = some (h, d) ∧
      layout? source = some (sections, body) ∧
      ∀ t, ∀ v ∈ u.vars, Rules.isPrivate v = true →
        (Rules.unusedVariable u v ∈ Rules.ofUnit t u →
          ∀ n part, PartOn u.name body n .kept part → containsWord v.name part = false) ∧
        (Language.IsFree v.name →
          ((∀ n part, PartOn u.name body n .kept part → containsWord v.name part = false) →
            Rules.unusedVariable u v ∈ Rules.ofUnit t u) ∧
          (Rules.unusedVariable u v ∈ Rules.ofUnit t u →
            ∀ n l, h < n → n < closingLine d.kind source h → (∀ m ∈ sections, m.number < n) →
              (lines (stripComments source))[n - 1]? = some l → containsWord v.name l = true →
              ∃ part, PartOn u.name body n .dropped part ∧ containsWord v.name part = true)) := by
  obtain ⟨h, d, sections, body, hdeclared, hlayout, hbody, hlines⟩ := exists_layout hu
  refine ⟨h, d, sections, body, hdeclared, hlayout, ?_⟩
  intro t v hv hprivate
  rw [Rules.unusedVariable_mem_ofUnit_iff hv hprivate, hbody]
  have hkept : Rules.isReferenced
        (Statement.Body.ofSegments u.name (Statement.segments body)).root v.name = false →
      ∀ n part, PartOn u.name body n .kept part → containsWord v.name part = false := by
    intro hunused n part hpart
    rw [Bool.eq_false_iff] at hunused ⊢
    intro hword
    exact hunused (Rules.isReferenced_iff.mpr (Statement.mentions_of_partOn_kept hpart hword))
  refine ⟨hkept, ?_⟩
  intro hfree
  constructor
  · intro hnone
    rw [Bool.eq_false_iff]
    intro hreferenced
    obtain ⟨c, hc, hmentions⟩ := Rules.isReferenced_iff.mp hreferenced
    obtain ⟨n, part, hpart, hword⟩ := Statement.exists_partOn_kept_of_mentions hfree hc hmentions
    rw [hnone n part hpart] at hword
    cases hword
  · intro hunused n l hn hclosing hbelow hl hword
    have hblank : allBlank l = false := by
      rw [Bool.eq_false_iff]
      intro hblank
      rw [containsWord_of_blank hfree.isKeyword (allBlank_iff.mp hblank)] at hword
      cases hword
    have hmem : (⟨n, trimEnd l⟩ : CodeLine) ∈ body := by
      rcases List.mem_append.mp (hlines n l hn hclosing hl hblank) with hin | hin
      · exact absurd (hbelow _ hin) (Nat.lt_irrefl n)
      · exact hin
    rw [← containsWord_trimEnd_eq hfree.isKeyword] at hword
    obtain ⟨use, part, hpart, hword⟩ :=
      Statement.exists_partOn_of_containsWord hfree u.name hmem hword
    cases use with
    | dropped => exact ⟨part, hpart, hword⟩
    | kept =>
        rw [hkept hunused n part hpart] at hword
        cases hword

/-! ## A condition that is dropped -/

/-- A variable that only the condition of an `ELSIF` uses. -/
def elsifCondition : List Char :=
  ("PROGRAM A\nVAR\nb : BOOL;\nEND_VAR\nIF a THEN\nx := 1;\nELSIF b THEN\nx := 2;\nEND_IF;\n" ++
    "END_PROGRAM").toList

/-- The lines of this source up to the end of its sections. -/
def elsifSections : List CodeLine :=
  [⟨2, "VAR".toList⟩, ⟨3, "b : BOOL;".toList⟩, ⟨4, "END_VAR".toList⟩]

/-- The lines below them. -/
def elsifBody : List CodeLine :=
  [⟨5, "IF a THEN".toList⟩, ⟨6, "x := 1;".toList⟩, ⟨7, "ELSIF b THEN".toList⟩,
    ⟨8, "x := 2;".toList⟩, ⟨9, "END_IF;".toList⟩]

private theorem parse_elsifCondition :
    ∃ u, parse "f.st" elsifCondition = .ok u ∧ u.name = "A" ∧ ∃ v ∈ u.vars, v.name = "b" ∧
      Rules.isPrivate v = true ∧ Rules.isReferenced u.body v.name = false :=
  exists_parse_of_any (by decide +kernel)

private theorem declarationLine?_elsifCondition :
    declarationLine? elsifCondition = some (1, ⟨.program, "A".toList, none⟩) := by decide +kernel

private theorem layout?_elsifCondition :
    layout? elsifCondition = some (elsifSections, elsifBody) := by decide +kernel

private theorem line_elsifCondition :
    (lines (stripComments elsifCondition))[6]? = some "ELSIF b THEN".toList := by decide +kernel

private theorem closingLine_elsifCondition :
    closingLine .program elsifCondition 1 = 10 := by decide +kernel

/-- **A used variable is reported as unused**: the only line that uses it stands below the sections
    and above the end of the unit. -/
theorem exists_false_unused :
    ∃ u, parse "f.st" elsifCondition = .ok u ∧
      declarationLine? elsifCondition = some (1, ⟨.program, "A".toList, none⟩) ∧
      closingLine .program elsifCondition 1 = 10 ∧
      layout? elsifCondition = some (elsifSections, elsifBody) ∧
      ∃ v ∈ u.vars, Rules.isPrivate v = true ∧
        (∀ t, Rules.unusedVariable u v ∈ Rules.ofUnit t u) ∧
        (lines (stripComments elsifCondition))[6]? = some "ELSIF b THEN".toList ∧
        containsWord v.name "ELSIF b THEN".toList = true := by
  obtain ⟨u, hu, -, v, hv, hname, hprivate, hunused⟩ := parse_elsifCondition
  refine ⟨u, hu, declarationLine?_elsifCondition, closingLine_elsifCondition,
    layout?_elsifCondition, v, hv, hprivate, ?_, line_elsifCondition, ?_⟩
  · intro t
    exact (Rules.unusedVariable_mem_ofUnit_iff hv hprivate).mpr hunused
  · rw [hname]
    decide

/-- The condition of the `ELSIF` is the part that is dropped. -/
theorem unused_parts_elsifCondition :
    ∃ u, parse "f.st" elsifCondition = .ok u ∧ ∃ v ∈ u.vars,
      Rules.isPrivate v = true ∧ Language.IsFree v.name ∧
      (∀ t, Rules.unusedVariable u v ∈ Rules.ofUnit t u) ∧
      (∀ n part, PartOn u.name elsifBody n .kept part → containsWord v.name part = false) ∧
      ∃ part, PartOn u.name elsifBody 7 .dropped part ∧ containsWord v.name part = true := by
  obtain ⟨u, hu, -, v, hv, hname, hprivate, hunused⟩ := parse_elsifCondition
  have hreported : ∀ t, Rules.unusedVariable u v ∈ Rules.ofUnit t u := by
    intro t
    exact (Rules.unusedVariable_mem_ofUnit_iff hv hprivate).mpr hunused
  have hfree : Language.IsFree v.name := by
    rw [hname]
    exact ⟨isKeyword_of_all (by decide), by decide⟩
  obtain ⟨h, d, sections, body, hdeclared, hlayout, hparts⟩ := unused_parts hu
  rw [declarationLine?_elsifCondition] at hdeclared
  obtain ⟨rfl, rfl⟩ := Prod.mk.inj (Option.some.inj hdeclared)
  rw [layout?_elsifCondition] at hlayout
  obtain ⟨rfl, rfl⟩ := Prod.mk.inj (Option.some.inj hlayout)
  obtain ⟨hkept, hoccurrences⟩ := hparts ⟨0.0, 0, 0.0, 0⟩ v hv hprivate
  refine ⟨u, hu, v, hv, hprivate, hfree, hreported, hkept (hreported _), ?_⟩
  refine (hoccurrences hfree).2 (hreported _) 7 "ELSIF b THEN".toList (by decide) ?_ (by decide)
    line_elsifCondition ?_
  · rw [closingLine_elsifCondition]
    decide
  · rw [hname]
    decide

end Pou

end StLint

import StLint.Proofs.Pou.File
import StLint.Proofs.Pou.WellFormed
import StLint.Proofs.Section.Order
import StLint.Proofs.Statement.Trace

/-!
# What becomes of the lines of a unit

The lines of a unit are read up to the last `END_VAR` for their sections and below it for their
statements. Most lines lie in a section, leave a node or a diagnostic, or hold block punctuation
alone. **Two kinds of lines get lost without a word**: those above the last `END_VAR` that lie in no
section, and what shares its segment with punctuation that is read without its rest.

* `layout?` — the lines of the two parts of a unit.
* `Traces` — a node or a diagnostic stands on a line.
* `Fate` — what becomes of a line.
* `parse_fate` — every line that is not blank has its fate.
-/

namespace StLint

open Text Source

namespace Section

variable {current : Option OpenSection} {n : Nat} {ls ms : List CodeLine}

theorem InSection.exists_mem (h : InSection current n ls) : ∃ l ∈ ls, l.number = n := by
  induction ls generalizing current with
  | nil => exact h.elim
  | cons l ls ih =>
      rcases h with ⟨hl, -⟩ | h
      · exact ⟨l, List.mem_cons_self .., hl⟩
      · obtain ⟨m, hm, hn⟩ := ih h
        exact ⟨m, List.mem_cons_of_mem l hm, hn⟩

/-- A section does not depend on the lines below it. -/
theorem InSection.of_append (h : InSection current n (ls ++ ms)) :
    InSection current n ls ∨ ∃ l ∈ ms, l.number = n := by
  induction ls generalizing current with
  | nil => exact Or.inr h.exists_mem
  | cons l ls ih =>
      rcases h with hl | h
      · exact Or.inl (Or.inl hl)
      · exact (ih h).imp_left Or.inr

end Section

namespace Pou

open Section (InSection)
open Statement (Silent IsPunctuation Speaks segments stackAfter)

variable {raw : List Char} {ls : List CodeLine} {index : Nat} {d : Declaration} {n : Nat}

/-! ## The two parts of a unit -/

/-- Index of the first line below the last `END_VAR`. -/
def bodyStart (raw : List Char) (ls : List CodeLine) (index : Nat) (d : Declaration) : Nat :=
  ((tableAt raw ls index d).lastEnd.map (· + 1)).getD (index + 1)

/-- The lines of a unit up to the last `END_VAR`, and those below it. -/
def layoutAt (raw : List Char) (ls : List CodeLine) (index : Nat) (d : Declaration) :
    List CodeLine × List CodeLine :=
  (linesAt ls index d).splitAt (bodyStart raw ls index d - (index + 1))

/-- The lines that are kept of the unit that a source declares, without the line of its declaration
    and from the line that closes it on: those up to the last `END_VAR`, and those below it. -/
def layout? (source : List Char) : Option (List CodeLine × List CodeLine) :=
  let raw := normalizeLineEndings source
  (findDeclaration? (codeLines raw)).map fun (index, d) => layoutAt raw (codeLines raw) index d

theorem layoutAt_append (raw : List Char) (ls : List CodeLine) (index : Nat) (d : Declaration) :
    (layoutAt raw ls index d).1 ++ (layoutAt raw ls index d).2 = linesAt ls index d := by
  rw [layoutAt, List.splitAt_eq]
  exact List.take_append_drop _ _

/-- The statements are read from the lines below the last `END_VAR`. -/
theorem slice_bodyStart (raw : List Char) (ls : List CodeLine) (index : Nat) (d : Declaration) :
    slice ls (bodyStart raw ls index d) (endIndex d.kind ls (index + 1))
      = (layoutAt raw ls index d).2 := by
  have hstart : index + 1 ≤ bodyStart raw ls index d := by
    have htable := within_tableAt (P := fun _ => True) raw
      (fun l (_ : l ∈ linesAt ls index d) => trivial)
    rw [bodyStart]
    cases hlast : (tableAt raw ls index d).lastEnd with
    | none => exact Nat.le_refl _
    | some i => exact Nat.le_succ_of_le (htable.lastEnd i hlast)
  obtain ⟨k, hk⟩ := Nat.exists_eq_add_of_le hstart
  rw [layoutAt, List.splitAt_eq, linesAt, slice, slice, hk, Nat.add_sub_cancel_left, List.drop_drop]

/-! ## Traces -/

/-- **A node of the tree or a diagnostic stands on a line.** -/
def Traces (u : Pou) (n : Nat) : Prop :=
  (∃ m ∈ u.body.preorder, m.line = n) ∨ ∃ c ∈ u.diagnostics, c.line = n

/-- A unit traces a line below its first one if its sections do or its statements. -/
theorem traces_ofDeclaration_iff (label : String) (source raw : List Char) (hn : 0 < n) :
    (ofDeclaration label source raw ls index d).Traces n ↔
      (∃ c ∈ (tableAt raw ls index d).diagnostics, c.line = n) ∨ (bodyAt raw ls index d).Traces n := by
  have hstatements : ∀ m ∈ (bodyAt raw ls index d).root.children, m.IsStatement := by
    intro m hm
    exact ((Statement.Body.stands_ofSegments (String.ofList d.name) (segments
      (slice ls (bodyStart raw ls index d) (endIndex d.kind ls (index + 1))))).1 m hm).2
  have hnode : (∃ m ∈ (bodyAt raw ls index d).root.preorder, m.line = n) ↔
      ∃ m ∈ (bodyAt raw ls index d).root.children, m.line = n := by
    constructor
    · rintro ⟨m, hm, hline⟩
      rcases Node.mem_preorder.mp hm with rfl | ⟨c, hc, hm⟩
      · -- the root stands on no line
        exact absurd hline (Nat.ne_of_lt hn)
      · exact ⟨c, hc, ((hstatements c hc).carries m hm).1.symm.trans hline⟩
    · rintro ⟨m, hm, hline⟩
      exact ⟨m, Node.mem_preorder.mpr (Or.inr ⟨m, hm, Node.mem_preorder.mpr (Or.inl rfl)⟩), hline⟩
  have hdiagnostic : (∃ c ∈ (ofDeclaration label source raw ls index d).diagnostics, c.line = n) ↔
      (∃ c ∈ (tableAt raw ls index d).diagnostics, c.line = n) ∨
        ∃ c ∈ (bodyAt raw ls index d).diagnostics, c.line = n := by
    rw [ofDeclaration_eq]
    simp only [ofParts, List.mem_mergeSort, List.mem_append, or_and_right, exists_or]
  rw [Traces, hdiagnostic, body_ofDeclaration, hnode, Statement.Body.Traces]
  exact or_left_comm

theorem traces_bodyAt_iff (raw : List Char) (ls : List CodeLine) (index : Nat) (d : Declaration)
    (n : Nat) : (bodyAt raw ls index d).Traces n ↔
      Speaks (.start (String.ofList d.name)) (segments (layoutAt raw ls index d).2) n := by
  rw [← slice_bodyStart]
  exact Statement.Body.traces_ofSegments_iff _ _ n

/-- **Outside the sections a line is traced exactly if one of its segments is not silent.** -/
theorem traces_ofDeclaration_iff_speaks (label : String) (source raw : List Char) (hn : 0 < n)
    (hout : ¬ InSection none n (linesAt ls index d)) :
    (ofDeclaration label source raw ls index d).Traces n ↔
      Speaks (.start (String.ofList d.name)) (segments (layoutAt raw ls index d).2) n := by
  have htable : ¬ ∃ c ∈ (tableAt raw ls index d).diagnostics, c.line = n := by
    rintro ⟨c, hc, rfl⟩
    exact hout ((Section.Table.within_inSection (lines raw) ls (index + 1)
      (endIndex d.kind ls (index + 1))).diagnostics c hc)
  rw [traces_ofDeclaration_iff label source raw hn, or_iff_right htable, traces_bodyAt_iff]

/-! ## Fates -/

/-- Every segment on a line below the sections is block punctuation. -/
def OnlyPunctuation (unit : String) (body : List CodeLine) (n : Nat) : Prop :=
  ∀ before s later, segments body = before ++ s :: later → s.line = n →
    IsPunctuation (stackAfter (.start unit) before) s.text

/-- Every segment on a line below the sections is silent, and one of them drops some text. -/
def DropsText (unit : String) (body : List CodeLine) (n : Nat) : Prop :=
  (∀ before s later, segments body = before ++ s :: later → s.line = n →
      ∃ dropped, Silent (stackAfter (.start unit) before) s.text dropped) ∧
    ∃ before s later dropped, segments body = before ++ s :: later ∧ s.line = n ∧ dropped ≠ [] ∧
      Silent (stackAfter (.start unit) before) s.text dropped

/-- **What becomes of line `n`** of a unit with the lines `sections` up to the last `END_VAR` and the
    lines `body` below it. -/
inductive Fate (u : Pou) (sections body : List CodeLine) (n : Nat) : Prop
  /-- It lies in a section. -/
  | inSection (h : InSection none n sections)
  | traced (h : u.Traces n)
  | punctuation (hmem : ∃ l ∈ body, l.number = n) (h : OnlyPunctuation u.name body n)
  /-- It lies in no section, but above the end of one, and is not read at all. -/
  | skipped (hmem : ∃ l ∈ sections, l.number = n) (hout : ¬ InSection none n sections)
      (hnone : ¬ u.Traces n)
  /-- It is read, but not to the end. -/
  | cutOff (hmem : ∃ l ∈ body, l.number = n) (hdrops : DropsText u.name body n)
      (hnone : ¬ u.Traces n)

/-- A line without a segment that speaks is punctuation, or some of its text is dropped. -/
theorem onlyPunctuation_or_dropsText {unit : String} {body : List CodeLine}
    (h : ¬ Speaks (.start unit) (segments body) n) :
    OnlyPunctuation unit body n ∨ DropsText unit body n := by
  have hsilent : ∀ before s later, segments body = before ++ s :: later → s.line = n →
      ∃ dropped, Silent (stackAfter (.start unit) before) s.text dropped := by
    intro before s later hbody hline
    by_contra hspeaks
    exact h ⟨before, s, later, hbody, hline, hspeaks⟩
  by_cases hall : OnlyPunctuation unit body n
  · exact Or.inl hall
  · simp only [OnlyPunctuation, not_forall] at hall
    obtain ⟨before, s, later, hbody, hline, hnot⟩ := hall
    obtain ⟨dropped, hdropped⟩ := hsilent before s later hbody hline
    refine Or.inr ⟨hsilent, before, s, later, dropped, hbody, hline, ?_, hdropped⟩
    rintro rfl
    exact hnot hdropped

theorem exists_mem_of_speaks {stack : BlockStack} {body : List CodeLine}
    (h : Speaks stack (segments body) n) : ∃ l ∈ body, l.number = n := by
  obtain ⟨before, s, later, hbody, rfl, -⟩ := h
  have hs : s ∈ segments body := hbody ▸ List.mem_append_right before (List.mem_cons_self ..)
  obtain ⟨l, hl, hline⟩ := Statement.exists_line_of_mem_segments hs
  exact ⟨l, hl, hline.symm⟩

/-- **Every line that a unit keeps has its fate.** -/
theorem fate_ofDeclaration (label : String) (source raw : List Char)
    (hls : ls.Pairwise fun l m => l.number < m.number) {l : CodeLine} (hl : l ∈ linesAt ls index d)
    (hpos : 0 < l.number) :
    Fate (ofDeclaration label source raw ls index d) (layoutAt raw ls index d).1
      (layoutAt raw ls index d).2 l.number := by
  have hlayout := layoutAt_append raw ls index d
  have hrange : (linesAt ls index d).Pairwise fun l m => l.number < m.number :=
    (hls.sublist (List.take_sublist _ _)).sublist (List.drop_sublist _ _)
  rw [← hlayout] at hl hrange
  rcases List.mem_append.mp hl with hl | hl
  · by_cases hin : InSection none l.number (layoutAt raw ls index d).1
    · exact .inSection hin
    · -- no line below the sections has the number of this one
      have hbelow : ¬ ∃ m ∈ (layoutAt raw ls index d).2, m.number = l.number := by
        rintro ⟨m, hm, hnumber⟩
        have hlt := (List.pairwise_append.mp hrange).2.2 l hl m hm
        exact absurd hnumber (Nat.ne_of_gt hlt)
      have hout : ¬ InSection none l.number (linesAt ls index d) := by
        rw [← hlayout]
        intro h
        rcases h.of_append with h | h
        · exact hin h
        · exact hbelow h
      refine .skipped ⟨l, hl, rfl⟩ hin ?_
      rw [traces_ofDeclaration_iff_speaks label source raw hpos hout]
      exact fun hspeaks => hbelow (exists_mem_of_speaks hspeaks)
  · by_cases htraced : (ofDeclaration label source raw ls index d).Traces l.number
    · exact .traced htraced
    · have hsilent : ¬ Speaks (.start (String.ofList d.name))
          (segments (layoutAt raw ls index d).2) l.number := by
        rw [← traces_bodyAt_iff]
        intro hbody
        exact htraced ((traces_ofDeclaration_iff label source raw hpos).mpr (Or.inr hbody))
      rcases onlyPunctuation_or_dropsText hsilent with h | h
      · exact .punctuation ⟨l, hl, rfl⟩ h
      · exact .cutOff ⟨l, hl, rfl⟩ h htraced

/-! ## Every line of a source -/

/-- **Every line of a unit that is not blank has its fate**: it lies in a section, is traced, holds
    punctuation alone, or is one of the two kinds that get lost. Outside the sections a line is traced
    exactly if it stands below them and one of its segments is not silent. -/
theorem parse_fate (label : String) (source : List Char) :
    match declarationLine? source with
    | none => parse label source = .error (.noUnitDeclaration label)
    | some (h, d) => ∃ u sections body, parse label source = .ok u ∧
        layout? source = some (sections, body) ∧
        (∀ n l, h < n → n < closingLine d.kind source h →
          (lines (stripComments source))[n - 1]? = some l → allBlank l = false →
          Fate u sections body n) ∧
        ∀ n, 0 < n → ¬ InSection none n (sections ++ body) →
          (u.Traces n ↔ Speaks (.start u.name) (segments body) n) := by
  rw [parse_eq_find, layout?]
  cases hfrom : declarationLine? source with
  | none =>
      simp only [findDeclaration?_codeLines_of_none hfrom]
  | some x =>
      obtain ⟨h, d⟩ := x
      obtain ⟨i, b, hfind, hdrop⟩ := exists_findDeclaration?_codeLines hfrom
      simp only [hfind]
      refine ⟨_, (layoutAt _ _ i d).1, (layoutAt _ _ i d).2, rfl, rfl, ?_, ?_⟩
      · intro n l hn hclosing hl hblank
        have hne : trimEnd l ≠ [] := by
          intro hnil
          rw [trimEnd_eq_nil_iff, ← allBlank_iff, hblank] at hnil
          cases hnil
        have hmem : ⟨n, trimEnd l⟩ ∈ linesAt (codeLines (normalizeLineEndings source)) i d := by
          rw [linesAt, slice_endIndex]
          rw [← stripComments_normalizeLineEndings] at hl
          rw [← closingLine_normalizeLineEndings] at hclosing
          exact mem_below_declaration hdrop hn hclosing hl hne
        exact fate_ofDeclaration label source _ (pairwise_number_collapse false 1 _) hmem
          (Nat.zero_lt_of_lt hn)
      · intro n hn hout
        rw [layoutAt_append] at hout
        exact traces_ofDeclaration_iff_speaks label source _ hn hout

/-! ## Two lines that get lost -/

instance (u : Pou) (n : Nat) : Decidable (u.Traces n) :=
  inferInstanceAs (Decidable (_ ∨ _))

/-- A statement above the only section. -/
def statementAboveSection : List Char :=
  "PROGRAM A\nx := 1;\nVAR\nEND_VAR\nEND_PROGRAM".toList

/-- A statement behind the end of a block, without a semicolon between them. -/
def statementBehindCloser : List Char :=
  "PROGRAM A\nIF x THEN\ny := 1;\nEND_IF z := 2;\nEND_PROGRAM".toList

theorem exists_parse_of_any {label : String} {source : List Char} {p : Pou → Prop}
    [DecidablePred p] (h : (parse label source).toOption.any (fun u => p u) = true) :
    ∃ u, parse label source = .ok u ∧ p u :=
  exists_ok_of_any h

/-- **A statement can disappear**: it lies in no section, no node and no diagnostic stands on its
    line, and it is no punctuation. -/
theorem exists_lost_statement :
    (∃ u sections body, parse "f.st" statementAboveSection = .ok u ∧
      layout? statementAboveSection = some (sections, body) ∧
      ⟨2, "x := 1;".toList⟩ ∈ sections ∧ ¬ InSection none 2 sections ∧ ¬ u.Traces 2 ∧
      ¬ IsPunctuation (.start u.name) "x := 1".toList) ∧
    ∃ u sections body, parse "f.st" statementBehindCloser = .ok u ∧
      layout? statementBehindCloser = some (sections, body) ∧
      ⟨4, "END_IF z := 2;".toList⟩ ∈ body ∧ ¬ InSection none 4 sections ∧ ¬ u.Traces 4 ∧
      ¬ OnlyPunctuation u.name body 4 := by
  constructor
  · obtain ⟨u, hu, hname, hnone⟩ : ∃ u, parse "f.st" statementAboveSection = .ok u ∧
        u.name = "A" ∧ ¬ u.Traces 2 := exists_parse_of_any (by decide +kernel)
    have hlayout : layout? statementAboveSection = some ([⟨2, "x := 1;".toList⟩,
        ⟨3, "VAR".toList⟩, ⟨4, "END_VAR".toList⟩], []) := by decide +kernel
    refine ⟨u, _, _, hu, hlayout, List.mem_cons_self .., by decide +kernel, hnone, ?_⟩
    rw [hname]
    exact Statement.not_silent_of_leavesTrace (by decide) (by decide)
  · obtain ⟨u, hu, hname, hnone⟩ : ∃ u, parse "f.st" statementBehindCloser = .ok u ∧
        u.name = "A" ∧ ¬ u.Traces 4 := exists_parse_of_any (by decide +kernel)
    have hlayout : layout? statementBehindCloser = some ([], [⟨2, "IF x THEN".toList⟩,
        ⟨3, "y := 1;".toList⟩, ⟨4, "END_IF z := 2;".toList⟩]) := by decide +kernel
    refine ⟨u, _, _, hu, hlayout, by simp, by decide, hnone, ?_⟩
    intro hall
    have hsegments : segments [⟨2, "IF x THEN".toList⟩, ⟨3, "y := 1;".toList⟩,
        ⟨4, "END_IF z := 2;".toList⟩]
        = [⟨2, "IF x THEN".toList⟩, ⟨3, "y := 1".toList⟩] ++
          ⟨4, "END_IF z := 2".toList⟩ :: [] := by decide
    have hpunctuation := hall _ _ _ hsegments rfl
    -- the text holds a colon, but it has no label of a branch
    have htext : ∀ stack, Statement.statementText stack "END_IF z := 2".toList
        = "END_IF z := 2".toList := by
      intro stack
      rw [Statement.statementText]
      split
      · decide
      · decide
    have hlead : ∀ stack, Statement.Lead.ofWord (leadingWord (Statement.statementText stack
        "END_IF z := 2".toList)) = .closes .ifBlock := by
      intro stack
      rw [htext]
      decide
    have hdropped := hpunctuation.dropped_eq_behindCloser (hlead _)
    rw [htext] at hdropped
    exact absurd hdropped (by decide)

end Pou

end StLint

import StLint.Proofs.Source.Comment
import StLint.Proofs.Source.Line
import StLint.Proofs.Statement.Structured

/-!
# Reading a printed program

A program is printed row by row, with white space and a semicolon around the rows as the layout
wants. None of this shows in the body: every line of the source is **one segment, the text of its
row**, and so the body is the tree's.

* `Row.isPlain_text`, `Row.trim_text_ne_nil` — what every row has in common.
* `Margin.splitTopLevel_around` — a line is one part, whatever stands around its row.
* `segments_collapse_print` — the segments of the lines are the rows.
* `Body.ofLines_print` — the body of a printed program.
-/

namespace StLint.Statement

open Text Source

/-! ## The text of a row -/

/-- A character of a row: no quote, and nothing that ends a line or a statement. -/
def isRowChar (c : Char) : Bool := !isQuote c && c ≠ ';' && c ≠ '\n' && c ≠ '\r'

/-- A part of a row: its brackets are closed in it. -/
structure IsPlain (s : List Char) : Prop where
  chars : ∀ c ∈ s, isRowChar c = true
  neutral : IsNeutral s

theorem IsPlain.append {s t : List Char} (hs : IsPlain s) (ht : IsPlain t) : IsPlain (s ++ t) where
  chars := by
    intro c hc
    rcases List.mem_append.mp hc with hc | hc
    · exact hs.chars c hc
    · exact ht.chars c hc
  neutral := hs.neutral.append ht.neutral

theorem isPlain_of_isFlat {s : List Char} (hf : ∀ c ∈ s, isFlat c = true)
    (hs : ∀ c ∈ s, isRowChar c = true) : IsPlain s := ⟨hs, isNeutral_of_isFlat hf⟩

/-- A fixed text. -/
theorem isPlain_of_all {s : List Char} (h : (s.all fun c => isFlat c && isRowChar c) = true) :
    IsPlain s := by
  rw [List.all_eq_true] at h
  refine isPlain_of_isFlat ?_ ?_
  · intro c hc
    exact (Bool.and_eq_true_iff.mp (h c hc)).1
  · intro c hc
    exact (Bool.and_eq_true_iff.mp (h c hc)).2

/-- A class of characters that structure neither a text nor its lines. -/
theorem isPlain_of_class {p : Char → Bool}
    (hp : (['\'', '"', '(', ')', '[', ']', ';', '\n', '\r'].any p) = false) {s : List Char}
    (h : ∀ c ∈ s, p c = true) : IsPlain s := by
  rw [List.any_eq_false] at hp
  refine isPlain_of_isFlat ?_ ?_
  · intro c hc
    refine isFlat_of_class (List.any_eq_false.mpr ?_) (h c hc)
    intro d hd
    exact hp d (List.mem_append_left [';', '\n', '\r'] hd)
  · intro c hc
    cases hrow : isRowChar c with
    | true => rfl
    | false =>
        have hpc := h c hc
        simp only [isRowChar, isQuote, Bool.and_eq_false_iff, Bool.not_eq_false', Bool.or_eq_true,
          decide_eq_true_eq, decide_eq_false_iff_not, not_not] at hrow
        rcases hrow with (((rfl | rfl) | rfl) | rfl) | rfl <;> exact absurd hpc (hp _ (by decide))

theorem isPlain_of_wordChar {s : List Char} (h : ∀ c ∈ s, isWordChar c = true) : IsPlain s :=
  isPlain_of_class (by decide) h

theorem Inline.isPlain (x : Inline) : IsPlain x.text := by
  have hchars : ∀ c ∈ x.text, isQuote c = false ∧ isRowChar c = true := by
    intro c hc
    have h := x.isInlineChar_of_mem hc
    simp only [isInlineChar, Bool.and_eq_true, Bool.not_eq_true'] at h
    obtain ⟨⟨⟨⟨hquote, hend⟩, -⟩, hfeed⟩, hreturn⟩ := h
    rw [isRowChar, hquote, hend, hfeed, hreturn]
    exact ⟨rfl, rfl⟩
  exact ⟨fun c hc => (hchars c hc).2,
    isNeutral_of_isBalanced (fun c hc => (hchars c hc).1) x.balanced⟩

theorem Reference.isPlain (x : Reference) : IsPlain x.text := by
  refine @isPlain_of_class (fun c => isWordChar c || c = '.') (by decide) _ ?_
  intro c hc
  rw [Bool.or_eq_true, decide_eq_true_eq]
  exact wordChar_of_qualified x.qualified c hc

theorem BranchLabel.isPlain (l : BranchLabel) : IsPlain l.text :=
  isPlain_of_class (by decide) fun c hc => List.all_eq_true.mp l.allowed c hc

theorem Range.isPlain (r : Range) : IsPlain r.text := by
  obtain ⟨first, last, step⟩ := r
  have hto : IsPlain " TO ".toList := isPlain_of_all (by decide)
  have hby : IsPlain " BY ".toList := isPlain_of_all (by decide)
  refine first.toInline.isPlain.append (hto.append (last.toInline.isPlain.append ?_))
  cases step with
  | none => exact isPlain_of_all rfl
  | some step => exact hby.append step.toInline.isPlain

/-- An expression between two keywords is part of a row. -/
theorem isPlain_between {opening closing : String} (p : Phrase)
    (ho : IsPlain opening.toList) (hc : IsPlain closing.toList) :
    IsPlain (Row.between opening p closing) := by
  have hblank : IsPlain [' '] := isPlain_of_all rfl
  exact ho.append (hblank.append (p.toInline.isPlain.append (hblank.append hc)))

namespace Row

theorem isPlain_text (row : Row) : IsPlain row.text := by
  cases row with
  | assign target value =>
      have hassign : IsPlain " := ".toList := isPlain_of_all (by decide)
      exact target.isPlain.append (hassign.append value.toInline.isPlain)
  | call callee arguments =>
      have hchars : ∀ c ∈ '(' :: arguments.text ++ [')'], isRowChar c = true := by
        intro c hc
        rcases List.mem_append.mp hc with hc | hc
        · rcases List.mem_cons.mp hc with rfl | hc
          · rfl
          · exact arguments.isPlain.chars c hc
        · rw [List.mem_singleton.mp hc]
          rfl
      exact callee.isPlain.append ⟨hchars, arguments.isPlain.neutral.parens⟩
  | ret => exact isPlain_of_all (by decide)
  | ifThen condition | elsif condition | whileDo condition | caseOf condition =>
      exact isPlain_between condition (isPlain_of_all (by decide)) (isPlain_of_all (by decide))
  | otherwise => exact isPlain_of_all (by decide)
  | forTo counter range =>
      have hfor : IsPlain "FOR ".toList := isPlain_of_all (by decide)
      have hassign : IsPlain " := ".toList := isPlain_of_all (by decide)
      have hdo : IsPlain " DO".toList := isPlain_of_all (by decide)
      have hcounter := isPlain_of_wordChar (wordChar_of_identifier counter.identifier).2
      exact hfor.append (hcounter.append (hassign.append (range.isPlain.append hdo)))
  | label l =>
      have hcolon : IsPlain [':'] := isPlain_of_all rfl
      exact l.isPlain.append hcolon
  | ends kind => cases kind <;> exact isPlain_of_all (by decide)

theorem trim_text_ne_nil (row : Row) : trim row.text ≠ [] := by
  cases row with
  | assign target value =>
      have hcolon : ':' ∈ " := ".toList := by decide
      exact trim_ne_nil_of_mem (List.mem_append_right _ (List.mem_append_left _ hcolon)) rfl
  | call callee arguments =>
      exact trim_ne_nil_of_mem (List.mem_append_right _ (List.mem_cons_self ..)) (c := '(') rfl
  | label l => exact trim_ne_nil_of_mem (List.mem_append_right _ (List.mem_singleton_self ':')) rfl
  | ret | otherwise => exact trim_ne_nil_of_not_blank rfl
  | ifThen _ | elsif _ | forTo _ _ | whileDo _ | caseOf _ =>
      exact trim_ne_nil_of_mem (List.mem_cons_self ..) rfl
  | ends kind => cases kind <;> exact trim_ne_nil_of_not_blank rfl

end Row

/-! ## Lines -/

/-- The characters of a margin are white space inside a line. -/
theorem blank_of_margin {w : List Char} (hw : w.all isMarginChar = true) :
    ∀ c ∈ w, isBlank c = true := by
  intro c hc
  have h := List.all_eq_true.mp hw c hc
  simp only [isMarginChar, Bool.and_eq_true] at h
  exact h.1.1

theorem isPlain_of_margin {w : List Char} (hw : w.all isMarginChar = true) : IsPlain w :=
  isPlain_of_class (by decide) fun c hc => List.all_eq_true.mp hw c hc

theorem IsPlain.semicolon_not_mem {s : List Char} (hs : IsPlain s) : ';' ∉ s := by
  intro h
  exact absurd (hs.chars ';' h) (by decide)

namespace Margin

variable (m : Margin) {s : List Char}

/-- A text with a semicolon behind it. -/
theorem trimEnd_around_of_semicolon (h : m.semicolon = true) :
    trimEnd (m.around s) = m.before ++ s ++ [';'] := by
  have hline : m.around s = (m.before ++ s ++ [';']) ++ m.after := by
    rw [around, if_pos h]
    simp only [List.append_assoc]
  rw [hline, trimEnd_append_of_blank _ (blank_of_margin m.afterBlank)]
  exact trimEnd_concat _ rfl

theorem around_of_not_semicolon (h : ¬ m.semicolon = true) :
    m.around s = m.before ++ s ++ m.after := by
  rw [around, if_neg h, List.nil_append, List.append_assoc]

/-- **A line is one part, the text in it.** -/
theorem splitTopLevel_around (hs : IsPlain s) (hne : trim s ≠ []) :
    (splitTopLevel ';' (trimEnd (m.around s))).filter (!·.isEmpty) = [trim s] := by
  have hbefore := blank_of_margin m.beforeBlank
  have hplain : IsPlain (m.before ++ s) := (isPlain_of_margin m.beforeBlank).append hs
  -- the semicolon leaves an empty part behind it, which does not count
  by_cases hsemicolon : m.semicolon = true
  · have htrim : trim (m.before ++ s) = trim s := by
      have h := @trim_surrounded m.before [] hbefore (fun _ h => nomatch h) s
      rwa [List.append_nil] at h
    rw [m.trimEnd_around_of_semicolon hsemicolon, splitTopLevel_concat hplain.semicolon_not_mem
      hplain.neutral rfl (by rw [htrim]; exact hne), htrim]
  · have htrim : trim (trimEnd (m.before ++ s ++ m.after)) = trim s := by
      rw [trim_trimEnd, trim_surrounded hbefore (blank_of_margin m.afterBlank)]
    have hmem : ';' ∉ trimEnd (m.before ++ s ++ m.after) := by
      intro h
      obtain ⟨w, -, hline⟩ := exists_trimEnd_append (m.before ++ s ++ m.after)
      have hall := hplain.append (isPlain_of_margin m.afterBlank)
      exact hall.semicolon_not_mem (hline ▸ List.mem_append_left w h)
    rw [m.around_of_not_semicolon hsemicolon, splitTopLevel_of_not_mem hmem (by rw [htrim]; exact hne),
      htrim]

/-- A line is not blank. -/
theorem trimEnd_around_ne_nil (hne : trim s ≠ []) : trimEnd (m.around s) ≠ [] := by
  intro h
  refine hne (trim_eq_nil_iff.mpr ?_)
  intro c hc
  refine trimEnd_eq_nil_iff.mp h c ?_
  exact List.mem_append_right _ (List.mem_append_left _ hc)

/-- What a line is made of. -/
theorem chars_around (hs : IsPlain s) :
    ∀ c ∈ m.around s, isQuote c = false ∧ c ≠ '\n' ∧ c ≠ '\r' := by
  have hrow : ∀ c, isRowChar c = true → isQuote c = false ∧ c ≠ '\n' ∧ c ≠ '\r' := by
    intro c hc
    simp only [isRowChar, Bool.and_eq_true, Bool.not_eq_true', decide_eq_true_eq] at hc
    exact ⟨hc.1.1.1, hc.1.2, hc.2⟩
  intro c hc
  rcases List.mem_append.mp hc with hc | hc
  · exact hrow c ((isPlain_of_margin m.beforeBlank).chars c hc)
  · rcases List.mem_append.mp hc with hc | hc
    · exact hrow c (hs.chars c hc)
    · rcases List.mem_append.mp hc with hc | hc
      · have hsemicolon : c = ';' := by
          by_cases h : m.semicolon = true
          · rw [if_pos h] at hc
            exact List.mem_singleton.mp hc
          · rw [if_neg h] at hc
            exact nomatch hc
        rw [hsemicolon]
        decide
      · exact hrow c ((isPlain_of_margin m.afterBlank).chars c hc)

end Margin

/-! ## Sources -/

variable {layout : Nat → Margin} {n : Nat} {rows : List Row}

theorem exists_of_mem_printRows {l : List Char} (h : l ∈ printRows layout n rows) :
    ∃ (m : Margin) (row : Row), l = m.around row.text := by
  induction rows generalizing n with
  | nil => exact nomatch h
  | cons row rows ih =>
      rcases List.mem_cons.mp h with rfl | h
      · exact ⟨layout n, row, rfl⟩
      · exact ih h

/-- **The segments of the lines are the rows**, each on its line. -/
theorem segments_collapse_print (n : Nat) (rows : List Row) :
    segments (collapse false n (printRows layout n rows)) = rowSegments n rows := by
  induction rows generalizing n with
  | nil => rfl
  | cons row rows ih =>
      have hne := (layout n).trimEnd_around_ne_nil row.trim_text_ne_nil
      have hline := (layout n).splitTopLevel_around row.isPlain_text row.trim_text_ne_nil
      rw [printRows, collapse_cons, if_neg hne, segments, List.flatMap_cons, hline]
      show ⟨n, trim row.text⟩ :: segments (collapse false (n + 1) (printRows layout (n + 1) rows)) = _
      rw [ih, rowSegments]

/-- The lines of code of a printed program are its lines. -/
theorem codeLines_print (hne : rows ≠ [])
    (hcomment : ∀ l ∈ printRows layout n rows, ¬ "//".toList <:+: l ∧ ¬ "(*".toList <:+: l) :
    codeLines (unlines (printRows layout n rows)) = collapse false 1 (printRows layout n rows) := by
  have hchars : ∀ l ∈ printRows layout n rows, ∀ c ∈ l, isQuote c = false ∧ c ≠ '\n' ∧ c ≠ '\r' := by
    intro l hl
    obtain ⟨m, row, rfl⟩ := exists_of_mem_printRows hl
    exact m.chars_around row.isPlain_text
  have hkept : ∀ l ∈ printRows layout n rows, IsKept l := by
    intro l hl
    have hbare : IsBare l := ⟨fun c hc => (hchars l hl c hc).1, (hcomment l hl).1, (hcomment l hl).2⟩
    exact hbare.isKept
  have hprint : printRows layout n rows ≠ [] := by
    obtain ⟨row, more, rfl⟩ := List.exists_cons_of_ne_nil hne
    exact List.cons_ne_nil _ _
  have hbreak : ∀ l ∈ printRows layout n rows, '\n' ∉ l ∧ '\r' ∉ l := by
    intro l hl
    constructor
    · intro hc
      exact (hchars l hl '\n' hc).2.1 rfl
    · intro hc
      exact (hchars l hl '\r' hc).2.2 rfl
  exact codeLines_unlines hprint hbreak hkept

theorem segments_codeLines_print
    (hcomment : ∀ l ∈ printRows layout 1 rows, ¬ "//".toList <:+: l ∧ ¬ "(*".toList <:+: l) :
    segments (codeLines (unlines (printRows layout 1 rows))) = rowSegments 1 rows := by
  -- a source without lines is one empty line, and that has no segment
  by_cases hne : rows = []
  · subst hne
    rfl
  · rw [codeLines_print hne hcomment, segments_collapse_print]

/-- **The body of a printed program is the tree's.** No line of it may hold what opens a comment;
    beyond that the layout is free. -/
theorem Body.ofLines_print (unit : String) (layout : Nat → Margin) (program : Block)
    (hcomment : ∀ l ∈ program.print layout, ¬ "//".toList <:+: l ∧ ¬ "(*".toList <:+: l) :
    Body.ofLines unit (codeLines (unlines (program.print layout))) 0
        (codeLines (unlines (program.print layout))).length
      = { root := { Node.leaf .root 0 unit with children := program.nodes 1 unit }
          diagnostics := [] } := by
  have hpath : (BlockStack.start unit).path = unit := String.append_empty
  have hrun := program.reads 1 (.start unit) []
  rw [List.append_nil, hpath] at hrun
  rw [Body.ofLines, slice_zero_length, Block.print, segments_codeLines_print hcomment, Body.ofSegments, hrun]
  show Body.mk { Node.leaf .root 0 unit with children := program.nodes 1 unit ++ [] } [] = _
  rw [List.append_nil]

/-- A branch with a loop in it, inside the branches of an `IF`. -/
def nestedBlocks : Block :=
  let a : Phrase := ⟨⟨"a > (0)".toList, by decide, by decide⟩, by decide, by decide⟩
  let x : Reference := ⟨"fb.x".toList, by decide, by decide, by decide⟩
  let i : Counter := ⟨"i".toList, by decide⟩
  let two : BranchLabel := ⟨"1, 2".toList, by decide, by decide⟩
  let assign : Stmt := .assign x a
  let call : Stmt := .call x a.toInline
  let loop : Stmt := .forTo i ⟨a, a, some a⟩ (.cons assign .nil)
  let cases : Stmt := .caseOf a (.label two (.cons loop .nil) (.otherwise (.cons call .nil)))
  .cons (.ifThen a (.cons cases .nil) (.elsif a (.cons .ret .nil) .none)) (.cons assign .nil)

/-- A semicolon behind every statement that is no block. -/
def endedStatements (n : Nat) : Margin := .tight ([5, 8, 11, 13].contains n)

/-- The blocks around every statement, read back from the lines. -/
theorem ofLines_print_nestedBlocks :
    nestedBlocks.print endedStatements
      = ["IF a > (0) THEN", "CASE a > (0) OF", "1, 2:",
          "FOR i := a > (0) TO a > (0) BY a > (0) DO", "fb.x := a > (0);", "END_FOR", "ELSE",
          "fb.x(a > (0));", "END_CASE", "ELSIF a > (0) THEN", "RETURN;", "END_IF",
          "fb.x := a > (0);"].map String.toList ∧
      (∀ l ∈ nestedBlocks.print endedStatements, ¬ "//".toList <:+: l ∧ ¬ "(*".toList <:+: l) ∧
      ((Body.ofLines "Main" (codeLines (unlines (nestedBlocks.print endedStatements))) 0
          (codeLines (unlines (nestedBlocks.print endedStatements))).length).root.children.map
        fun n => (n.kind, n.line, n.scope))
      = [(.ifStatement, 1, "Main"), (.caseStatement, 2, "Main/IF@1"),
          (.forLoop, 4, "Main/IF@1/CASE@2"), (.assignment, 5, "Main/IF@1/CASE@2/FOR@4"),
          (.functionCall, 8, "Main/IF@1/CASE@2"), (.returnStatement, 11, "Main/IF@1"),
          (.assignment, 13, "Main")] := by
  have hcomment : ∀ l ∈ nestedBlocks.print endedStatements,
      ¬ "//".toList <:+: l ∧ ¬ "(*".toList <:+: l := by decide +kernel
  refine ⟨by decide +kernel, hcomment, ?_⟩
  rw [Body.ofLines_print "Main" endedStatements nestedBlocks hcomment]
  decide

end StLint.Statement

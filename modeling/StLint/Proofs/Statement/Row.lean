import StLint.Proofs.Statement.Header
import StLint.Proofs.Statement.Program
import StLint.Proofs.Statement.Step

/-!
# Reading one row

The reader turns the text of a row into the nodes of the row, without a diagnostic, and opens or
closes the block that the row opens or closes. A label is the exception: it is taken for one **only
directly inside a `CASE`**.

* `readStatement_between`, `readStatement_forTo` — headers.
* `readPlain_assign`, `readPlain_call` — statements without a keyword.
* `readStatement_label` — a label directly inside a `CASE`.
* `Row.after`, `readStatement_row` — the open blocks after a row, and the reader on its text.
-/

namespace StLint.Statement

open Text Text.Pattern
open Expression (Place)

/-! ## The words of the language -/

theorem isKeyword_of_mem_endWords {word : String} (h : word ∈ endWords) :
    IsKeyword word.toList := by
  have hall : (endWords.all fun w => !w.toList.isEmpty && (upper w.toList).all isWordChar) = true := by
    decide
  exact isKeyword_of_all (List.all_eq_true.mp hall word h)

/-- A word that leads a statement is reserved. -/
theorem lead_of_not_reserved {s : List Char} (h : Language.isReserved s = false) :
    Lead.ofWord s = .plain := by
  have hall : (leads.all fun k => Language.reservedWords.contains k.1) = true := by decide
  rw [Lead.ofWord]
  cases hfind : leads.find? fun k => k.1.toList == upper s with
  | none => rfl
  | some k =>
      have hmem := List.contains_iff_mem.mp (List.all_eq_true.mp hall k (List.mem_of_find?_eq_some hfind))
      have hk := List.find?_some hfind
      have hreserved : Language.isReserved s = true := List.any_eq_true.mpr ⟨k.1, hmem, hk⟩
      rw [h] at hreserved
      exact nomatch hreserved

/-! ## Expressions -/

namespace Phrase

variable (p : Phrase)

theorem trim_ne_nil : trim p.text ≠ [] := trim_ne_nil_of_not_blank p.notBlank

theorem containsWord_eq_false {word : String} (h : word ∈ endWords) :
    containsWord word p.text = false :=
  Bool.eq_false_iff.mpr (List.any_eq_false.mp p.noEndWord word h)

end Phrase

theorem Inline.isInlineChar_of_mem (x : Inline) {c : Char} (h : c ∈ x.text) :
    isInlineChar c = true := List.all_eq_true.mp x.allowed c h

/-- The characters that no expression holds. -/
theorem Inline.not_mem (x : Inline) {c : Char} (hc : isInlineChar c = false) : c ∉ x.text := by
  intro h
  have hallowed := x.isInlineChar_of_mem h
  rw [hc] at hallowed
  exact nomatch hallowed

/-- The bounds of a loop are read without the white space around them. -/
theorem Phrase.isBound (p : Phrase) : IsBound (trim p.text) where
  trim_eq := trim_trim p.text
  ne_nil := p.trim_ne_nil
  not_newline := by
    intro h
    exact p.toInline.not_mem (c := '\n') rfl (mem_of_mem_trim h)
  not_to := containsWord_trim isHeaderWord_to.isKeyword (p.containsWord_eq_false (by decide))
  not_by := containsWord_trim isHeaderWord_by.isKeyword (p.containsWord_eq_false (by decide))
  not_do := containsWord_trim isHeaderWord_do.isKeyword (p.containsWord_eq_false (by decide))

/-! ## Labels -/

theorem dropBranchLabel?_of_not_mem {s : List Char} (h : ':' ∉ s) : dropBranchLabel? s = none := by
  rw [dropBranchLabel?, dropWhile_ne_of_not_mem h]

/-- The colon of an assignment ends no label. -/
theorem dropBranchLabel?_assign {s r : List Char} (h : ':' ∉ s) :
    dropBranchLabel? (s ++ (":=".toList ++ r)) = none := by
  have hdrop : (s ++ (":=".toList ++ r)).dropWhile (· ≠ ':') = ':' :: '=' :: r :=
    dropWhile_ne_append h ('=' :: r)
  rw [dropBranchLabel?, hdrop]
  rfl

/-- A label with nothing behind its colon. -/
theorem dropBranchLabel?_label {s : List Char} (hlabel : s.all isLabelChar = true)
    (hblank : trim s ≠ []) : dropBranchLabel? (s ++ [':']) = some [] := by
  have hcolon : ':' ∉ s := by
    intro h
    exact absurd (List.all_eq_true.mp hlabel ':' h) (by decide)
  have htrim : (trim s).all isLabelChar = true := by
    rw [List.all_eq_true] at hlabel ⊢
    intro c hc
    exact hlabel c (mem_of_mem_trim hc)
  have hvalid : (!(trim s).isEmpty && (trim s).all isLabelChar) = true := by
    rw [htrim, Bool.and_true, Bool.not_eq_true', List.isEmpty_eq_false_iff]
    exact hblank
  rw [dropBranchLabel?, dropWhile_ne_append hcolon, takeWhile_ne_append hcolon]
  dsimp only
  rw [if_neg (by simp), if_pos hvalid]
  rfl

/-! ## Headers -/

section

variable {later : List Segment} {n : Nat} {stack : BlockStack} {keyword word : String} (p : Phrase)

/-- A text in which no label is found is read whole. -/
theorem statementText_of_no_label {s t : List Char} (ht : trim s = t)
    (h : dropBranchLabel? t = none) : statementText stack s = t := by
  rw [statementText, ht, h, Option.getD_none, ite_self]

theorem readStatement_nil : readStatement later n stack [] = (.none, stack) :=
  readStatement_blank (statementText_of_no_label rfl rfl)

theorem trim_between (hk : IsKeyword keyword.toList) (hw : IsKeyword word.toList) :
    trim (Row.between keyword p word) = Row.between keyword p word := trim_keyword_word hk hw p.text

theorem not_wordChar_colon {s : List Char} (h : ∀ c ∈ s, isWordChar c = true) : ':' ∉ s := by
  intro hc
  exact absurd (h ':' hc) (by decide)

theorem colon_not_mem_between (hk : IsKeyword keyword.toList) (hw : IsKeyword word.toList) :
    ':' ∉ Row.between keyword p word := by
  intro h
  rcases List.mem_append.mp h with h | h
  · exact not_wordChar_colon hk.wordChar h
  · rcases List.mem_cons.mp h with h | h
    · exact absurd h (by decide)
    · rcases List.mem_append.mp h with h | h
      · exact p.toInline.not_mem rfl h
      · rcases List.mem_cons.mp h with h | h
        · exact absurd h (by decide)
        · exact not_wordChar_colon hw.wordChar h

/-- A header is read whole, wherever it stands. -/
theorem statementText_between (hk : IsKeyword keyword.toList) (hw : IsKeyword word.toList) :
    statementText stack (trim (Row.between keyword p word)) = Row.between keyword p word := by
  refine statementText_of_no_label ?_ (dropBranchLabel?_of_not_mem (colon_not_mem_between p hk hw))
  rw [trim_trim, trim_between p hk hw]

theorem leadingWord_between (hk : IsKeyword keyword.toList) :
    leadingWord (Row.between keyword p word) = keyword.toList := leadingWord_append hk.wordChar rfl

theorem splitHeader_between (hk : IsKeyword keyword.toList) (hw : word ∈ endWords) :
    splitHeader word (afterWord (Row.between keyword p word)) = (trim p.text, []) :=
  (splitHeader_afterWord hk (isKeyword_of_mem_endWords hw) p.text).trans
    (splitHeader_append_blank_word (isKeyword_of_mem_endWords hw) (p.containsWord_eq_false hw))

theorem headerNode_trim (place : Place) (kind : NodeKind) :
    headerNode place kind (trim p.text) = Row.guarded place kind p := by
  have hne : ¬ (trim p.text).isEmpty = true := fun h => p.trim_ne_nil (List.isEmpty_iff.mp h)
  rw [headerNode, if_neg hne]
  rfl

/-- **A header with a condition** emits its node and opens its block. -/
theorem readStatement_between {kind : BlockKind} {nodeKind : NodeKind}
    (hk : IsKeyword keyword.toList) (hw : word ∈ endWords)
    (hlead : Lead.ofWord keyword.toList = .opens kind)
    (hopen : ∀ later place s, openBlock later place kind s
      = (headerNode place nodeKind (splitHeader word (afterWord s)).1,
          (splitHeader word (afterWord s)).2)) :
    readStatement later n stack (trim (Row.between keyword p word))
      = (⟨[Row.guarded ⟨n, stack.path⟩ nodeKind p], []⟩, stack.push kind n) := by
  have htext := @statementText_between stack keyword word p hk (isKeyword_of_mem_endWords hw)
  have hkind : Lead.ofWord (leadingWord (statementText stack (trim (Row.between keyword p word))))
      = .opens kind := by
    rw [htext, leadingWord_between p hk, hlead]
  rw [readStatement_opens hkind, htext, hopen, splitHeader_between p hk hw, headerNode_trim,
    readStatement_nil]
  rfl

/-- **A branch with a condition** leaves no node. -/
theorem readStatement_elsif :
    readStatement later n stack (trim (Row.between "ELSIF" p "THEN")) = (.none, stack) := by
  have hk : IsKeyword "ELSIF".toList := isKeyword_of_all (by decide)
  have hw : "THEN" ∈ endWords := by decide
  have htext := @statementText_between stack "ELSIF" "THEN" p hk (isKeyword_of_mem_endWords hw)
  have hlead : Lead.ofWord (leadingWord (statementText stack (trim (Row.between "ELSIF" p "THEN"))))
      = .branch := by
    rw [htext, leadingWord_between p hk]
    decide
  rw [readStatement_branch hlead, htext, splitHeader_between p hk hw, readStatement_nil]

/-! ## Single words -/

theorem trim_keyword {w : List Char} (hw : IsKeyword w) : trim w = w := by
  have hstart : StartsSolid w := by
    have h := startsSolid_keyword hw []
    rwa [List.append_nil] at h
  rw [trim, trimStart_of_startsSolid hstart]
  exact trimEnd_append_word [] hw

theorem statementText_keyword {w : List Char} (hw : IsKeyword w) :
    statementText stack (trim w) = w := by
  refine statementText_of_no_label ?_ (dropBranchLabel?_of_not_mem (not_wordChar_colon hw.wordChar))
  rw [trim_trim, trim_keyword hw]

theorem leadingWord_keyword {w : List Char} (hw : IsKeyword w) : leadingWord w = w := by
  have h := @leadingWord_append w [] hw.wordChar rfl
  rwa [List.append_nil] at h

theorem readStatement_return :
    readStatement later n stack (trim "RETURN".toList)
      = (⟨[(⟨n, stack.path⟩ : Place).node .returnStatement], []⟩, stack) := by
  have hw : IsKeyword "RETURN".toList := isKeyword_of_all (by decide)
  have hlead : Lead.ofWord (leadingWord (statementText stack (trim "RETURN".toList))) = .returns := by
    rw [statementText_keyword hw, leadingWord_keyword hw]
    decide
  rw [readStatement_returns hlead]
  rfl

theorem readStatement_else :
    readStatement later n stack (trim "ELSE".toList) = (.none, stack) := by
  have hw : IsKeyword "ELSE".toList := isKeyword_of_all (by decide)
  have hlead : Lead.ofWord (leadingWord (statementText stack (trim "ELSE".toList))) = .otherwise := by
    rw [statementText_keyword hw, leadingWord_keyword hw]
    decide
  have hafter : afterWord "ELSE".toList = [] := by
    rw [afterWord, leadingWord_keyword hw]
    rfl
  rw [readStatement_otherwise hlead, statementText_keyword hw, hafter, readStatement_nil]

/-- **A closing word** closes the innermost block of its kind. -/
theorem readStatement_closer (kind : BlockKind) :
    readStatement later n stack (trim kind.closer.toList) = (.none, stack.close kind) := by
  have hw : IsKeyword kind.closer.toList := by
    cases kind <;> exact isKeyword_of_all (by decide)
  have hlead : Lead.ofWord (leadingWord (statementText stack (trim kind.closer.toList)))
      = .closes kind := by
    rw [statementText_keyword hw, leadingWord_keyword hw]
    cases kind <;> decide
  exact readStatement_closes hlead

/-- **A label** directly inside a `CASE` leaves nothing. -/
theorem readStatement_label (l : BranchLabel) (hcase : stack.innermost? = some .caseBlock) :
    readStatement later n stack (trim (l.text ++ [':'])) = (.none, stack) := by
  refine readStatement_blank ?_
  have hne : trim (trimStart l.text) ≠ [] := by
    rw [trim_trimStart]
    exact trim_ne_nil_of_not_blank l.notBlank
  have hstart : trimStart l.text ≠ [] := by
    intro h
    rw [h] at hne
    exact hne rfl
  -- the white space before a label goes, and the colon keeps the rest
  have htrim : trim (trim (l.text ++ [':'])) = trimStart l.text ++ [':'] := by
    rw [trim_trim, trim, trimStart_append_of_ne_nil hstart]
    exact trimEnd_concat _ rfl
  have hallowed : (trimStart l.text).all isLabelChar = true := by
    rw [List.all_eq_true]
    intro c hc
    exact List.all_eq_true.mp l.allowed c ((List.dropWhile_sublist isBlank).subset hc)
  have hlabel := dropBranchLabel?_label hallowed hne
  rw [statementText, htrim, if_pos hcase, hlabel, Option.getD_some]

/-! ## Loops with a counter -/

theorem Range.readThen_text (r : Range) :
    Bounds.readThen loopBody? (' ' :: (r.text ++ " DO".toList)) = some (r.bounds, []) := by
  obtain ⟨first, last, step⟩ := r
  cases step with
  | none =>
      have h := readThen_do first.isBound last.isBound
      simpa only [Range.text, Range.bounds, Option.map_none, List.append_assoc, List.append_nil]
        using h
  | some step =>
      have h := readThen_by first.isBound last.isBound step.isBound
      simpa only [Range.text, Range.bounds, Option.map_some, List.append_assoc] using h

/-- The text of a loop header, cut at its keyword and at its assignment. -/
theorem text_forTo (counter : Counter) (range : Range) :
    (Row.forTo counter range).text
      = "FOR".toList ++ (' ' :: (counter.text ++ (" :=".toList ++
          (' ' :: (range.text ++ " DO".toList))))) := rfl

/-- A loop has no label: its first colon is the one of its assignment. -/
theorem dropBranchLabel?_loop {v : List Char} (hv : IsLoopVariable v) (r : List Char) :
    dropBranchLabel? ("FOR ".toList ++ (v ++ (" := ".toList ++ r))) = none := by
  have hcolon : ':' ∉ "FOR ".toList ++ (v ++ [' ']) := by
    obtain ⟨c, t, rfl, hc, ht⟩ := hv
    intro h
    simp only [List.mem_append, List.mem_cons] at h
    rcases h with h | (rfl | h) | h
    · exact absurd h (by decide)
    · exact absurd hc (by decide)
    · exact absurd (ht ':' h) (by decide)
    · exact absurd h (by decide)
  have h := @dropBranchLabel?_assign _ (' ' :: r) hcolon
  simp only [List.append_assoc] at h
  exact h

theorem statementText_forTo (counter : Counter) (range : Range) :
    statementText stack (trim (Row.forTo counter range).text)
      = (Row.forTo counter range).text := by
  have hfor : IsKeyword "FOR".toList := isKeyword_of_all (by decide)
  have hdo : IsKeyword "DO".toList := isKeyword_of_all (by decide)
  have htrim : trim (Row.forTo counter range).text = (Row.forTo counter range).text := by
    have hstart : StartsSolid (Row.forTo counter range).text := startsSolid_keyword hfor _
    have hend := trimEnd_append_word ("FOR ".toList ++ (counter.text ++ (" := ".toList ++
      (range.text ++ [' '])))) hdo
    rw [trim, trimStart_of_startsSolid hstart]
    simp only [List.append_assoc] at hend
    exact hend
  refine statementText_of_no_label ?_ ?_
  · rw [trim_trim, htrim]
  · exact dropBranchLabel?_loop (isLoopVariable_of_identifier counter.identifier) _

/-- **A loop with a counter** emits its node with its bounds and opens its block. -/
theorem readStatement_forTo (counter : Counter) (range : Range) :
    readStatement later n stack (trim (Row.forTo counter range).text)
      = (⟨(Row.forTo counter range).nodes ⟨n, stack.path⟩, []⟩, stack.push .forBlock n) := by
  have hfor : IsKeyword "FOR".toList := isKeyword_of_all (by decide)
  have htext := @statementText_forTo stack counter range
  have hword : leadingWord (Row.forTo counter range).text = "FOR".toList :=
    leadingWord_append hfor.wordChar rfl
  have hlead : Lead.ofWord (leadingWord (statementText stack (trim (Row.forTo counter range).text)))
      = .opens .forBlock := by
    rw [htext, hword]
    decide
  have hdrop : (Row.forTo counter range).text.drop (leadingWord (Row.forTo counter range).text).length
      = ' ' :: (counter.text ++ (" :=".toList ++ (' ' :: (range.text ++ " DO".toList)))) := by
    rw [hword, text_forTo, List.drop_left]
  have hopen : openBlock later ⟨n, stack.path⟩ .forBlock (Row.forTo counter range).text
      = (⟨.forLoop, some (String.ofList counter.text), some (String.ofList range.bounds.text),
          [Expression.parse ⟨n, stack.path⟩ counter.text], n, stack.path⟩, []) := by
    show forNode ⟨n, stack.path⟩ _ _ = _
    rw [hdrop, forNode, ForHeader.read?_append (isLoopVariable_of_identifier counter.identifier)
      range.readThen_text]
    rfl
  rw [readStatement_opens hlead, htext, hopen, readStatement_nil]
  rfl

/-! ## Assignments and calls -/

namespace Reference

variable (x : Reference)

theorem not_mem {c : Char} (hc : isWordChar c = false) (hdot : c ≠ '.') : c ∉ x.text := by
  intro h
  rcases wordChar_of_qualified x.qualified c h with hw | hd
  · rw [hc] at hw
    exact nomatch hw
  · exact hdot hd

theorem isFlat {c : Char} (h : c ∈ x.text) : Text.isFlat c = true := by
  rcases wordChar_of_qualified x.qualified c h with hw | rfl
  · exact isFlat_of_wordChar hw
  · rfl

theorem not_blank {c : Char} (h : c ∈ x.text) : isBlank c = false := by
  rcases wordChar_of_qualified x.qualified c h with hw | rfl
  · exact not_blank_of_wordChar hw
  · rfl

theorem startsSolid (r : List Char) : StartsSolid (x.text ++ r) :=
  startsSolid_of_not_blank (ne_nil_of_qualified x.qualified) (fun _ hc => x.not_blank hc) r

theorem trimEnd_eq : trimEnd x.text = x.text := trimEnd_eq_self fun _ hc => x.not_blank hc

theorem trim_eq : trim x.text = x.text := trim_eq_self fun _ hc => x.not_blank hc

/-- A name leads a statement with its first component, which is no keyword. -/
theorem lead_append {r : List Char} (hr : r.head?.any isWordChar = false) :
    Lead.ofWord (leadingWord (x.text ++ r)) = .plain := by
  rw [leadingWord_qualified_append x.qualified hr]
  exact lead_of_not_reserved x.firstNotReserved

end Reference

theorem stripStatementEnd_of_not_mem {s : List Char} (h : ';' ∉ s) : stripStatementEnd s = trim s := by
  have hdrop : dropSuffix? [';'] (trim s) = none := by
    rw [dropSuffix?, if_neg]
    intro hsuffix
    refine h (mem_of_mem_trim ?_)
    exact (List.isSuffixOf_iff_suffix.mp hsuffix).subset (List.mem_singleton_self ';')
  rw [stripStatementEnd, hdrop, Option.getD_none, trimEnd_trim]

theorem trim_assign (target : Reference) (value : Phrase) :
    trim (Row.assign target value).text
      = target.text ++ (" := ".toList ++ trimEnd value.text) := by
  have hvalue : trimEnd value.text ≠ [] := by
    intro h
    refine value.trim_ne_nil (trim_eq_nil_iff.mpr ?_)
    exact trimEnd_eq_nil_iff.mp h
  -- only the value can have white space at an end
  have hend := trimEnd_append_of_ne_nil (target.text ++ " := ".toList) hvalue
  rw [List.append_assoc, List.append_assoc] at hend
  rw [Row.text_assign, trim, trimStart_of_startsSolid (target.startsSolid _), hend]

theorem colon_not_mem_target (target : Reference) : ':' ∉ target.text ++ [' '] := by
  intro h
  rcases List.mem_append.mp h with h | h
  · exact target.not_mem rfl (by decide) h
  · exact absurd h (by decide)

/-- The value of an assignment, with the blank before it. -/
theorem stripStatementEnd_value (value : Phrase) :
    stripStatementEnd (' ' :: trimEnd value.text) = trim value.text := by
  have hend : ';' ∉ ' ' :: trimEnd value.text := by
    intro h
    rcases List.mem_cons.mp h with h | h
    · exact absurd h (by decide)
    · obtain ⟨w, -, hs⟩ := exists_trimEnd_append value.text
      exact value.toInline.not_mem (c := ';') rfl (hs ▸ List.mem_append_left w h)
  rw [stripStatementEnd_of_not_mem hend]
  show trimEnd (trimStart ([' '] ++ trimEnd value.text)) = _
  rw [trimStart_append_of_blank blank_space]
  exact trim_trimEnd value.text

/-- An assignment is cut at its colon, the first character that is no part of the target. -/
theorem readPlain_assign (place : Place) (target : Reference) (value : Phrase) :
    readPlain place (target.text ++ [' '] ++ (":=".toList ++ (' ' :: trimEnd value.text)))
      = ⟨(Row.assign target value).nodes place, []⟩ := by
  have hflat : ∀ c ∈ target.text ++ [' '], isFlat c = true := by
    intro c hc
    rcases List.mem_append.mp hc with hc | hc
    · exact target.isFlat hc
    · rw [List.mem_singleton.mp hc]
      rfl
  have hcut : cutTopLevel? ":="
      (target.text ++ [' '] ++ (":=".toList ++ (' ' :: trimEnd value.text)))
        = some (target.text ++ [' '], ' ' :: trimEnd value.text) :=
    @cutTopLevel?_append ":=" ':' ['='] _ rfl hflat rfl (colon_not_mem_target target) _
  have htarget : trim (target.text ++ [' ']) = target.text := by
    rw [trim_append_of_blank _ blank_space, target.trim_eq]
  rw [readPlain, hcut]
  dsimp only
  rw [htarget, stripStatementEnd_value]
  rfl

/-- **An assignment** emits its node. -/
theorem readStatement_assign (target : Reference) (value : Phrase) :
    readStatement later n stack (trim (Row.assign target value).text)
      = (⟨(Row.assign target value).nodes ⟨n, stack.path⟩, []⟩, stack) := by
  have htext : statementText stack (trim (Row.assign target value).text)
      = target.text ++ [' '] ++ (":=".toList ++ (' ' :: trimEnd value.text)) := by
    refine statementText_of_no_label ?_ (dropBranchLabel?_assign (colon_not_mem_target target))
    rw [trim_trim, trim_assign, List.append_assoc]
    rfl
  have hlead : Lead.ofWord (leadingWord (statementText stack (trim (Row.assign target value).text)))
      = .plain := by
    rw [htext, List.append_assoc]
    exact target.lead_append rfl
  have hne : statementText stack (trim (Row.assign target value).text) ≠ [] := by
    rw [htext]
    simp
  rw [readStatement_plain hne hlead, htext, readPlain_assign]

theorem trim_call (callee : Reference) (arguments : Inline) :
    trim (Row.call callee arguments).text = (Row.call callee arguments).text := by
  have hend : trimEnd (Row.call callee arguments).text = (Row.call callee arguments).text := by
    have h := trimEnd_concat (callee.text ++ '(' :: arguments.text) (c := ')') rfl
    rw [List.append_assoc] at h
    exact h
  rw [trim, Row.text_call, trimStart_of_startsSolid (callee.startsSolid _)]
  exact hend

theorem not_mem_call (callee : Reference) (arguments : Inline) {c : Char}
    (hc : isInlineChar c = false) (hword : isWordChar c = false) (hdot : c ≠ '.')
    (hparen : c ≠ '(' ∧ c ≠ ')') : c ∉ (Row.call callee arguments).text := by
  intro h
  rcases List.mem_append.mp h with h | h
  · exact callee.not_mem hword hdot h
  · rcases List.mem_cons.mp h with h | h
    · exact hparen.1 h
    · rcases List.mem_append.mp h with h | h
      · exact arguments.not_mem hc h
      · exact hparen.2 (List.mem_singleton.mp h)

/-- A call is a name and what stands between its brackets. -/
theorem splitCall?_text (callee : Reference) (arguments : Inline) :
    splitCall? (Row.call callee arguments).text = some (callee.text, arguments.text) := by
  have hparen : '(' ∉ callee.text := callee.not_mem rfl (by decide)
  have hquotes : ∀ c ∈ arguments.text, isQuote c = false := by
    intro c hc
    have h := arguments.isInlineChar_of_mem hc
    simp only [isInlineChar, Bool.and_eq_true, Bool.not_eq_true'] at h
    exact h.1.1.1.1
  have hround : balancedFrom '(' ')' 0 arguments.text = true := by
    have h := arguments.balanced
    rw [isBalanced, Bool.and_eq_true] at h
    exact h.1
  -- the first bracket is behind the name, and the one that closes it is the last character
  rw [splitCall?, trim_call]
  rw [Row.text_call, dropWhile_ne_append hparen, takeWhile_ne_append hparen, callee.trimEnd_eq]
  dsimp only
  rw [if_pos callee.qualified, closingParen?_append hquotes hround]

/-- A call holds no colon, so that it is no assignment, and no semicolon. -/
theorem readPlain_call (place : Place) (callee : Reference) (arguments : Inline) :
    readPlain place (Row.call callee arguments).text
      = ⟨(Row.call callee arguments).nodes place, []⟩ := by
  have hcolon : ':' ∉ (Row.call callee arguments).text :=
    not_mem_call callee arguments rfl rfl (by decide) (by decide)
  have hend : ';' ∉ (Row.call callee arguments).text :=
    not_mem_call callee arguments rfl rfl (by decide) (by decide)
  have hcut : cutTopLevel? ":=" (Row.call callee arguments).text = none := by
    have hfind : findTopLevel? ":=" (Row.call callee arguments).text = none :=
      @findTopLevelFrom?_of_not_mem ':' ['='] _ hcolon .start
    rw [cutTopLevel?, hfind]
    rfl
  have hcall : Expression.splitUnitCall? (Row.call callee arguments).text
      = some (callee.text, arguments.text) := by
    rw [Expression.splitUnitCall?, splitCall?_text, Option.filter_some, if_pos]
    rw [callee.notReserved]
    rfl
  rw [readPlain, hcut]
  dsimp only
  rw [stripStatementEnd_of_not_mem hend, trim_call, hcall]
  rfl

/-- **A call** emits its node with its arguments. -/
theorem readStatement_call (callee : Reference) (arguments : Inline) :
    readStatement later n stack (trim (Row.call callee arguments).text)
      = (⟨(Row.call callee arguments).nodes ⟨n, stack.path⟩, []⟩, stack) := by
  have htext : statementText stack (trim (Row.call callee arguments).text)
      = (Row.call callee arguments).text := by
    refine statementText_of_no_label ?_ (dropBranchLabel?_of_not_mem ?_)
    · rw [trim_trim, trim_call]
    · exact not_mem_call callee arguments rfl rfl (by decide) (by decide)
  have hlead : Lead.ofWord (leadingWord (statementText stack (trim (Row.call callee arguments).text)))
      = .plain := by
    rw [htext]
    exact callee.lead_append rfl
  have hne : statementText stack (trim (Row.call callee arguments).text) ≠ [] := by
    rw [htext, Row.text_call]
    simp
  rw [readStatement_plain hne hlead, htext, readPlain_call]

/-! ## Every row -/

/-- The open blocks after a row on line `n`. -/
def Row.after (n : Nat) (stack : BlockStack) : Row → BlockStack
  | ifThen _ => stack.push .ifBlock n
  | forTo _ _ => stack.push .forBlock n
  | whileDo _ => stack.push .whileBlock n
  | caseOf _ => stack.push .caseBlock n
  | ends kind => stack.close kind
  | assign _ _ | call _ _ | ret | elsif _ | otherwise | label _ => stack

/-- **Every row is read as what it stands for**, a label only directly inside a `CASE`. -/
theorem readStatement_row (row : Row)
    (hlabel : ∀ l, row = .label l → stack.innermost? = some .caseBlock) :
    readStatement later n stack (trim row.text)
      = (⟨row.nodes ⟨n, stack.path⟩, []⟩, row.after n stack) := by
  cases row with
  | assign target value => exact readStatement_assign target value
  | call callee arguments => exact readStatement_call callee arguments
  | ret => exact readStatement_return
  | ifThen condition =>
      exact readStatement_between condition (isKeyword_of_all (by decide)) (by decide) (by decide)
        fun _ _ _ => rfl
  | elsif condition => exact readStatement_elsif condition
  | otherwise => exact readStatement_else
  | forTo counter range => exact readStatement_forTo counter range
  | whileDo condition =>
      exact readStatement_between condition (isKeyword_of_all (by decide)) (by decide) (by decide)
        fun _ _ _ => rfl
  | caseOf selector =>
      exact readStatement_between selector (isKeyword_of_all (by decide)) (by decide) (by decide)
        fun _ _ _ => rfl
  | label l => exact readStatement_label l (hlabel l rfl)
  | ends kind => exact readStatement_closer kind

end

end StLint.Statement

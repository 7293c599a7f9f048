import StLint.Proofs.Source.Line
import StLint.Proofs.Source.Removal
import StLint.Proofs.Statement.Row
import StLint.Proofs.Text.Occurrence
import StLint.Proofs.Text.Search

/-!
# Headers with a condition

The header of an `IF`, a `WHILE` or a `CASE` is cut at the **first** place where its closing word
stands, and the search for the word does not know where a string is. So the condition is read as a
whole exactly if the word stands nowhere in it, and not inside a string either.

* `splitHeader_of_isLeast` — where a header is cut.
* `ConditionHeader`, `conditionHeaders` — the three blocks.
* `ConditionHeader.body_eq` — the body of one header.
* `ConditionHeader.readsWhole_iff` — the conditions that are read as a whole.
* `exists_cut_string` — a string that cuts its condition.
-/

namespace StLint.Statement

open Text Source
open Expression (Place)

/-! ## The cut -/

/-- **A header is cut at the first place of its word**, wherever that place is. -/
theorem splitHeader_of_isLeast {word : String} {c : List Char} {i : Nat}
    (hw : IsKeyword word.toList) (hi : IsLeast {j | IsWordAt word c j} i) :
    splitHeader word (c ++ ' ' :: word.toList)
      = (trim (c.take i), trim (c.drop (i + word.length) ++ ' ' :: word.toList)) := by
  have hend := IsWordAt.add_length_le hw.1 hi.1
  rw [splitHeader, findWord?_append_of_isLeast hw rfl hi]
  show (trim ((c ++ ' ' :: word.toList).take i), trim ((c ++ ' ' :: word.toList).drop (i + word.length)))
    = _
  rw [List.take_append_of_le_length (by omega), List.drop_append_of_le_length hend]

/-- What is cut off shortens the condition. -/
theorem length_trim_lt {k : Char} (hk : isBlank k = false) (x y : List Char) :
    (trim x).length < (trim (x ++ k :: y)).length := by
  have hsolid : trimStart (k :: y) = k :: y := trimStart_of_not_blank hk y
  have hstart : trimStart (x ++ k :: y) = trimStart x ++ k :: y := by
    by_cases hx : trimStart x = []
    · rw [hx, trimStart_append_of_blank (trimStart_eq_nil_iff.mp hx), hsolid]
      rfl
    · exact trimStart_append_of_ne_nil hx _
  have hne : trimEnd (k :: y) ≠ [] := by
    intro h
    rw [trimEnd_eq_nil_iff.mp h k (List.mem_cons_self ..)] at hk
    exact nomatch hk
  have hpos := List.length_pos_iff.mpr hne
  have hle : (trim x).length ≤ (trimStart x).length := length_trimEnd_le (trimStart x)
  rw [trim, trim, hstart, trimEnd_append_of_ne_nil _ hne, List.length_append]
  rw [trim] at hle
  omega

theorem trim_take_ne {word : String} {c : List Char} {i : Nat} (hw : IsKeyword word.toList)
    (hi : IsWordAt word c i) : trim (c.take i) ≠ trim c := by
  obtain ⟨t, rest, hdrop, ht, -, -⟩ := wordAt_iff.mp (wordAt_drop_iff.mpr hi)
  cases t with
  | nil => exact absurd (List.map_eq_nil_iff.mp ht.symm) hw.1
  | cons k t =>
      have hk := not_blank_of_wordChar (wordChar_of_upper_eq hw ht k (List.mem_cons_self ..))
      have hlt := length_trim_lt hk (c.take i) (t ++ rest)
      rw [← List.cons_append, ← hdrop, List.take_append_drop] at hlt
      intro h
      rw [h] at hlt
      exact Nat.lt_irrefl _ hlt

/-! ## The three headers -/

/-- A block that opens with a condition or selector, which a word ends. -/
structure ConditionHeader where
  block : BlockKind
  word : String
  node : NodeKind
  deriving DecidableEq

/-- The blocks that open with a condition or selector. -/
def conditionHeaders : List ConditionHeader :=
  [⟨.ifBlock, "THEN", .ifStatement⟩, ⟨.whileBlock, "DO", .whileLoop⟩,
    ⟨.caseBlock, "OF", .caseStatement⟩]

/-- A condition on one line, without semicolons and without what opens a comment. -/
structure IsConditionText (c : List Char) : Prop where
  no_newline : '\n' ∉ c
  no_return : '\r' ∉ c
  no_semicolon : ';' ∉ c
  no_lineComment : ¬ "//".toList <:+: c
  no_blockComment : ¬ "(*".toList <:+: c

namespace ConditionHeader

variable {h : ConditionHeader} {c : List Char}

theorem isKeyword_word (hh : h ∈ conditionHeaders) : IsKeyword h.word.toList := by
  have hall : (conditionHeaders.all fun h =>
      !h.word.toList.isEmpty && (upper h.word.toList).all isWordChar) = true := by decide
  exact isKeyword_of_all (List.all_eq_true.mp hall h hh)

theorem isKeyword_keyword (h : ConditionHeader) : IsKeyword h.block.keyword.toList := by
  refine isKeyword_of_all ?_
  cases h.block <;> decide

theorem lead_keyword (h : ConditionHeader) :
    Lead.ofWord h.block.keyword.toList = .opens h.block := by
  cases h.block <;> decide

/-- The three headers are read alike. -/
theorem openBlock_eq (hh : h ∈ conditionHeaders) (later : List Segment) (p : Place)
    (s : List Char) :
    openBlock later p h.block s
      = (headerNode p h.node (splitHeader h.word (afterWord s)).1,
          (splitHeader h.word (afterWord s)).2) := by
  simp only [conditionHeaders, List.mem_cons, List.not_mem_nil, or_false] at hh
  rcases hh with rfl | rfl | rfl <;> rfl

/-! ## One header on its line -/

/-- The condition and the word that ends it. -/
def rest (h : ConditionHeader) (c : List Char) : List Char := c ++ ' ' :: h.word.toList

/-- The header. -/
def text (h : ConditionHeader) (c : List Char) : List Char :=
  h.block.keyword.toList ++ ' ' :: h.rest c

/-- The body of a unit that holds the header and nothing else. -/
def body (h : ConditionHeader) (unit : String) (c : List Char) : Body :=
  Body.ofLines unit (codeLines (h.text c)) 0 (codeLines (h.text c)).length

theorem trim_text (hh : h ∈ conditionHeaders) : trim (h.text c) = h.text c :=
  trim_keyword_word h.isKeyword_keyword (isKeyword_word hh) c

theorem text_ne_nil : h.text c ≠ [] :=
  List.append_ne_nil_of_left_ne_nil h.isKeyword_keyword.1 _

/-- A character of the header stands in its condition, or is a blank or a character of a word. -/
theorem mem_of_mem_text (hh : h ∈ conditionHeaders) {d : Char} (hd : d ∈ h.text c)
    (hword : isWordChar d = false) (hspace : d ≠ ' ') : d ∈ c := by
  simp only [text, rest, List.mem_append, List.mem_cons] at hd
  rcases hd with hd | hd | hd | hd | hd
  · rw [h.isKeyword_keyword.wordChar d hd] at hword
    exact nomatch hword
  · exact absurd hd hspace
  · exact hd
  · exact absurd hd hspace
  · rw [(isKeyword_word hh).wordChar d hd] at hword
    exact nomatch hword

/-- A phrase of two characters that are in no word stands in the condition if it stands in the
    header. -/
theorem infix_of_infix_text (hh : h ∈ conditionHeaders) {x y : Char} (hx : isWordChar x = false)
    (hblank : ' ' ∉ [x, y]) (hp : [x, y] <:+: h.text c) : [x, y] <:+: c := by
  have hnot : ∀ {w : List Char}, IsKeyword w → ¬ [x, y] <:+: w := by
    intro w hw hxy
    rw [hw.wordChar x (hxy.subset (List.mem_cons_self ..))] at hx
    exact nomatch hx
  rw [text, rest, infix_append_cons_iff hblank, infix_append_cons_iff hblank] at hp
  rcases hp with hp | hp | hp
  · exact absurd hp (hnot h.isKeyword_keyword)
  · exact hp
  · exact absurd hp (hnot (isKeyword_word hh))

/-- The header is one line of code. -/
theorem codeLines_text (hh : h ∈ conditionHeaders) (hc : IsConditionText c) :
    codeLines (h.text c) = [⟨1, h.text c⟩] := by
  have hnewline : '\n' ∉ h.text c := fun hm => hc.no_newline (mem_of_mem_text hh hm rfl (by decide))
  have hreturn : '\r' ∉ h.text c := fun hm => hc.no_return (mem_of_mem_text hh hm rfl (by decide))
  have hkept : stripFrom .code (h.text c) = h.text c :=
    stripFrom_of_no_opening (r := .code) trivial
      (fun hp => hc.no_lineComment (infix_of_infix_text hh rfl (by decide) hp))
      (fun hp => hc.no_blockComment (infix_of_infix_text hh rfl (by decide) hp))
  have hlines : lines (h.text c) = [h.text c] := splitOn_of_not_mem hnewline
  have hend : trimEnd (h.text c) = h.text c := by
    have htrim := trimEnd_trim (h.text c)
    rwa [trim_text hh] at htrim
  rw [codeLines, stripComments, normalizeLineEndings_eq_self hreturn, hkept, hlines, collapse_cons,
    hend, if_neg text_ne_nil]
  rfl

/-- The header is one segment. -/
theorem segments_text (hh : h ∈ conditionHeaders) (hc : IsConditionText c) :
    segments (codeLines (h.text c)) = [⟨1, h.text c⟩] := by
  have hsemicolon : ';' ∉ h.text c :=
    fun hm => hc.no_semicolon (mem_of_mem_text hh hm rfl (by decide))
  have hne : trim (h.text c) ≠ [] := by
    rw [trim_text hh]
    exact text_ne_nil
  rw [codeLines_text hh hc, segments, List.flatMap_singleton]
  dsimp only
  rw [splitTopLevel_of_not_mem hsemicolon hne, trim_text hh]
  rfl

/-- What is read behind the header, where its block is open. -/
def behind (h : ConditionHeader) (unit : String) (c : List Char) : Output × BlockStack :=
  readStatement [] 1 ((BlockStack.start unit).push h.block 1) (splitHeader h.word (h.rest c)).2

/-- **The body of one header**: its node, and what is read behind it. -/
theorem body_eq (hh : h ∈ conditionHeaders) (unit : String) (hc : IsConditionText c) :
    h.body unit c
      = { root := { Node.leaf .root 0 unit with
            children := headerNode ⟨1, unit⟩ h.node (splitHeader h.word (h.rest c)).1 ::
              (h.behind unit c).1.nodes }
          diagnostics := (h.behind unit c).1.diagnostics ++
            (h.behind unit c).2.outermostFirst.map unterminated } := by
  have hpath : (BlockStack.start unit).path = unit := String.append_empty
  have htext : statementText (.start unit) (h.text c) = h.text c := by
    rw [statementText, trim_text hh]
    refine if_neg ?_
    intro hinner
    cases hinner
  have hword : leadingWord (h.text c) = h.block.keyword.toList :=
    leadingWord_append h.isKeyword_keyword.wordChar rfl
  have hlead : Lead.ofWord (leadingWord (statementText (.start unit) (h.text c))) = .opens h.block := by
    rw [htext, hword, h.lead_keyword]
  have hsplit : splitHeader h.word (afterWord (h.text c)) = splitHeader h.word (h.rest c) :=
    splitHeader_afterWord h.isKeyword_keyword (isKeyword_word hh) c
  have hread : readSegments (.start unit) [⟨1, h.text c⟩]
      = (.node (headerNode ⟨1, unit⟩ h.node (splitHeader h.word (h.rest c)).1) ++
          (h.behind unit c).1 ++ .none, (h.behind unit c).2) := by
    rw [readSegments_cons, readStatement_opens hlead, htext, openBlock_eq hh,
      hsplit, hpath]
    rfl
  rw [body, Body.ofLines, slice_zero_length, segments_text hh hc, Body.ofSegments, hread]
  show Body.mk { Node.leaf .root 0 unit with
    children := headerNode ⟨1, unit⟩ h.node _ :: (h.behind unit c).1.nodes ++ [] }
      ((h.behind unit c).1.diagnostics ++ [] ++ _) = _
  rw [List.append_nil, List.append_nil]

/-! ## Conditions that are read as a whole -/

/-- The condition is read as a whole: one node stands for the header, and nothing is reported but
    that its block is open at the end. -/
def ReadsWhole (h : ConditionHeader) (unit : String) (c : List Char) : Prop :=
  (∃ n : Node, (h.body unit c).root.children = [n] ∧ n.kind = h.node ∧
    n.value = some (String.ofList (trim c))) ∧
  (h.body unit c).diagnostics = [unterminated ⟨h.block, 1⟩]

theorem readsWhole_of_no_word (hh : h ∈ conditionHeaders) (unit : String) (hc : IsConditionText c)
    (hword : ∀ i, ¬ IsWordAt h.word c i) : h.ReadsWhole unit c := by
  have hkeyword := isKeyword_word hh
  have hnone : containsWord h.word c = false := by
    rw [containsWord, (isLeftmost_findWord? hkeyword.1 c).eq_none hword]
    rfl
  have hcut : splitHeader h.word (h.rest c) = (trim c, []) :=
    splitHeader_append_blank_word hkeyword hnone
  have hbehind : h.behind unit c = (.none, (BlockStack.start unit).push h.block 1) := by
    rw [behind, hcut, readStatement_nil]
  rw [ReadsWhole, body_eq hh unit hc, hbehind, hcut]
  exact ⟨⟨_, rfl, rfl, rfl⟩, rfl⟩

/-- **The first place of the word cuts the condition**, and what follows is read as a statement. -/
theorem children_body_of_isLeast {i : Nat} (hh : h ∈ conditionHeaders) (unit : String)
    (hc : IsConditionText c) (hi : IsLeast {j | IsWordAt h.word c j} i) :
    (h.body unit c).root.children
      = headerNode ⟨1, unit⟩ h.node (trim (c.take i)) ::
        (readStatement [] 1 ((BlockStack.start unit).push h.block 1)
          (trim (c.drop (i + h.word.length) ++ ' ' :: h.word.toList))).1.nodes := by
  rw [body_eq hh unit hc, behind, rest, splitHeader_of_isLeast (isKeyword_word hh) hi]

theorem not_readsWhole_of_isWordAt {j : Nat} (hh : h ∈ conditionHeaders) (unit : String)
    (hc : IsConditionText c) (hj : IsWordAt h.word c j) : ¬ h.ReadsWhole unit c := by
  have hkeyword := isKeyword_word hh
  obtain ⟨i, -, hi⟩ := (isLeftmost_findWord? hkeyword.1 c).exists_eq_some hj
  rintro ⟨⟨n, hn, -, hvalue⟩, -⟩
  rw [children_body_of_isLeast hh unit hc hi] at hn
  obtain ⟨rfl, -⟩ := List.cons.inj hn
  exact trim_take_ne hkeyword hi.1 (String.ofList_injective (Option.some.inj hvalue))

/-- **A header is read as a whole exactly if its word stands nowhere in the condition**, inside a
    string or outside. Otherwise the value of its node ends before the first place of the word. -/
theorem readsWhole_iff (hh : h ∈ conditionHeaders) (unit : String) (hc : IsConditionText c) :
    (h.ReadsWhole unit c ↔ ∀ i, ¬ IsWordAt h.word c i) ∧
      ∀ i, IsLeast {j | IsWordAt h.word c j} i → trim (c.take i) ≠ trim c ∧
        (h.body unit c).root.children
          = headerNode ⟨1, unit⟩ h.node (trim (c.take i)) ::
            (readStatement [] 1 ((BlockStack.start unit).push h.block 1)
              (trim (c.drop (i + h.word.length) ++ ' ' :: h.word.toList))).1.nodes := by
  refine ⟨⟨?_, readsWhole_of_no_word hh unit hc⟩, ?_⟩
  · intro hwhole i hi
    exact not_readsWhole_of_isWordAt hh unit hc hi hwhole
  · intro i hi
    exact ⟨trim_take_ne (isKeyword_word hh) hi.1, children_body_of_isLeast hh unit hc hi⟩

end ConditionHeader

/-- A condition with the closing word of an `IF` in its string. -/
def quotedThen : List Char := "s = 'GO THEN STOP'".toList

theorem isConditionText_quotedThen : IsConditionText quotedThen where
  no_newline := by decide
  no_return := by decide
  no_semicolon := by decide
  no_lineComment := by decide +kernel
  no_blockComment := by decide +kernel

/-- A `WHILE` reads the condition as a whole, for its word is another one; an `IF` does not. -/
theorem readsWhole_iff_quotedThen :
    ConditionHeader.ReadsWhole ⟨.whileBlock, "DO", .whileLoop⟩ "Main" quotedThen ∧
      IsLeast {j | IsWordAt "THEN" quotedThen j} 8 ∧
      (ConditionHeader.body ⟨.ifBlock, "THEN", .ifStatement⟩ "Main" quotedThen).root.children
        = headerNode ⟨1, "Main"⟩ .ifStatement "s = 'GO".toList ::
          (readStatement [] 1 ((BlockStack.start "Main").push .ifBlock 1)
            "STOP' THEN".toList).1.nodes := by
  have hdo : ∀ i, ¬ IsWordAt "DO" quotedThen i := by
    have hfound : IsLeftmost {i | IsWordAt "DO" quotedThen i} (findWord? "DO" quotedThen) :=
      isLeftmost_findWord? (by decide) quotedThen
    have hnone : findWord? "DO" quotedThen = none := by decide +kernel
    rw [hnone] at hfound
    exact Set.eq_empty_iff_forall_notMem.mp hfound
  have hthen : IsLeast {j | IsWordAt "THEN" quotedThen j} 8 := by
    have hfound : IsLeftmost {i | IsWordAt "THEN" quotedThen i} (findWord? "THEN" quotedThen) :=
      isLeftmost_findWord? (by decide) quotedThen
    have hsome : findWord? "THEN" quotedThen = some 8 := by decide +kernel
    rwa [hsome] at hfound
  have hwhile := (ConditionHeader.readsWhole_iff (h := ⟨.whileBlock, "DO", .whileLoop⟩) (by decide)
    "Main" isConditionText_quotedThen).1
  have hif := (ConditionHeader.readsWhole_iff (h := ⟨.ifBlock, "THEN", .ifStatement⟩) (by decide)
    "Main" isConditionText_quotedThen).2
  exact ⟨hwhile.mpr hdo, hthen, (hif 8 hthen).2⟩

/-- **A string can cut its condition.** The word stands only in the string, no bracket stands
    anywhere, and still the header is not read as a whole. -/
theorem exists_cut_string :
    IsConditionText quotedThen ∧ Nesting.start.after quotedThen = .start ∧ '$' ∉ quotedThen ∧
      (∀ i, IsWordAt "THEN" quotedThen i → inQuotes quotedThen i = true) ∧
      ¬ ConditionHeader.ReadsWhole ⟨.ifBlock, "THEN", .ifStatement⟩ "Main" quotedThen := by
  have hthen : IsWordAt "THEN" quotedThen 8 := wordAt_drop_iff.mp (by decide +kernel)
  have hquoted : ∀ i, IsWordAt "THEN" quotedThen i → inQuotes quotedThen i = true := by
    intro i hi
    have hend : i + 4 ≤ 18 := hi.add_length_le (by decide)
    have hall : ∀ j < 18, wordAt "THEN".toList (quotedThen.take j).getLast? (quotedThen.drop j) = true →
        inQuotes quotedThen j = true := by decide +kernel
    exact hall i (by omega) (wordAt_drop_iff.mpr hi)
  exact ⟨isConditionText_quotedThen, by decide +kernel, by decide, hquoted,
    ConditionHeader.not_readsWhole_of_isWordAt (h := ⟨.ifBlock, "THEN", .ifStatement⟩) (by decide)
      "Main" isConditionText_quotedThen hthen⟩

end StLint.Statement

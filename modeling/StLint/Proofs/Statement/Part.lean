import StLint.Proofs.Statement.Trace
import StLint.Proofs.Statement.Words

/-!
# The parts of a statement

The node of a statement holds some parts of its text, as its name or its value. **The other parts
are dropped**: the label of a branch, the condition of an `ELSIF`, what follows a keyword that ends a
statement, and a text that is not recognized. Every word of the text that is not reserved stands in
a part of one of the two kinds.

* `Part` — the parts of a statement with what becomes of them.
* `holds_of_part_kept`, `exists_part_kept_of_mentions` — the nodes hold what is kept and no more.
* `exists_part_of_containsWord` — no word is in none of the parts.
* `PartOn` — the parts of the statements on a line of a body.
-/

namespace StLint

open Text Source

namespace Statement

open StLint.Language (IsFree)
open Expression (Place mentions_parse_iff mentions_call_iff)

variable {later : List Segment} {line : Nat} {stack : BlockStack} {s : List Char}

/-! ## One statement -/

/-- The parts of a header that its node holds. The condition of a `REPEAT` stands behind its
    `UNTIL`. -/
def headerParts (later : List Segment) (kind : BlockKind) (t : List Char) : List (List Char) :=
  match kind with
  | .ifBlock => [(splitHeader "THEN" (afterWord t)).1]
  | .whileBlock => [(splitHeader "DO" (afterWord t)).1]
  | .caseBlock => [(splitHeader "OF" (afterWord t)).1]
  | .forBlock =>
    match ForHeader.read? (t.drop (leadingWord t).length) with
    | some h => [h.counter, h.bounds.text]
    | none => [afterWord t]
  | .repeatBlock => (untilCondition? 0 later).toList

/-- The parts of an assignment or a call. -/
def plainParts? (t : List Char) : Option (List (List Char)) :=
  match cutTopLevel? ":=" t with
  | some (target, value) => some [trim target, stripStatementEnd value]
  | none => (Expression.splitUnitCall? (stripStatementEnd t)).map fun c => [c.1, trim c.2]

/-- A keyword behind which a statement is not read on. -/
def Lead.endsStatement : Lead → Bool
  | .closes _ | .returns | .jumps => true
  | .opens _ | .branch | .otherwise | .plain => false

/-- What becomes of a part of a statement. -/
inductive Use where
  /-- A node holds it. -/
  | kept
  /-- No node holds it. -/
  | dropped
  deriving DecidableEq, Repr

/-- **A part of a statement** under the open blocks, with what becomes of it. -/
inductive Part (later : List Segment) (line : Nat) :
    BlockStack → List Char → Use → List Char → Prop
  | label (stack : BlockStack) (s : List Char) :
      Part later line stack s .dropped (branchLabel stack s)
  | header {stack : BlockStack} {s part : List Char} {kind : BlockKind}
      (h : Lead.ofWord (leadingWord (statementText stack s)) = .opens kind)
      (hpart : part ∈ headerParts later kind (statementText stack s)) :
      Part later line stack s .kept part
  /-- A part of the first statement of a block, on the line of its header. -/
  | behindHeader {stack : BlockStack} {s part : List Char} {kind : BlockKind} {use : Use}
      (h : Lead.ofWord (leadingWord (statementText stack s)) = .opens kind)
      (hrest : Part later line (stack.push kind line)
        (openBlock later ⟨line, stack.path⟩ kind (statementText stack s)).2 use part) :
      Part later line stack s use part
  /-- The condition of an `ELSIF`. -/
  | condition {stack : BlockStack} {s : List Char}
      (h : Lead.ofWord (leadingWord (statementText stack s)) = .branch) :
      Part later line stack s .dropped
        (splitHeader "THEN" (afterWord (statementText stack s))).1
  | behindThen {stack : BlockStack} {s part : List Char} {use : Use}
      (h : Lead.ofWord (leadingWord (statementText stack s)) = .branch)
      (hrest : Part later line stack
        (splitHeader "THEN" (afterWord (statementText stack s))).2 use part) :
      Part later line stack s use part
  | behindElse {stack : BlockStack} {s part : List Char} {use : Use}
      (h : Lead.ofWord (leadingWord (statementText stack s)) = .otherwise)
      (hrest : Part later line stack (afterWord (statementText stack s)) use part) :
      Part later line stack s use part
  /-- What follows a closing keyword, a `RETURN`, an `EXIT` or a `CONTINUE`. The condition behind an
      `UNTIL` is also a part of the header of its `REPEAT`. -/
  | behindEnd {stack : BlockStack} {s : List Char}
      (h : (Lead.ofWord (leadingWord (statementText stack s))).endsStatement = true) :
      Part later line stack s .dropped (afterWord (statementText stack s))
  /-- A side of an assignment, the name of a call, or its arguments. -/
  | plain {stack : BlockStack} {s part : List Char} {parts : List (List Char)}
      (h : Lead.ofWord (leadingWord (statementText stack s)) = .plain)
      (hparts : plainParts? (statementText stack s) = some parts) (hpart : part ∈ parts) :
      Part later line stack s .kept part
  | unrecognized {stack : BlockStack} {s : List Char}
      (h : Lead.ofWord (leadingWord (statementText stack s)) = .plain)
      (hparts : plainParts? (statementText stack s) = none) :
      Part later line stack s .dropped (statementText stack s)

/-! ## What is kept -/

theorem holds_openBlock (later : List Segment) (p : Place) (kind : BlockKind) (t : List Char)
    {part : List Char} (h : part ∈ headerParts later kind t) :
    (openBlock later p kind t).1.Holds part := by
  cases kind with
  | ifBlock | whileBlock | caseBlock =>
      rw [List.mem_singleton.mp h]
      exact Or.inr rfl
  | forBlock =>
      rw [headerParts] at h
      rw [openBlock]
      rw [forNode]
      cases hread : ForHeader.read? (t.drop (leadingWord t).length) with
      | none =>
          rw [hread] at h
          rw [List.mem_singleton.mp h]
          exact Or.inr rfl
      | some header =>
          rw [hread] at h
          rcases List.mem_pair.mp h with rfl | rfl
          · exact Or.inl rfl
          · exact Or.inr rfl
  | repeatBlock =>
      rw [headerParts, Option.mem_toList] at h
      rw [openBlock]
      rw [h]
      exact Or.inr rfl

theorem exists_holds_readPlain (p : Place) {t part : List Char} {parts : List (List Char)}
    (hparts : plainParts? t = some parts) (h : part ∈ parts) :
    ∃ n ∈ (readPlain p t).nodes, n.Holds part := by
  rw [plainParts?] at hparts
  rw [readPlain]
  cases hcut : cutTopLevel? ":=" t with
  | some sides =>
      rw [hcut] at hparts
      obtain rfl := Option.some.inj hparts
      refine ⟨_, List.mem_singleton.mpr rfl, ?_⟩
      rcases List.mem_pair.mp h with rfl | rfl
      · exact Or.inl rfl
      · exact Or.inr rfl
  | none =>
      rw [hcut] at hparts
      obtain ⟨c, hcall, rfl⟩ := Option.map_eq_some_iff.mp hparts
      dsimp only
      rw [hcall]
      refine ⟨_, List.mem_singleton.mpr rfl, ?_⟩
      rcases List.mem_pair.mp h with rfl | rfl
      · exact Or.inl rfl
      · exact Or.inr rfl

/-- **What is kept is held by a node**, by induction on the parts. -/
theorem holds_of_part_kept {part : List Char} (h : Part later line stack s .kept part) :
    ∃ n ∈ (readStatement later line stack s).1.nodes, n.Holds part := by
  generalize huse : Use.kept = use at h
  induction h with
  | label | condition | behindEnd | unrecognized => cases huse
  | header h hpart =>
      rw [readStatement_opens h]
      exact ⟨_, List.mem_append_left _ (List.mem_singleton.mpr rfl), holds_openBlock _ _ _ _ hpart⟩
  | behindHeader h _ ih =>
      obtain ⟨n, hn, hholds⟩ := ih huse
      rw [readStatement_opens h]
      exact ⟨n, List.mem_append_right _ hn, hholds⟩
  | behindThen h _ ih =>
      rw [readStatement_branch h]
      exact ih huse
  | behindElse h _ ih =>
      rw [readStatement_otherwise h]
      exact ih huse
  | plain h hparts hpart =>
      rename_i stack s _ _
      have hne : statementText stack s ≠ [] := by
        intro hnil
        rw [hnil] at hparts
        cases hparts
      rw [readStatement_plain hne h]
      exact exists_holds_readPlain _ hparts hpart

/-! ## No word is lost -/

section Words

variable {word : String}

theorem exists_mem_pair_iff {a b : List Char} :
    (∃ part ∈ [a, b], containsWord word part = true) ↔
      (containsWord word a || containsWord word b) = true := by
  simp

theorem mentions_headerNode (hw : IsFree word) (p : Place) (kind : NodeKind) (header : List Char) :
    (headerNode p kind header).Mentions word ↔ containsWord word header = true := by
  rw [Node.mentions_iff, headerNode]
  by_cases hempty : header.isEmpty = true
  · simp [List.isEmpty_iff.mp hempty, containsWord_nil, Place.node, Node.leaf]
  · simp [hempty, mentions_parse_iff hw, Place.node, Node.leaf]

/-- **The node of a header mentions its parts.** -/
theorem exists_headerPart_of_mentions (hw : IsFree word) (later : List Segment) (p : Place)
    (kind : BlockKind) (t : List Char) (h : (openBlock later p kind t).1.Mentions word) :
    ∃ part ∈ headerParts later kind t, containsWord word part = true := by
  cases kind with
  | ifBlock | whileBlock | caseBlock =>
      exact ⟨_, List.mem_singleton.mpr rfl, (mentions_headerNode hw p _ _).mp h⟩
  | forBlock =>
      rw [openBlock] at h
      rw [headerParts]
      rw [forNode] at h
      cases hread : ForHeader.read? (t.drop (leadingWord t).length) with
      | none =>
          rw [hread, Node.mentions_iff] at h
          simpa [Place.node, Node.leaf] using h
      | some header =>
          -- the counter is the name of the node and its only child
          rw [hread, Node.mentions_iff] at h
          rw [exists_mem_pair_iff, Bool.or_eq_true]
          simpa [mentions_parse_iff hw, or_assoc, or_comm, or_left_comm] using h
  | repeatBlock =>
      rw [openBlock] at h
      rw [headerParts]
      cases huntil : untilCondition? 0 later with
      | none =>
          rw [huntil, Node.mentions_iff] at h
          simp [Place.node, Node.leaf] at h
      | some condition =>
          rw [huntil] at h
          exact ⟨condition, List.mem_singleton.mpr rfl, (mentions_headerNode hw p _ _).mp h⟩

/-- **A statement without a keyword mentions its parts.** -/
theorem exists_plainPart_of_mentions (hw : IsFree word) {p : Place} {t : List Char} {n : Node}
    (hn : n ∈ (readPlain p t).nodes) (h : n.Mentions word) :
    ∃ parts, plainParts? t = some parts ∧ ∃ part ∈ parts, containsWord word part = true := by
  rw [readPlain] at hn
  rw [plainParts?]
  cases hcut : cutTopLevel? ":=" t with
  | some sides =>
      rw [hcut] at hn
      rw [List.mem_singleton.mp hn, p.mentions_assignment, mentions_parse_iff hw, or_assoc,
        or_self, ← Bool.or_eq_true, ← exists_mem_pair_iff] at h
      exact ⟨_, rfl, h⟩
  | none =>
      rw [hcut] at hn
      dsimp only at hn
      cases hcall : Expression.splitUnitCall? (stripStatementEnd t) with
      | none =>
          rw [hcall] at hn
          cases hn
      | some c =>
          rw [hcall] at hn
          rw [List.mem_singleton.mp hn, mentions_call_iff hw, ← containsWord_trim_eq hw.isKeyword c.2,
            ← exists_mem_pair_iff] at h
          exact ⟨_, rfl, h⟩

/-- **The nodes of a statement mention what it keeps**, by induction on the text that is left. -/
theorem exists_part_kept_of_mentions (hw : IsFree word) (later : List Segment) (line : Nat)
    (stack : BlockStack) (s : List Char) {n : Node}
    (hn : n ∈ (readStatement later line stack s).1.nodes) (h : n.Mentions word) :
    ∃ part, Part later line stack s .kept part ∧ containsWord word part = true := by
  induction stack, s using readStatement.induct later line with
  | case1 stack s hblank =>
      rw [readStatement_blank (List.isEmpty_iff.mp hblank)] at hn
      cases hn
  | case2 stack s _ _ p kind hlead _ _ _ ih =>
      rw [readStatement_opens hlead] at hn
      rcases List.mem_append.mp hn with hn | hn
      · rw [List.mem_singleton.mp hn] at h
        obtain ⟨part, hpart, h⟩ := exists_headerPart_of_mentions hw later p kind _ h
        exact ⟨part, .header hlead hpart, h⟩
      · obtain ⟨part, hrest, h⟩ := ih hn
        exact ⟨part, .behindHeader hlead hrest, h⟩
  | case3 stack s _ _ hlead ih =>
      rw [readStatement_branch hlead] at hn
      obtain ⟨part, hrest, h⟩ := ih hn
      exact ⟨part, .behindThen hlead hrest, h⟩
  | case4 stack s _ _ hlead ih =>
      rw [readStatement_otherwise hlead] at hn
      obtain ⟨part, hrest, h⟩ := ih hn
      exact ⟨part, .behindElse hlead hrest, h⟩
  | case5 stack s _ _ kind hlead =>
      rw [readStatement_closes hlead] at hn
      cases hn
  | case6 stack s _ _ hlead =>
      -- the node of a `RETURN` holds no text
      rw [readStatement_returns hlead] at hn
      rw [List.mem_singleton.mp hn, Node.mentions_iff] at h
      simp [Place.node, Node.leaf] at h
  | case7 stack s _ _ hlead =>
      rw [readStatement_jumps hlead] at hn
      cases hn
  | case8 stack s hne _ hlead =>
      rw [readStatement_plain (by simpa using hne) hlead] at hn
      obtain ⟨parts, hparts, part, hpart, h⟩ := exists_plainPart_of_mentions hw hn h
      exact ⟨part, .plain hlead hparts hpart, h⟩

/-- A header and the first statement behind it hold the words of the text. -/
theorem containsWord_openBlock (hw : IsFree word) (later : List Segment) (p : Place)
    {kind : BlockKind} {t : List Char} (hlead : Lead.ofWord (leadingWord t) = .opens kind)
    (h : containsWord word t = true) :
    (∃ part ∈ headerParts later kind t, containsWord word part = true) ∨
      containsWord word (openBlock later p kind t).2 = true := by
  have hplain : Lead.ofWord (leadingWord t) ≠ .plain := by
    rw [hlead]
    exact Lead.noConfusion
  have hafter := h
  rw [← containsWord_afterWord hw hplain] at hafter
  -- a condition is cut at the keyword that ends it
  have hsplit : ∀ {keyword : String}, keyword ∈ Language.reservedWords →
      (∃ part ∈ [(splitHeader keyword (afterWord t)).1], containsWord word part = true) ∨
        containsWord word (splitHeader keyword (afterWord t)).2 = true := by
    intro keyword hk
    rw [containsWord_splitHeader hw hk, Bool.or_eq_true] at hafter
    exact hafter.imp_left fun hleft => ⟨_, List.mem_singleton.mpr rfl, hleft⟩
  cases kind with
  | ifBlock => exact hsplit (by decide)
  | whileBlock => exact hsplit (by decide)
  | caseBlock => exact hsplit (by decide)
  | forBlock =>
      rw [headerParts, openBlock]
      rw [forNode]
      cases hread : ForHeader.read? (t.drop (leadingWord t).length) with
      | none => exact Or.inl ⟨_, List.mem_singleton.mpr rfl, hafter⟩
      | some header =>
          rw [← containsWord_drop_leadingWord hw hplain, containsWord_forHeader hw hread,
            Bool.or_eq_true] at h
          exact h.imp_left exists_mem_pair_iff.mpr
  | repeatBlock =>
      refine Or.inr ?_
      rw [openBlock]
      cases untilCondition? 0 later with
      | some => exact hafter
      | none => exact hafter

theorem containsWord_plainParts? (hw : IsFree word) {t : List Char} {parts : List (List Char)}
    (hparts : plainParts? t = some parts) (h : containsWord word t = true) :
    ∃ part ∈ parts, containsWord word part = true := by
  rw [plainParts?] at hparts
  cases hcut : cutTopLevel? ":=" t with
  | some sides =>
      rw [hcut] at hparts
      obtain rfl := Option.some.inj hparts
      rw [exists_mem_pair_iff, containsWord_trim_eq hw.isKeyword,
        containsWord_stripStatementEnd hw.isKeyword,
        ← containsWord_cutTopLevel? hw.isKeyword (not_wordChar_of_all (by decide)) (by decide) hcut]
      exact h
  | none =>
      rw [hcut] at hparts
      obtain ⟨c, hcall, rfl⟩ := Option.map_eq_some_iff.mp hparts
      rw [exists_mem_pair_iff, containsWord_trim_eq hw.isKeyword,
        ← containsWord_splitCall? hw.isKeyword (Option.filter_eq_some_iff.mp hcall).1,
        containsWord_stripStatementEnd hw.isKeyword]
      exact h

/-- A word stands in the label or in the statement behind it. -/
theorem exists_part_or_statementText (hw : IsFree word) (later : List Segment) (line : Nat)
    (h : containsWord word s = true) :
    (∃ use part, Part later line stack s use part ∧ containsWord word part = true) ∨
      containsWord word (statementText stack s) = true := by
  rw [containsWord_statementText hw stack, Bool.or_eq_true] at h
  exact h.imp_left fun hlabel => ⟨_, _, .label stack s, hlabel⟩

/-- What follows a keyword that ends a statement is dropped. -/
theorem exists_part_of_endsStatement (hw : IsFree word) (later : List Segment) (line : Nat)
    (hend : (Lead.ofWord (leadingWord (statementText stack s))).endsStatement = true)
    (h : containsWord word (statementText stack s) = true) :
    ∃ use part, Part later line stack s use part ∧ containsWord word part = true := by
  have hplain : Lead.ofWord (leadingWord (statementText stack s)) ≠ .plain := by
    intro hplain
    rw [hplain] at hend
    cases hend
  rw [← containsWord_afterWord hw hplain] at h
  exact ⟨_, _, .behindEnd hend, h⟩

/-- **Every word of a statement stands in one of its parts**, by induction on the text that is
    left. -/
theorem exists_part_of_containsWord (hw : IsFree word) (later : List Segment) (line : Nat)
    (stack : BlockStack) (s : List Char) (h : containsWord word s = true) :
    ∃ use part, Part later line stack s use part ∧ containsWord word part = true := by
  induction stack, s using readStatement.induct later line with
  | case1 stack s hblank =>
      rw [containsWord_statementText hw stack, List.isEmpty_iff.mp hblank, containsWord_nil,
        Bool.or_false] at h
      exact ⟨_, _, .label stack s, h⟩
  | case2 stack s _ _ p kind hlead _ _ _ ih =>
      rcases exists_part_or_statementText hw later line h with hlabel | h
      · exact hlabel
      · rcases containsWord_openBlock hw later p hlead h with ⟨part, hpart, h⟩ | h
        · exact ⟨_, part, .header hlead hpart, h⟩
        · obtain ⟨use, part, hrest, h⟩ := ih h
          exact ⟨use, part, .behindHeader hlead hrest, h⟩
  | case3 stack s _ _ hlead ih =>
      rcases exists_part_or_statementText hw later line h with hlabel | h
      · exact hlabel
      · rw [← containsWord_afterWord hw (by rw [hlead]; exact Lead.noConfusion),
          containsWord_splitHeader hw (by decide : "THEN" ∈ Language.reservedWords),
          Bool.or_eq_true] at h
        rcases h with h | h
        · exact ⟨_, _, .condition hlead, h⟩
        · obtain ⟨use, part, hrest, h⟩ := ih h
          exact ⟨use, part, .behindThen hlead hrest, h⟩
  | case4 stack s _ _ hlead ih =>
      rcases exists_part_or_statementText hw later line h with hlabel | h
      · exact hlabel
      · rw [← containsWord_afterWord hw (by rw [hlead]; exact Lead.noConfusion)] at h
        obtain ⟨use, part, hrest, h⟩ := ih h
        exact ⟨use, part, .behindElse hlead hrest, h⟩
  | case5 stack s _ _ _ hlead | case6 stack s _ _ hlead | case7 stack s _ _ hlead =>
      rcases exists_part_or_statementText hw later line h with hlabel | h
      · exact hlabel
      · exact exists_part_of_endsStatement hw later line (by rw [hlead]; rfl) h
  | case8 stack s _ _ hlead =>
      rcases exists_part_or_statementText hw later line h with hlabel | h
      · exact hlabel
      · cases hparts : plainParts? (statementText stack s) with
        | none => exact ⟨_, _, .unrecognized hlead hparts, h⟩
        | some parts =>
            obtain ⟨part, hpart, h⟩ := containsWord_plainParts? hw hparts h
            exact ⟨_, part, .plain hlead hparts hpart, h⟩

end Words

/-! ## The lines of a body -/

/-- A part of a statement on line `n` of a body. -/
def PartOn (unit : String) (body : List CodeLine) (n : Nat) (use : Use) (part : List Char) : Prop :=
  ∃ before s later, segments body = before ++ s :: later ∧ s.line = n ∧
    Part later s.line (stackAfter (.start unit) before) s.text use part

/-- A node of a run of segments is a node of one of them. -/
theorem exists_readStatement_of_mem (stack : BlockStack) {ss : List Segment} {n : Node}
    (h : n ∈ (readSegments stack ss).1.nodes) :
    ∃ before s later, ss = before ++ s :: later ∧
      n ∈ (readStatement later s.line (stackAfter stack before) s.text).1.nodes := by
  induction ss generalizing stack with
  | nil => cases h
  | cons s later ih =>
      rw [readSegments_cons] at h
      rcases List.mem_append.mp h with h | h
      · exact ⟨[], s, later, rfl, h⟩
      · obtain ⟨before, t, behind, rfl, hn⟩ := ih _ h
        rw [← stackAfter_cons] at hn
        exact ⟨s :: before, t, behind, rfl, hn⟩

/-- What is kept of a body is mentioned by one of its statements. -/
theorem mentions_of_partOn_kept {word unit : String} {body : List CodeLine} {n : Nat}
    {part : List Char} (hpart : PartOn unit body n .kept part) (h : containsWord word part = true) :
    ∃ m ∈ (Body.ofSegments unit (segments body)).root.children, m.Mentions word := by
  obtain ⟨before, s, later, hbody, -, hpart⟩ := hpart
  obtain ⟨m, hm, hholds⟩ := holds_of_part_kept hpart
  obtain ⟨out, hout⟩ := exists_readSegments_append (.start unit) before (s :: later)
  refine ⟨m, ?_, Node.mentions_iff.mpr (Or.inl (Node.exists_holds_iff.mp ⟨part, hholds, h⟩))⟩
  show m ∈ (readSegments (.start unit) (segments body)).1.nodes
  rw [hbody, hout, readSegments_cons]
  exact List.mem_append_right _ (List.mem_append_left _ hm)

/-- **The statements of a body mention what is kept of it.** -/
theorem exists_partOn_kept_of_mentions {word : String} (hw : IsFree word) {unit : String}
    {body : List CodeLine} {m : Node}
    (hm : m ∈ (Body.ofSegments unit (segments body)).root.children) (h : m.Mentions word) :
    ∃ n part, PartOn unit body n .kept part ∧ containsWord word part = true := by
  obtain ⟨before, s, later, hbody, hn⟩ := exists_readStatement_of_mem (.start unit) hm
  obtain ⟨part, hpart, h⟩ := exists_part_kept_of_mentions hw later s.line _ s.text hn h
  exact ⟨s.line, part, ⟨before, s, later, hbody, rfl, hpart⟩, h⟩

/-- **Every word on a line of a body** stands in a part of a statement on that line. -/
theorem exists_partOn_of_containsWord {word : String} (hw : IsFree word) (unit : String)
    {body : List CodeLine} {l : CodeLine} (hl : l ∈ body) (h : containsWord word l.text = true) :
    ∃ use part, PartOn unit body l.number use part ∧ containsWord word part = true := by
  rw [containsWord_splitTopLevel hw.isKeyword (by decide : isWordChar ';' = false),
    List.any_eq_true] at h
  obtain ⟨text, htext, h⟩ := h
  have hne : (!text.isEmpty) = true := by
    rw [Bool.not_eq_true', List.isEmpty_eq_false_iff]
    rintro rfl
    rw [containsWord_nil] at h
    cases h
  have hmem : (⟨l.number, text⟩ : Segment) ∈ segments body :=
    List.mem_flatMap.mpr ⟨l, hl, List.mem_map_of_mem (List.mem_filter.mpr ⟨htext, hne⟩)⟩
  obtain ⟨before, later, hbody⟩ := List.append_of_mem hmem
  obtain ⟨use, part, hpart, h⟩ := exists_part_of_containsWord hw later l.number
    (stackAfter (.start unit) before) text h
  exact ⟨use, part, ⟨before, _, later, hbody, rfl, hpart⟩, h⟩

end Statement

end StLint

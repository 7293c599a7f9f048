import StLint.Proofs.Statement.Order

/-!
# What becomes of a segment

A segment **leaves a trace**, a node or a diagnostic, unless it is read without one. That happens to
the punctuation of blocks, and also to what stands behind a closing keyword, an `EXIT` or a
`CONTINUE` on the same segment and to an `ELSIF` without its `THEN`: all this is dropped.

* `Silent` — a segment without a trace, with the text that it drops.
* `readStatement_fst_eq_none_iff` — one statement leaves no trace exactly if it is silent.
* `Body.traces_ofSegments_iff` — a line of a body has a trace exactly if one of its segments is not
  silent.
-/

namespace StLint.Statement

open Text Source
open Expression (Place)

variable {later : List Segment} {line : Nat} {stack : BlockStack} {s : List Char}

/-! ## Silence -/

/-- What follows the closing keyword of a block, and for an `UNTIL` also its condition. -/
def behindCloser (t : List Char) : List Char :=
  if upper (leadingWord t) = "UNTIL".toList then
    match findWord? "END_REPEAT" (afterWord t) with
    | some i => trim ((afterWord t).drop (i + "END_REPEAT".length))
    | none => []
  else afterWord t

/-- **A segment that is read without a trace** under the open blocks, with the text that it drops.
    Where it drops nothing, it consists of block punctuation alone. -/
inductive Silent (stack : BlockStack) : List Char → List Char → Prop
  /-- Nothing, or the label of a branch. -/
  | blank {s : List Char} (h : statementText stack s = []) : Silent stack s []
  | elsif {s dropped : List Char} (h : Lead.ofWord (leadingWord (statementText stack s)) = .branch)
      (hthen : containsWord "THEN" (afterWord (statementText stack s)) = true)
      (hrest : Silent stack (splitHeader "THEN" (afterWord (statementText stack s))).2 dropped) :
      Silent stack s dropped
  /-- The condition of an `ELSIF` without its `THEN`. -/
  | elsifWithoutThen {s : List Char}
      (h : Lead.ofWord (leadingWord (statementText stack s)) = .branch)
      (hthen : containsWord "THEN" (afterWord (statementText stack s)) = false) :
      Silent stack s (statementText stack s)
  | otherwise {s dropped : List Char}
      (h : Lead.ofWord (leadingWord (statementText stack s)) = .otherwise)
      (hrest : Silent stack (afterWord (statementText stack s)) dropped) : Silent stack s dropped
  | closes {s : List Char} {kind : BlockKind}
      (h : Lead.ofWord (leadingWord (statementText stack s)) = .closes kind) :
      Silent stack s (behindCloser (statementText stack s))
  /-- `EXIT` or `CONTINUE`. -/
  | jumps {s : List Char} (h : Lead.ofWord (leadingWord (statementText stack s)) = .jumps) :
      Silent stack s (afterWord (statementText stack s))

/-- Nothing but block punctuation. -/
abbrev IsPunctuation (stack : BlockStack) (s : List Char) : Prop := Silent stack s []

theorem Output.append_eq_none_iff {a b : Output} : a ++ b = .none ↔ a = .none ∧ b = .none := by
  constructor
  · intro h
    have hn : a.nodes ++ b.nodes = [] := congrArg Output.nodes h
    have hd : a.diagnostics ++ b.diagnostics = [] := congrArg Output.diagnostics h
    obtain ⟨han, hbn⟩ := List.append_eq_nil_iff.mp hn
    obtain ⟨had, hbd⟩ := List.append_eq_nil_iff.mp hd
    exact ⟨Output.ext han had, Output.ext hbn hbd⟩
  · rintro ⟨rfl, rfl⟩
    rfl

theorem Output.node_append_ne_none (n : Node) (a : Output) : Output.node n ++ a ≠ .none := by
  intro h
  exact nomatch congrArg Output.nodes (Output.append_eq_none_iff.mp h).1

theorem readPlain_ne_none (p : Place) (t : List Char) : readPlain p t ≠ .none := by
  rw [readPlain]
  cases cutTopLevel? ":=" t with
  | some => exact fun h => List.cons_ne_nil _ _ (congrArg Output.nodes h)
  | none =>
      dsimp only
      cases Expression.splitUnitCall? (stripStatementEnd t) with
      | some => exact fun h => List.cons_ne_nil _ _ (congrArg Output.nodes h)
      | none => exact fun h => List.cons_ne_nil _ _ (congrArg Output.diagnostics h)

/-- A header that has no closing word leaves nothing behind it. -/
theorem splitHeader_of_not_containsWord {word : String} {s : List Char}
    (h : containsWord word s = false) : (splitHeader word s).2 = [] := by
  rw [containsWord, Option.isSome_eq_false_iff, Option.isNone_iff_eq_none] at h
  rw [splitHeader, h]

/-- What leaves a trace: a header, a `RETURN`, and every statement without a keyword. -/
def Lead.leavesTrace : Lead → Bool
  | .opens _ | .returns | .plain => true
  | .closes _ | .branch | .otherwise | .jumps => false

theorem not_silent_of_leavesTrace (hne : statementText stack s ≠ [])
    (hlead : (Lead.ofWord (leadingWord (statementText stack s))).leavesTrace = true)
    {dropped : List Char} : ¬ Silent stack s dropped := by
  intro h
  cases h with
  | blank h => exact hne h
  | elsif h | elsifWithoutThen h | otherwise h | closes h | jumps h =>
      rw [h] at hlead
      exact nomatch hlead

/-- What stands behind the closing keyword of a block is dropped. -/
theorem Silent.dropped_eq_behindCloser {kind : BlockKind} {dropped : List Char}
    (h : Silent stack s dropped)
    (hlead : Lead.ofWord (leadingWord (statementText stack s)) = .closes kind) :
    dropped = behindCloser (statementText stack s) := by
  cases h with
  | closes => rfl
  | blank h =>
      rw [h] at hlead
      exact nomatch hlead
  | elsif h | elsifWithoutThen h | otherwise h | jumps h =>
      rw [h] at hlead
      exact nomatch hlead

theorem exists_silent_branch_iff
    (hlead : Lead.ofWord (leadingWord (statementText stack s)) = .branch) :
    (∃ dropped, Silent stack s dropped) ↔
      ∃ dropped, Silent stack (splitHeader "THEN" (afterWord (statementText stack s))).2 dropped := by
  have hblank : Silent stack [] [] := .blank (by rw [statementText]; exact ite_self _)
  constructor
  · rintro ⟨dropped, h⟩
    cases h with
    | blank h =>
        rw [h] at hlead
        cases hlead
    | elsif _ _ hrest => exact ⟨dropped, hrest⟩
    | elsifWithoutThen _ hthen =>
        rw [splitHeader_of_not_containsWord hthen]
        exact ⟨[], hblank⟩
    | otherwise h | closes h | jumps h =>
        rw [h] at hlead
        cases hlead
  · rintro ⟨dropped, h⟩
    cases hthen : containsWord "THEN" (afterWord (statementText stack s)) with
    | true => exact ⟨dropped, .elsif hlead hthen h⟩
    | false => exact ⟨_, .elsifWithoutThen hlead hthen⟩

theorem exists_silent_otherwise_iff
    (hlead : Lead.ofWord (leadingWord (statementText stack s)) = .otherwise) :
    (∃ dropped, Silent stack s dropped) ↔
      ∃ dropped, Silent stack (afterWord (statementText stack s)) dropped := by
  constructor
  · rintro ⟨dropped, h⟩
    cases h with
    | blank h =>
        rw [h] at hlead
        exact nomatch hlead
    | otherwise _ hrest => exact ⟨dropped, hrest⟩
    | elsif h | elsifWithoutThen h | closes h | jumps h =>
        rw [h] at hlead
        exact nomatch hlead
  · rintro ⟨dropped, h⟩
    exact ⟨dropped, .otherwise hlead h⟩

/-- **One statement leaves no trace exactly if it is silent**, by induction on the text that is
    left. -/
theorem readStatement_fst_eq_none_iff (later : List Segment) (line : Nat) (stack : BlockStack)
    (s : List Char) :
    (readStatement later line stack s).1 = .none ↔ ∃ dropped, Silent stack s dropped := by
  induction stack, s using readStatement.induct later line with
  | case1 stack s hblank =>
      rw [readStatement_blank (List.isEmpty_iff.mp hblank)]
      exact ⟨fun _ => ⟨[], .blank (List.isEmpty_iff.mp hblank)⟩, fun _ => rfl⟩
  | case2 stack s hne _ _ kind hlead =>
      rw [readStatement_opens hlead]
      refine ⟨fun h => absurd h (Output.node_append_ne_none _ _), ?_⟩
      rintro ⟨dropped, h⟩
      exact absurd h (not_silent_of_leavesTrace (by simpa using hne) (by rw [hlead]; rfl))
  | case3 stack s _ _ hlead ih =>
      rw [readStatement_branch hlead, exists_silent_branch_iff hlead]
      exact ih
  | case4 stack s _ _ hlead ih =>
      rw [readStatement_otherwise hlead, exists_silent_otherwise_iff hlead]
      exact ih
  | case5 stack s _ _ kind hlead =>
      rw [readStatement_closes hlead]
      exact ⟨fun _ => ⟨_, .closes hlead⟩, fun _ => rfl⟩
  | case6 stack s hne _ hlead =>
      rw [readStatement_returns hlead]
      refine ⟨fun h => absurd (congrArg Output.nodes h) (List.cons_ne_nil _ _), ?_⟩
      rintro ⟨dropped, h⟩
      exact absurd h (not_silent_of_leavesTrace (by simpa using hne) (by rw [hlead]; rfl))
  | case7 stack s _ _ hlead =>
      rw [readStatement_jumps hlead]
      exact ⟨fun _ => ⟨_, .jumps hlead⟩, fun _ => rfl⟩
  | case8 stack s hne _ hlead =>
      rw [readStatement_plain (by simpa using hne) hlead]
      refine ⟨fun h => absurd h (readPlain_ne_none _ _), ?_⟩
      rintro ⟨dropped, h⟩
      exact absurd h (not_silent_of_leavesTrace (by simpa using hne) (by rw [hlead]; rfl))

/-- A silent statement opens no block. -/
theorem subset_blocks_of_fst_eq_none (later : List Segment) (line : Nat) (stack : BlockStack)
    (s : List Char) (h : (readStatement later line stack s).1 = .none) :
    (readStatement later line stack s).2.blocks ⊆ stack.blocks := by
  induction stack, s using readStatement.induct later line with
  | case1 stack s hblank =>
      rw [readStatement_blank (List.isEmpty_iff.mp hblank)]
      exact List.Subset.refl _
  | case2 stack s _ _ _ kind hlead =>
      rw [readStatement_opens hlead] at h
      exact absurd h (Output.node_append_ne_none _ _)
  | case3 stack s _ _ hlead ih =>
      rw [readStatement_branch hlead] at h ⊢
      exact ih h
  | case4 stack s _ _ hlead ih =>
      rw [readStatement_otherwise hlead] at h ⊢
      exact ih h
  | case5 stack s _ _ kind hlead =>
      rw [readStatement_closes hlead]
      exact stack.subset_close kind
  | case6 stack s _ _ hlead =>
      rw [readStatement_returns hlead]
      exact List.Subset.refl _
  | case7 stack s _ _ hlead =>
      rw [readStatement_jumps hlead]
      exact List.Subset.refl _
  | case8 stack s hne _ hlead =>
      rw [readStatement_plain (by simpa using hne) hlead]
      exact List.Subset.refl _

/-! ## A run of segments -/

/-- The segments after a header give a `REPEAT` its condition, but no text. -/
theorem openBlock_snd_congr (later later' : List Segment) (p : Place) (kind : BlockKind)
    (s : List Char) : (openBlock later p kind s).2 = (openBlock later' p kind s).2 := by
  have hrepeat : ∀ ss, (openBlock ss p .repeatBlock s).2 = afterWord s := by
    intro ss
    rw [openBlock]
    cases untilCondition? 0 ss with
    | some => rfl
    | none => rfl
  cases kind with
  | repeatBlock => rw [hrepeat, hrepeat]
  | ifBlock | whileBlock | caseBlock | forBlock => rfl

/-- The blocks that are open behind a statement do not depend on the segments after it. -/
theorem readStatement_snd_congr (later later' : List Segment) (line : Nat) (stack : BlockStack)
    (s : List Char) :
    (readStatement later line stack s).2 = (readStatement later' line stack s).2 := by
  induction stack, s using readStatement.induct later line with
  | case1 stack s hblank =>
      rw [readStatement_blank (List.isEmpty_iff.mp hblank),
        readStatement_blank (List.isEmpty_iff.mp hblank)]
  | case2 stack s _ _ _ kind hlead _ _ _ ih =>
      rw [readStatement_opens hlead, readStatement_opens hlead, openBlock_snd_congr later' later]
      exact ih
  | case3 stack s _ _ hlead ih =>
      rw [readStatement_branch hlead, readStatement_branch hlead]
      exact ih
  | case4 stack s _ _ hlead ih =>
      rw [readStatement_otherwise hlead, readStatement_otherwise hlead]
      exact ih
  | case5 stack s _ _ kind hlead => rw [readStatement_closes hlead, readStatement_closes hlead]
  | case6 stack s _ _ hlead => rw [readStatement_returns hlead, readStatement_returns hlead]
  | case7 stack s _ _ hlead => rw [readStatement_jumps hlead, readStatement_jumps hlead]
  | case8 stack s hne _ hlead =>
      rw [readStatement_plain (by simpa using hne) hlead,
        readStatement_plain (by simpa using hne) hlead]

/-- The blocks that are open behind segments. -/
def stackAfter (stack : BlockStack) (ss : List Segment) : BlockStack := (readSegments stack ss).2

theorem stackAfter_cons (later : List Segment) (stack : BlockStack) (s : Segment)
    (ss : List Segment) :
    stackAfter stack (s :: ss) = stackAfter (readStatement later s.line stack s.text).2 ss := by
  rw [stackAfter, readSegments_cons, readStatement_snd_congr ss later]
  rfl

/-- **Segments are read under the blocks that those before them leave open**, whatever follows. -/
theorem exists_readSegments_append (stack : BlockStack) (ss later : List Segment) :
    ∃ out, (readSegments stack (ss ++ later)).1
      = out ++ (readSegments (stackAfter stack ss) later).1 := by
  induction ss generalizing stack with
  | nil => exact ⟨.none, (Output.none_append _).symm⟩
  | cons s ss ih =>
      obtain ⟨out, hout⟩ := ih (readStatement (ss ++ later) s.line stack s.text).2
      rw [← stackAfter_cons] at hout
      refine ⟨(readStatement (ss ++ later) s.line stack s.text).1 ++ out, ?_⟩
      rw [List.cons_append, readSegments_cons, hout, Output.append_assoc]

/-- One of the segments stands on line `n` and is not silent under the blocks that are open before
    it. -/
def Speaks (stack : BlockStack) (ss : List Segment) (n : Nat) : Prop :=
  ∃ before s later, ss = before ++ s :: later ∧ s.line = n ∧
    ¬ ∃ dropped, Silent (stackAfter stack before) s.text dropped

theorem Speaks.cons {s : Segment} {ss : List Segment} {n : Nat} (later : List Segment)
    (h : Speaks (readStatement later s.line stack s.text).2 ss n) : Speaks stack (s :: ss) n := by
  obtain ⟨before, t, behind, rfl, hline, hspeaks⟩ := h
  rw [← stackAfter_cons] at hspeaks
  exact ⟨s :: before, t, behind, rfl, hline, hspeaks⟩

/-- **What is read stands on the lines of segments that are not silent**, by induction on the
    segments. -/
theorem stands_of_speaks (stack : BlockStack) (ss : List Segment) :
    Stands (Speaks stack ss) stack (readSegments stack ss) := by
  induction ss generalizing stack with
  | nil => exact Stands.none _ stack
  | cons s later ih =>
      have hs := stands_readStatement later s.line stack s.text
      have hlater := ih (readStatement later s.line stack s.text).2
      -- a first segment that adds something is not silent
      have hhere : ∀ {n}, (readStatement later s.line stack s.text).1 ≠ .none → n = s.line →
          Speaks stack (s :: later) n := by
        intro n hne hn
        refine ⟨[], s, later, rfl, hn.symm, ?_⟩
        intro hsilent
        exact hne ((readStatement_fst_eq_none_iff later s.line stack s.text).mpr hsilent)
      rw [readSegments_cons]
      constructor
      case nodes =>
        intro n hn
        rcases List.mem_append.mp hn with hn | hn
        · refine ⟨hhere ?_ (hs.nodes n hn).1, (hs.nodes n hn).2⟩
          intro hnone
          rw [hnone] at hn
          exact nomatch hn
        · exact ⟨(hlater.nodes n hn).1.cons later, (hlater.nodes n hn).2⟩
      case diagnostics =>
        intro d hd
        rcases List.mem_append.mp hd with hd | hd
        · refine hhere ?_ (hs.diagnostics d hd)
          intro hnone
          rw [hnone] at hd
          exact nomatch hd
        · exact (hlater.diagnostics d hd).cons later
      case blocks =>
        intro b hb
        rcases hlater.blocks b hb with hb | hb
        · by_cases hnone : (readStatement later s.line stack s.text).1 = .none
          · exact Or.inl (subset_blocks_of_fst_eq_none later s.line stack s.text hnone hb)
          · exact (hs.blocks b hb).imp_right (hhere hnone)
        · exact Or.inr (hb.cons later)

/-! ## A body -/

namespace Body

/-- A statement or a diagnostic of the body stands on a line. -/
def Traces (b : Body) (n : Nat) : Prop :=
  (∃ m ∈ b.root.children, m.line = n) ∨ ∃ d ∈ b.diagnostics, d.line = n

/-- **A line of a body has a trace exactly if one of its segments is not silent.** -/
theorem traces_ofSegments_iff (unit : String) (ss : List Segment) (n : Nat) :
    (ofSegments unit ss).Traces n ↔ Speaks (.start unit) ss n := by
  constructor
  · have hread := stands_of_speaks (.start unit) ss
    rintro (⟨m, hm, rfl⟩ | ⟨d, hd, rfl⟩)
    · exact (hread.nodes m hm).1
    · rcases List.mem_append.mp hd with hd | hd
      · exact hread.diagnostics d hd
      · -- a block that is never closed is reported on the line of its header
        obtain ⟨b, hb, rfl⟩ := List.mem_map.mp hd
        exact (hread.blocks b (List.mem_reverse.mp hb)).resolve_left nofun
  · rintro ⟨before, s, later, rfl, rfl, hspeaks⟩
    obtain ⟨out, hout⟩ := exists_readSegments_append (.start unit) before (s :: later)
    rw [readSegments_cons] at hout
    generalize stackAfter (.start unit) before = stack at hout hspeaks
    rw [← readStatement_fst_eq_none_iff later s.line] at hspeaks
    have hs := stands_readStatement later s.line stack s.text
    cases hnodes : (readStatement later s.line stack s.text).1.nodes with
    | cons m ms =>
        have hm : m ∈ (readStatement later s.line stack s.text).1.nodes :=
          hnodes ▸ List.mem_cons_self ..
        refine Or.inl ⟨m, ?_, (hs.nodes m hm).1⟩
        show m ∈ (readSegments (.start unit) (before ++ s :: later)).1.nodes
        rw [hout]
        exact List.mem_append_right _ (List.mem_append_left _ hm)
    | nil =>
        obtain ⟨d, hd⟩ : ∃ d, d ∈ (readStatement later s.line stack s.text).1.diagnostics := by
          refine List.exists_mem_of_ne_nil _ ?_
          intro hdiagnostics
          exact hspeaks (Output.ext hnodes hdiagnostics)
        refine Or.inr ⟨d, List.mem_append_left _ ?_, hs.diagnostics d hd⟩
        rw [hout]
        exact List.mem_append_right _ (List.mem_append_left _ hd)

end Body

end StLint.Statement

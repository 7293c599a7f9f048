import StLint.Proofs.Statement.Nested

/-!
# Scopes in well-nested bodies

The reader knows the blocks around a statement from the words that open and close them. Both `UNTIL`
and `END_REPEAT` close the innermost loop `REPEAT`, and where `END_REPEAT` stands on a segment of its
own the loop is closed already. Then it closes nothing, **unless the loop stands inside another one**:
the outer loop is closed with it, and the labels of all that follows in it are wrong.

* `run` — what the reader makes of the rest of a body, with the open blocks before each segment.
* `Nested.output`, `Nested.enclosing` — what the tree says about both.
* `Nested.reaches` — they agree if each `END_REPEAT` of its own stands outside other loops.
* `Nested.straysAlong` — otherwise the labels part somewhere.
* `WellNested.labels_eq_iff` — the labels of a whole body.
-/

namespace StLint

namespace BlockStack

theorem path_cons (unit : String) (b : OpenBlock) (bs : List OpenBlock) :
    (⟨unit, b :: bs⟩ : BlockStack).path = (⟨unit, bs⟩ : BlockStack).path ++ segment b := by
  rw [path, path, List.reverse_cons, List.map_append, String.join_append, String.append_assoc,
    List.map_singleton, String.join_cons, String.join_nil, String.append_empty]

/-- A label gets shorter with each block that is closed. -/
theorem length_path_closeBlocks? (unit : String) {kind : BlockKind} {bs rest : List OpenBlock}
    (h : closeBlocks? kind bs = some rest) :
    (⟨unit, rest⟩ : BlockStack).path.length < (⟨unit, bs⟩ : BlockStack).path.length := by
  have hsegment : ∀ b : OpenBlock, 0 < (segment b).length := by
    intro b
    have hslash : "/".length = 1 := rfl
    rw [segment, String.length_append, String.length_append, String.length_append, hslash]
    omega
  induction bs with
  | nil => cases h
  | cons b bs ih =>
      have hb := hsegment b
      rw [closeBlocks?] at h
      rw [path_cons, String.length_append]
      by_cases hkind : b.kind = kind
      · rw [if_pos hkind] at h
        obtain rfl := Option.some.inj h
        omega
      · rw [if_neg hkind] at h
        have := ih h
        omega

/-- Closing the innermost block of a kind changes nothing if no such block is open. -/
theorem close_of_not_open {s : BlockStack} {kind : BlockKind} (h : s.blocks.any (·.kind = kind) = false) :
    s.close kind = s := by
  have hnone : ∀ bs : List OpenBlock, bs.any (·.kind = kind) = false → closeBlocks? kind bs = none := by
    intro bs
    induction bs with
    | nil => exact fun _ => rfl
    | cons b bs ih =>
        intro hbs
        rw [List.any_cons, Bool.or_eq_false_iff, decide_eq_false_iff_not] at hbs
        rw [closeBlocks?, if_neg hbs.1, ih hbs.2]
  rw [close, close?, hnone _ h]
  rfl

/-- Closing a block that is open changes the label. -/
theorem path_close_ne {s : BlockStack} {kind : BlockKind} (h : s.blocks.any (·.kind = kind) = true) :
    (s.close kind).path ≠ s.path := by
  have hsome : ∀ bs : List OpenBlock, bs.any (·.kind = kind) = true →
      ∃ rest, closeBlocks? kind bs = some rest := by
    intro bs
    induction bs with
    | nil => exact fun hbs => nomatch hbs
    | cons b bs ih =>
        intro hbs
        rw [closeBlocks?]
        by_cases hb : b.kind = kind
        · exact ⟨bs, if_pos hb⟩
        · rw [List.any_cons, decide_eq_false hb, Bool.false_or] at hbs
          rw [if_neg hb]
          exact ih hbs
  obtain ⟨rest, hrest⟩ := hsome _ h
  have hlength := length_path_closeBlocks? s.unit hrest
  rw [close, close?, hrest]
  intro heq
  exact absurd (congrArg String.length heq) (Nat.ne_of_lt hlength)

end BlockStack

namespace Statement

open Text Source
open Expression (Place)

/-! ## The reader at a point -/

/-- The open blocks before each of some segments and behind the last. -/
def openBlocks (stack : BlockStack) : List Segment → List BlockStack
  | [] => [stack]
  | s :: later => stack :: openBlocks (readStatement later s.line stack s.text).2 later

/-- What the reader makes of a body from a point on, and the open blocks before each later segment
    and at the end. -/
def run (stack : BlockStack) (p : Point) : Output × List BlockStack :=
  ((readStatement p.later p.line stack p.rest).1 ++
      (readSegments (readStatement p.later p.line stack p.rest).2 p.later).1,
    openBlocks (readStatement p.later p.line stack p.rest).2 p.later)

theorem exists_openBlocks_eq_cons (stack : BlockStack) (ss : List Segment) :
    ∃ behind, openBlocks stack ss = stack :: behind := by
  cases ss with
  | nil => exact ⟨_, rfl⟩
  | cons s later => exact ⟨_, rfl⟩

/-- At the end of a segment the next ones follow. -/
theorem run_of_blank {stack : BlockStack} {p : Point} (h : statementText stack p.rest = []) :
    run stack p = ((readSegments stack p.later).1, openBlocks stack p.later) := by
  rw [run, readStatement_blank h, Output.none_append]

theorem openBlocks_getLast? (stack : BlockStack) (ss : List Segment) :
    (openBlocks stack ss).getLast? = some (stackAfter stack ss) := by
  induction ss generalizing stack with
  | nil => rfl
  | cons s later ih =>
      rw [stackAfter_cons later, ← ih, openBlocks]
      cases later <;> rfl

/-- **From one point to another** the reader adds `out` and passes segments with the open blocks
    `passed` before them. -/
def Reaches (stack : BlockStack) (p : Point) (out : Output) (passed : List BlockStack)
    (left : BlockStack) (q : Point) : Prop :=
  run stack p = (out ++ (run left q).1, passed ++ (run left q).2)

variable {stack left last : BlockStack} {p q r u : Point} {out more : Output}
  {passed others : List BlockStack} {kind : BlockKind} {n : Nat}

theorem Reaches.refl (stack : BlockStack) (p : Point) : Reaches stack p .none [] stack p := by
  rw [Reaches, Output.none_append]
  rfl

theorem Reaches.trans (h : Reaches stack p out passed left q)
    (hmore : Reaches left q more others last r) :
    Reaches stack p (out ++ more) (passed ++ others) last r := by
  rw [Reaches, h, hmore, Output.append_assoc, List.append_assoc]

/-- A statement that is the last of its segment. -/
theorem reaches_skip (h : readStatement p.later p.line stack p.rest = (out, left)) :
    Reaches stack p out [] left p.skip := by
  rw [Reaches, run_of_blank (p := p.skip) (statementText_nil left), run, h]
  rfl

/-- A statement that goes on with another one. -/
theorem reaches_goTo {rest : List Char} (h : readStatement p.later p.line stack p.rest
      = (out ++ (readStatement p.later p.line left rest).1,
        (readStatement p.later p.line left rest).2)) :
    Reaches stack p out [] left (p.goTo rest) := by
  rw [Reaches, run, run, h, Output.append_assoc]
  rfl

/-- **The next segment** is read under the blocks that are open. -/
theorem reaches_next {s : Segment} {later : List Segment} (hblank : statementText stack p.rest = [])
    (hlater : p.later = s :: later) : Reaches stack p .none [stack] stack (.ofSegment s later) := by
  rw [Reaches, run_of_blank hblank, hlater, readSegments_cons, Output.none_append]
  rfl

/-! ## What the tree says -/

/-- What a statement without further statements behind it adds. -/
def leafOutput (p : Place) (t : List Char) : Output :=
  match Lead.ofWord (leadingWord t) with
  | .plain => readPlain p t
  | .returns => .node (p.node .returnStatement)
  | _ => .none

/-- The open blocks before the segments that the end of a block passes: where `END_REPEAT` stands the
    loop is closed. -/
def BlockEnd.enclosing : BlockEnd stack n u kind → List BlockStack
  | .closer .. | .together .. => []
  | .apart .. => [stack]

/-- An `END_REPEAT` on a segment of its own, inside another loop. -/
def BlockEnd.isInner : BlockEnd stack n u kind → Bool
  | .closer .. | .together .. => false
  | .apart .. => stack.blocks.any (·.kind = .repeatBlock)

namespace Nested

/-- **The nodes and diagnostics of the statements, each in the scope of the blocks around it.** -/
def output : {stack : BlockStack} → {p q : Point} → Nested stack p q → Output
  | _, _, _, nil => .none
  | _, _, _, next _ tail .. => tail.output
  | stack, p, _, leaf tail .. =>
    leafOutput ⟨p.line, stack.path⟩ (statementText stack p.rest) ++ tail.output
  | _, _, _, branch _ tail .. => tail.output
  | stack, p, _, block kind body _ tail .. =>
    .node (openBlock p.later ⟨p.line, stack.path⟩ kind (statementText stack p.rest)).1 ++
      (body.output ++ tail.output)

/-- The blocks around each segment that the statements pass. -/
def enclosing : {stack : BlockStack} → {p q : Point} → Nested stack p q → List BlockStack
  | _, _, _, nil => []
  | stack, _, _, next _ tail .. => stack :: tail.enclosing
  | _, _, _, leaf tail .. => tail.enclosing
  | _, _, _, branch _ tail .. => tail.enclosing
  | _, _, _, block _ body ends tail .. => body.enclosing ++ (ends.enclosing ++ tail.enclosing)

/-- **Each `END_REPEAT` on a segment of its own stands outside all other loops `REPEAT`.** -/
def endsOutside : {stack : BlockStack} → {p q : Point} → Nested stack p q → Bool
  | _, _, _, nil => true
  | _, _, _, next _ tail .. => tail.endsOutside
  | _, _, _, leaf tail .. => tail.endsOutside
  | _, _, _, branch _ tail .. => tail.endsOutside
  | _, _, _, block _ body ends tail .. => body.endsOutside && (!ends.isInner && tail.endsOutside)

end Nested

/-! ## The reader follows the tree -/

theorem reaches_leaf (hne : statementText stack p.rest ≠ [])
    (hlead : (Lead.ofWord (leadingWord (statementText stack p.rest))).isLeaf = true) :
    Reaches stack p (leafOutput ⟨p.line, stack.path⟩ (statementText stack p.rest)) [] stack
      p.skip := by
  refine reaches_skip ?_
  rw [leafOutput]
  cases hword : Lead.ofWord (leadingWord (statementText stack p.rest)) with
  | plain => rw [readStatement_plain hne hword]
  | returns => rw [readStatement_returns hword]
  | jumps => rw [readStatement_jumps hword]
  | opens | closes | branch | otherwise =>
      rw [hword] at hlead
      cases hlead

theorem reaches_branch {rest : List Char} (h : Branch stack p.rest rest) :
    Reaches stack p .none [] stack (p.goTo rest) := by
  refine reaches_goTo ?_
  rw [Output.none_append]
  cases h with
  | elsif _ hlead => rw [readStatement_branch hlead]
  | otherwise _ hlead => rw [readStatement_otherwise hlead]

theorem reaches_opens (hlead : Lead.ofWord (leadingWord (statementText stack p.rest)) = .opens kind) :
    Reaches stack p
      (.node (openBlock p.later ⟨p.line, stack.path⟩ kind (statementText stack p.rest)).1) []
      (stack.push kind p.line)
      (p.goTo (openBlock p.later ⟨p.line, stack.path⟩ kind (statementText stack p.rest)).2) :=
  reaches_goTo (readStatement_opens hlead)

/-- The closing word of a block closes it. -/
theorem reaches_closes
    (hlead : Lead.ofWord (leadingWord (statementText (stack.push kind n) u.rest)) = .closes kind) :
    Reaches (stack.push kind n) u .none [] stack u.skip := by
  refine reaches_skip ?_
  rw [readStatement_closes hlead, BlockStack.close_push]

theorem reaches_until (huntil : LeadsWith "UNTIL" u.rest) :
    Reaches (stack.push .repeatBlock n) u .none [] stack u.skip := by
  refine reaches_closes ?_
  rw [statementText_push (by decide)]
  exact closes_of_leadsWith (Or.inl rfl) huntil

/-- **An `END_REPEAT` on a segment of its own** closes the innermost loop around the loop that it
    ends. -/
theorem reaches_endRepeat {s : Segment} {later : List Segment} (huntil : LeadsWith "UNTIL" u.rest)
    (hlater : u.later = s :: later) (hlabel : statementText stack s.text = trim s.text)
    (hs : LeadsWith "END_REPEAT" s.text) :
    Reaches (stack.push .repeatBlock n) u .none [stack] (stack.close .repeatBlock)
      ⟨s.line, [], later⟩ := by
  have hend : Reaches stack (.ofSegment s later) .none [] (stack.close .repeatBlock)
      (Point.ofSegment s later).skip := by
    refine reaches_skip (readStatement_closes ?_)
    show Lead.ofWord (leadingWord (statementText stack s.text)) = _
    rw [hlabel]
    exact closes_of_leadsWith (Or.inr rfl) hs
  exact ((reaches_until huntil).trans (reaches_next (statementText_nil stack) hlater)).trans hend

theorem BlockEnd.reaches (e : BlockEnd stack n u kind) (h : e.isInner = false) :
    Reaches (stack.push kind n) u .none e.enclosing stack e.after := by
  cases e with
  | closer _ _ hlead => exact reaches_closes hlead
  | together huntil => exact reaches_until huntil
  | apart hlater huntil _ hlabel hs =>
      have hclose : stack.close .repeatBlock = stack := BlockStack.close_of_not_open h
      have hreaches := reaches_endRepeat (n := n) huntil hlater hlabel hs
      rwa [hclose] at hreaches

/-- **The reader follows the tree** if no inner loop ends on a segment of its own, by induction on the
    tree. -/
theorem Nested.reaches (D : Nested stack p q) (h : D.endsOutside = true) :
    Reaches stack p D.output D.enclosing stack q := by
  induction D with
  | nil => exact Reaches.refl _ _
  | next hlater tail _ hblank ih =>
      have hreaches := (reaches_next hblank hlater).trans (ih h)
      rwa [Output.none_append] at hreaches
  | leaf tail _ hne hlead ih => exact (reaches_leaf hne hlead).trans (ih h)
  | branch hbranch tail _ ih =>
      have hreaches := (reaches_branch hbranch).trans (ih h)
      rwa [Output.none_append] at hreaches
  | block kind body ends tail _ hlead ihbody ihtail =>
      rw [endsOutside, Bool.and_eq_true, Bool.and_eq_true, Bool.not_eq_true'] at h
      have htail := (ends.reaches h.2.1).trans (ihtail h.2.2)
      rw [Output.none_append] at htail
      exact (reaches_opens hlead).trans ((ihbody h.1).trans htail)

/-! ## Where the reader leaves the tree -/

/-- At some place of the lists the labels of the blocks differ. -/
def Strays (found expected : List BlockStack) : Prop :=
  ∃ before a b fs es, found = before ++ a :: fs ∧ expected = before ++ b :: es ∧ a.path ≠ b.path

variable {found expected : List BlockStack}

theorem Strays.map_path_ne (h : Strays found expected) :
    found.map BlockStack.path ≠ expected.map BlockStack.path := by
  obtain ⟨before, a, b, fs, es, rfl, rfl, hne⟩ := h
  intro heq
  rw [List.map_append, List.map_append] at heq
  exact hne (List.cons.inj (List.append_cancel_left heq)).1

theorem Strays.append (h : Strays found expected) (more : List BlockStack) :
    Strays found (expected ++ more) := by
  obtain ⟨before, a, b, fs, es, hfound, rfl, hne⟩ := h
  exact ⟨before, a, b, fs, es ++ more, hfound, List.append_assoc .., hne⟩

theorem Strays.prepend (h : Strays found expected) (before : List BlockStack) :
    Strays (before ++ found) (before ++ expected) := by
  obtain ⟨front, a, b, fs, es, rfl, rfl, hne⟩ := h
  exact ⟨before ++ front, a, b, fs, es, (List.append_assoc ..).symm, (List.append_assoc ..).symm, hne⟩

/-- The labels part among the segments that the statements pass, or at the one behind them, if nothing
    is left of the segment in between. -/
def StraysAlong (stack : BlockStack) (q : Point) (found expected : List BlockStack) : Prop :=
  Strays found expected ∨ (statementText stack q.rest = [] ∧ Strays found (expected ++ [stack]))

theorem StraysAlong.prepend (h : StraysAlong stack q found expected) (before : List BlockStack) :
    StraysAlong stack q (before ++ found) (before ++ expected) := by
  rcases h with h | ⟨hrest, h⟩
  · exact Or.inl (h.prepend before)
  · refine Or.inr ⟨hrest, ?_⟩
    rw [List.append_assoc]
    exact h.prepend before

theorem Reaches.straysAlong {around : BlockStack} (hreaches : Reaches stack p out passed left r)
    (h : StraysAlong around q (run left r).2 expected) :
    StraysAlong around q (run stack p).2 (passed ++ expected) := by
  rw [hreaches]
  exact h.prepend passed

/-- **With other blocks open than the tree says** the label of the next segment is wrong, or the one
    behind the last. -/
theorem Nested.straysAlong_of_path_ne (D : Nested stack p q) (hrest : statementText stack p.rest = [])
    (hne : left.path ≠ stack.path) (later : List Segment) :
    StraysAlong stack q (openBlocks left later) D.enclosing := by
  have hplain : Lead.ofWord (leadingWord []) = .plain := by decide
  obtain ⟨behind, hopen⟩ := exists_openBlocks_eq_cons left later
  rw [hopen]
  cases D with
  | nil => exact Or.inr ⟨hrest, [], left, stack, behind, [], rfl, rfl, hne⟩
  | next _ tail => exact Or.inl ⟨[], left, stack, behind, tail.enclosing, rfl, rfl, hne⟩
  | leaf _ _ hnil => exact absurd hrest hnil
  | branch hbranch =>
      cases hbranch with
      | elsif _ hlead | otherwise _ hlead =>
          rw [hrest, hplain] at hlead
          cases hlead
  | block _ _ _ _ _ hlead =>
      rw [hrest, hplain] at hlead
      cases hlead

/-- **The reader leaves the tree** where an inner loop ends on a segment of its own, by induction on
    the tree up to the first such place. -/
theorem Nested.straysAlong (D : Nested stack p q) (h : D.endsOutside = false) :
    StraysAlong stack q (run stack p).2 D.enclosing := by
  induction D with
  | nil => cases h
  | next hlater tail _ hblank ih => exact (reaches_next hblank hlater).straysAlong (ih h)
  | leaf tail _ hne hlead ih => exact (reaches_leaf hne hlead).straysAlong (ih h)
  | branch hbranch tail _ ih => exact (reaches_branch hbranch).straysAlong (ih h)
  | block kind body ends tail _ hlead ihbody ihtail =>
      have hopens := reaches_opens hlead
      cases hbody : body.endsOutside with
      | false =>
          -- the closing word of the block is still to come
          have hstrays := (ihbody hbody).resolve_right fun hr => ends.statementText_ne_nil hr.1
          exact hopens.straysAlong (Or.inl (hstrays.append _))
      | true =>
          refine hopens.straysAlong ((body.reaches hbody).straysAlong ?_)
          cases hinner : ends.isInner with
          | false =>
              rw [endsOutside, hbody, hinner] at h
              exact (ends.reaches hinner).straysAlong (ihtail h)
          | true =>
              cases ends with
              | closer | together => cases hinner
              | apart hlater huntil _ hlabel hs =>
                  refine (reaches_endRepeat huntil hlater hlabel hs).straysAlong ?_
                  rw [run_of_blank (statementText_nil _)]
                  exact tail.straysAlong_of_path_ne (statementText_nil _)
                    (BlockStack.path_close_ne hinner) _

/-! ## Whole bodies -/

namespace WellNested

variable {unit : String} {ss : List Segment}

/-- The scope labels of a body: before each of its segments, and behind the last. -/
def labels (D : WellNested unit ss) : List String :=
  (D.tree.enclosing ++ [BlockStack.start unit]).map BlockStack.path

theorem run_start (unit : String) (ss : List Segment) :
    run (.start unit) ⟨0, [], ss⟩ = ((readSegments (.start unit) ss).1, openBlocks (.start unit) ss) :=
  run_of_blank (statementText_nil _)

/-- The reader at the end of a body that it has followed. -/
theorem run_eq (D : WellNested unit ss) (h : D.tree.endsOutside = true) :
    (readSegments (.start unit) ss).1.nodes = D.tree.output.nodes ∧
      (readSegments (.start unit) ss).1.diagnostics = D.tree.output.diagnostics ∧
      openBlocks (.start unit) ss = D.tree.enclosing ++ [.start unit] := by
  have hrun := D.tree.reaches h
  rw [Reaches, run_start, run_of_blank (statementText_nil _)] at hrun
  obtain ⟨hout, hopen⟩ := Prod.mk.inj hrun
  refine ⟨?_, ?_, hopen⟩
  · rw [hout]
    exact List.append_nil _
  · rw [hout]
    exact List.append_nil _

end WellNested

/-- A statement without a keyword is one node, and no loop, or it is not recognized. -/
theorem readPlain_cases (p : Place) (t : List Char) :
    (∃ m, readPlain p t = .node m ∧ m.kind ≠ .repeatLoop) ∨
      readPlain p t = ⟨[], [⟨.unrecognizedStatement, p.line, String.ofList t⟩]⟩ := by
  rw [readPlain]
  cases cutTopLevel? ":=" t with
  | some sides => exact Or.inl ⟨_, rfl, fun hkind => by cases hkind⟩
  | none =>
      cases Expression.splitUnitCall? (stripStatementEnd t) with
      | some call => exact Or.inl ⟨_, rfl, fun hkind => by cases hkind⟩
      | none => exact Or.inr rfl

theorem kind_of_mem_readPlain {p : Place} {t : List Char} {d : Diagnostic}
    (hd : d ∈ (readPlain p t).diagnostics) : d.kind = .unrecognizedStatement := by
  rcases readPlain_cases p t with ⟨m, hread, -⟩ | hread
  · rw [hread] at hd
    cases hd
  · rw [hread] at hd
    rw [List.mem_singleton.mp hd]

/-- The statements of a tree that are not recognized are all that is reported about it. -/
theorem Nested.kind_of_mem_output (D : Nested stack p q) {d : Diagnostic}
    (hd : d ∈ D.output.diagnostics) : d.kind = .unrecognizedStatement := by
  induction D with
  | nil => cases hd
  | next _ tail _ _ ih => exact ih hd
  | leaf tail _ _ hlead ih =>
      rcases List.mem_append.mp hd with hd | hd
      · rw [leafOutput] at hd
        split at hd
        · exact kind_of_mem_readPlain hd
        · cases hd
        · cases hd
      · exact ih hd
  | branch _ tail _ ih => exact ih hd
  | block kind body ends tail _ _ ihbody ihtail =>
      rcases List.mem_append.mp hd with hd | hd
      · cases hd
      · rcases List.mem_append.mp hd with hd | hd
        · exact ihbody hd
        · exact ihtail hd

/-- **The labels of a well-nested body** are those of the blocks around its segments exactly if each
    `END_REPEAT` on a segment of its own stands outside all other loops `REPEAT`. Then each node of
    the body stands in the scope of the blocks around its statement, and no block is reported as
    unterminated. -/
theorem WellNested.labels_eq_iff {unit : String} {ss : List Segment} (D : WellNested unit ss) :
    ((openBlocks (.start unit) ss).map BlockStack.path = D.labels ↔ D.tree.endsOutside = true) ∧
      (D.tree.endsOutside = true →
        (Body.ofSegments unit ss).root.children = D.tree.output.nodes ∧
          ∀ d ∈ (Body.ofSegments unit ss).diagnostics, d.kind = .unrecognizedStatement) := by
  refine ⟨⟨?_, ?_⟩, ?_⟩
  · intro heq
    by_contra hinner
    have hstrays := D.tree.straysAlong (eq_false_of_ne_true hinner)
    rw [run_start] at hstrays
    rcases hstrays with hstrays | ⟨-, hstrays⟩
    · exact (hstrays.append _).map_path_ne heq
    · exact hstrays.map_path_ne heq
  · intro hends
    rw [(D.run_eq hends).2.2]
    rfl
  · intro hends
    obtain ⟨hnodes, hdiagnostics, hopen⟩ := D.run_eq hends
    have hlast := openBlocks_getLast? (.start unit) ss
    rw [hopen, List.getLast?_append, List.getLast?_singleton] at hlast
    have hafter : (readSegments (.start unit) ss).2 = .start unit := (Option.some.inj hlast).symm
    refine ⟨hnodes, ?_⟩
    intro d hd
    rw [Body.ofSegments] at hd
    dsimp only at hd
    rw [hafter, hdiagnostics] at hd
    rcases List.mem_append.mp hd with hd | hd
    · exact D.tree.kind_of_mem_output hd
    · cases hd

/-- A loop in a branch in a loop; the inner one is closed on one segment. -/
def closedOnOneSegment : List Segment :=
  [⟨1, "REPEAT".toList⟩, ⟨2, "IF a THEN".toList⟩, ⟨3, "REPEAT UNTIL b END_REPEAT".toList⟩,
    ⟨4, "END_IF".toList⟩, ⟨5, "UNTIL c".toList⟩, ⟨6, "END_REPEAT".toList⟩]

/-- Its tree. -/
def closedOnOneSegmentTree : WellNested "Main" closedOnOneSegment where
  line := 6
  tree :=
    .next rfl <|
    .block .repeatBlock
      (.next rfl <|
        .block .ifBlock
          (.next rfl <| .block .repeatBlock .nil .together <| .next rfl .nil)
          .closer <|
        .next rfl .nil)
      (.apart rfl)
      .nil

/-- Nothing is reported about it. -/
theorem labels_eq_iff_closedOnOneSegment :
    (openBlocks (.start "Main") closedOnOneSegment).map BlockStack.path
        = ["Main", "Main/REPEAT@1", "Main/REPEAT@1/IF@2", "Main/REPEAT@1/IF@2", "Main/REPEAT@1", "Main",
          "Main"] ∧
      (Body.ofSegments "Main" closedOnOneSegment).root.children
        = closedOnOneSegmentTree.tree.output.nodes := by
  obtain ⟨hlabels, hbody⟩ := closedOnOneSegmentTree.labels_eq_iff
  have hends : closedOnOneSegmentTree.tree.endsOutside = true := rfl
  refine ⟨(hlabels.mpr hends).trans ?_, (hbody hends).1⟩
  decide

/-- A loop in a loop, each with its `END_REPEAT` on a segment of its own. -/
def closedOnTwoSegments : List Segment :=
  [⟨1, "REPEAT".toList⟩, ⟨2, "REPEAT".toList⟩, ⟨3, "x := 1".toList⟩, ⟨4, "UNTIL a".toList⟩,
    ⟨5, "END_REPEAT".toList⟩, ⟨6, "y := 2".toList⟩, ⟨7, "UNTIL b".toList⟩, ⟨8, "END_REPEAT".toList⟩]

/-- Its tree. -/
def closedOnTwoSegmentsTree : WellNested "Main" closedOnTwoSegments where
  line := 8
  tree :=
    .next rfl <|
    .block .repeatBlock
      (.next rfl <|
        .block .repeatBlock (.next rfl <| .leaf <| .next rfl .nil) (.apart rfl) <|
        .next rfl <| .leaf <| .next rfl .nil)
      (.apart rfl)
      .nil

/-- **The second assignment stands in the outer loop**, and in the scope of the unit. -/
theorem inner_endRepeat_closes_outer_loop :
    closedOnTwoSegmentsTree.tree.output.nodes.map Node.scope
        = ["Main", "Main/REPEAT@1", "Main/REPEAT@1/REPEAT@2", "Main/REPEAT@1"] ∧
      (Body.ofSegments "Main" closedOnTwoSegments).root.children.map Node.scope
        = ["Main", "Main/REPEAT@1", "Main/REPEAT@1/REPEAT@2", "Main"] := by
  decide +kernel

end Statement

end StLint

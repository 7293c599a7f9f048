import Mathlib.Data.List.Induction
import StLint.Expression.Literal
import StLint.Proofs.Statement.Shift
import StLint.Suggestion.Rules

/-!
# Stacks and their labels

A scope label is all that a node keeps of the blocks around it. Whatever is opened and closed, **the label
tells the stack**: the open blocks can be read back, the slashes count them, a part that begins like a
loop stands for a loop, and moving the lines in the text moves the lines of the blocks.

What closing a block leaves is a state that the stack has been in before: the one in which the block that
it closes was opened.

* `BlockStack.Operation`, `BlockStack.after` — a history of a stack.
* `BlockStack.readPath?` — the stack of a label; `readPath?_path`.
* `BlockStack.exists_opening` — each open block was opened under the blocks that stand around it.
* `BlockStack.path_faithful` — all that the label tells, after every history.
-/

namespace StLint

open Text

/-! ## Reading a label back -/

/-- A line number is read back from its digits, however long. -/
theorem Literal.digitsValue?_toString (n : Nat) :
    Literal.digitsValue? (toString n).toList = some n := by
  rw [Literal.digitsValue?, if_pos (List.all_eq_true.mpr fun _ => isDigit_of_mem_toString),
    foldl_toString]

namespace BlockKind

/-- The kinds of blocks. -/
def all : List BlockKind := [ifBlock, forBlock, whileBlock, caseBlock, repeatBlock]

/-- The kind of block that a keyword opens. -/
def ofKeyword? (s : List Char) : Option BlockKind := all.find? fun k => k.keyword.toList == s

theorem ofKeyword?_keyword (k : BlockKind) : ofKeyword? k.keyword.toList = some k := by
  cases k <;> decide

end BlockKind

/-- The block that a part of a label stands for. -/
def OpenBlock.ofLabel? (part : List Char) : Option OpenBlock :=
  match part.dropWhile (· ≠ '@') with
  | [] => none
  | _ :: line =>
    (BlockKind.ofKeyword? (part.takeWhile (· ≠ '@'))).bind fun kind =>
      (Literal.digitsValue? line).map fun n => ⟨kind, n⟩

theorem OpenBlock.ofLabel?_label (b : OpenBlock) : ofLabel? b.label = some b := by
  have hdrop : b.label.dropWhile (· ≠ '@') = '@' :: (toString b.line).toList :=
    dropWhile_ne_append b.kind.not_mem_keyword.2 _
  have htake : b.label.takeWhile (· ≠ '@') = b.kind.keyword.toList :=
    takeWhile_ne_append b.kind.not_mem_keyword.2 _
  rw [ofLabel?, hdrop]
  dsimp only
  rw [htake, BlockKind.ofKeyword?_keyword, Literal.digitsValue?_toString]
  rfl

namespace BlockStack

/-- The unit of a label, and the blocks that it names, outermost first. -/
def readPath? (label : List Char) : Option (String × List OpenBlock) :=
  match splitOn '/' label with
  | [] => none
  | unit :: parts => (parts.mapM OpenBlock.ofLabel?).map fun blocks => (String.ofList unit, blocks)

/-- **The open blocks are read back** from the label. -/
theorem readPath?_path {s : BlockStack} (hu : '/' ∉ s.unit.toList) :
    readPath? s.path.toList = some (s.unit, s.outermostFirst) := by
  have hparts : ∀ bs : List OpenBlock, (bs.map OpenBlock.label).mapM OpenBlock.ofLabel? = some bs := by
    intro bs
    induction bs with
    | nil => rfl
    | cons b bs ih => simp [OpenBlock.ofLabel?_label, ih]
  rw [readPath?, splitOn_path hu]
  dsimp only
  rw [hparts, String.ofList_toList]
  rfl

/-! ## What is read off a label -/

/-- Opening a block adds a part to the label. -/
theorem toList_path_push (s : BlockStack) (kind : BlockKind) (line : Nat) :
    (s.push kind line).path.toList = s.path.toList ++ '/' :: (⟨kind, line⟩ : OpenBlock).label := by
  simp [path, push, segment, OpenBlock.label, String.toList_join]

/-- **The slashes count the open blocks.** -/
theorem count_slash_path {s : BlockStack} (hu : '/' ∉ s.unit.toList) :
    s.path.toList.count '/' = s.depth := by
  obtain ⟨unit, blocks⟩ := s
  induction blocks with
  | nil =>
      show (unit ++ String.join []).toList.count '/' = 0
      simpa using List.count_eq_zero.mpr hu
  | cons b bs ih =>
      have hlabel := List.count_eq_zero.mpr b.slash_not_mem_label
      have hpush := toList_path_push ⟨unit, bs⟩ b.kind b.line
      show ((⟨unit, bs⟩ : BlockStack).push b.kind b.line).path.toList.count '/' = bs.length + 1
      rw [hpush, List.count_append, ih hu, List.count_cons_self, hlabel]
      rfl

/-- A part of a label begins like that of a loop exactly if it stands for one. -/
theorem any_loopLabels_label (b : OpenBlock) :
    (Rules.loopLabels.any fun l => l.toList.isPrefixOf b.label) = b.kind.isLoop := by
  obtain ⟨kind, line⟩ := b
  cases kind <;>
    simp [Rules.loopLabels, OpenBlock.label, BlockKind.keyword, BlockKind.isLoop, List.isPrefixOf]

/-- **A label names a loop** exactly if one is open. -/
theorem isInsideLoop_path_iff {s : BlockStack} (hu : '/' ∉ s.unit.toList) :
    Rules.isInsideLoop s.path = true ↔ 0 < s.loopDepth := by
  rw [Rules.isInsideLoop, splitOn_path hu, List.drop_one, List.tail_cons, List.any_map, loopDepth,
    List.countP_pos_iff, List.any_eq_true]
  simp only [Function.comp_apply, any_loopLabels_label, List.mem_reverse]

/-! ## Histories -/

/-- What is done to the open blocks of a unit. -/
inductive Operation where
  | push (kind : BlockKind) (line : Nat)
  | close (kind : BlockKind)
  deriving DecidableEq, Repr

/-- The stack after one operation. -/
def step (s : BlockStack) : Operation → BlockStack
  | .push kind line => s.push kind line
  | .close kind => s.close kind

/-- The stack after a history. -/
def after (s : BlockStack) (history : List Operation) : BlockStack := history.foldl step s

theorem after_concat (s : BlockStack) (history : List Operation) (op : Operation) :
    s.after (history ++ [op]) = (s.after history).step op := by
  simp [after]

@[simp] theorem unit_after (s : BlockStack) (history : List Operation) :
    (s.after history).unit = s.unit := by
  induction history generalizing s with
  | nil => rfl
  | cons op history ih =>
      show ((s.step op).after history).unit = s.unit
      rw [ih]
      cases op with
      | push kind line => rfl
      | close kind => exact unit_close s kind

/-- What closing a kind of block leaves: the blocks around the innermost one of that kind. -/
theorem closeBlocks?_eq_some_iff {kind : BlockKind} {bs outer : List OpenBlock} :
    closeBlocks? kind bs = some outer ↔
      ∃ inner line, bs = inner ++ ⟨kind, line⟩ :: outer ∧ ∀ b ∈ inner, b.kind ≠ kind := by
  induction bs with
  | nil => simp [closeBlocks?]
  | cons b bs ih =>
      rw [closeBlocks?]
      by_cases hk : b.kind = kind
      · rw [if_pos hk]
        constructor
        · rintro h
          exact ⟨[], b.line, by rw [← hk, ← Option.some.inj h]; rfl, List.forall_mem_nil _⟩
        · rintro ⟨inner, line, hbs, hinner⟩
          cases inner with
          | nil => rw [(List.cons.inj hbs).2]
          | cons c inner =>
              obtain ⟨rfl, -⟩ := List.cons.inj hbs
              exact absurd hk (hinner b (List.mem_cons_self ..))
      · rw [if_neg hk, ih]
        constructor
        · rintro ⟨inner, line, rfl, hinner⟩
          exact ⟨b :: inner, line, rfl, List.forall_mem_cons.mpr ⟨hk, hinner⟩⟩
        · rintro ⟨inner, line, hbs, hinner⟩
          cases inner with
          | nil => exact absurd (by rw [(List.cons.inj hbs).1]) hk
          | cons c inner =>
              obtain ⟨rfl, hrest⟩ := List.cons.inj hbs
              exact ⟨inner, line, hrest, (List.forall_mem_cons.mp hinner).2⟩

theorem close?_eq_none_iff {s : BlockStack} {kind : BlockKind} :
    s.close? kind = none ↔ ∀ b ∈ s.blocks, b.kind ≠ kind := by
  rw [close?, Option.map_eq_none_iff]
  generalize s.blocks = bs
  induction bs with
  | nil => simp [closeBlocks?]
  | cons b bs ih => by_cases hk : b.kind = kind <;> simp [closeBlocks?, hk, ih]

/-- **Each open block was opened** under the blocks that stand around it now. -/
theorem exists_opening {unit : String} {history : List Operation} {inner outer : List OpenBlock}
    {b : OpenBlock} (h : ((start unit).after history).blocks = inner ++ b :: outer) :
    ∃ earlier later, history = earlier ++ .push b.kind b.line :: later ∧
      (start unit).after earlier = ⟨unit, outer⟩ := by
  -- on the last operation: it opened the block, or the block was open before it
  induction history using List.reverseRecOn generalizing inner with
  | nil => exact absurd h.symm (List.append_ne_nil_of_right_ne_nil inner (List.cons_ne_nil b outer))
  | append_singleton history op ih =>
      have hbefore : ∀ {inner : List OpenBlock},
          ((start unit).after history).blocks = inner ++ b :: outer →
            ∃ earlier later, history ++ [op] = earlier ++ .push b.kind b.line :: later ∧
              (start unit).after earlier = ⟨unit, outer⟩ := by
        intro inner hblocks
        obtain ⟨earlier, later, rfl, hearlier⟩ := ih hblocks
        exact ⟨earlier, later ++ [op], by simp, hearlier⟩
      rw [after_concat] at h
      cases op with
      | push kind line =>
          cases inner with
          | nil =>
              obtain ⟨rfl, houter⟩ := List.cons.inj h
              refine ⟨history, [], rfl, ?_⟩
              rw [← houter]
              show (⟨((start unit).after history).unit, _⟩ : BlockStack) = _
              rw [unit_after]
              rfl
          | cons c inner => exact hbefore (List.cons.inj h).2
      | close kind =>
          rw [step, close, close?] at h
          cases hclose : closeBlocks? kind ((start unit).after history).blocks with
          | none =>
              rw [hclose] at h
              exact hbefore h
          | some rest =>
              rw [hclose] at h
              obtain ⟨closed, line, hblocks, -⟩ := closeBlocks?_eq_some_iff.mp hclose
              have hrest : rest = inner ++ b :: outer := h
              have hopen : ((start unit).after history).blocks
                  = (closed ++ ⟨kind, line⟩ :: inner) ++ b :: outer := by
                rw [hblocks, hrest, List.append_assoc]
                rfl
              exact hbefore hopen

/-! ## What a label tells -/

/-- Closing a kind of block, where `history` led to the stack: without an open block of that kind it is
    refused and nothing changes. Else it leaves the state in which the innermost open block of that kind was
    opened. -/
structure ClosesInnermost (unit : String) (history : List Operation) (kind : BlockKind) : Prop where
  /-- Only then is it refused. -/
  refused_iff : ((start unit).after history).close? kind = none ↔
    ∀ b ∈ ((start unit).after history).blocks, b.kind ≠ kind
  /-- Then nothing changes. -/
  refused : ((start unit).after history).close? kind = none →
    ((start unit).after history).close kind = (start unit).after history
  /-- The blocks that are kept are those that were open before the innermost one of the kind. -/
  closed : ∀ s, ((start unit).after history).close? kind = some s →
    ((start unit).after history).close kind = s ∧
    ∃ inner line, ((start unit).after history).blocks = inner ++ ⟨kind, line⟩ :: s.blocks ∧
      (∀ b ∈ inner, b.kind ≠ kind) ∧
      ∃ earlier later, history = earlier ++ .push kind line :: later ∧ (start unit).after earlier = s

theorem closesInnermost (unit : String) (history : List Operation) (kind : BlockKind) :
    ClosesInnermost unit history kind where
  refused_iff := close?_eq_none_iff
  refused := by
    intro h
    rw [close, h]
    rfl
  closed := by
    intro s h
    refine ⟨by rw [close, h]; rfl, ?_⟩
    obtain ⟨outer, hclose, rfl⟩ := Option.map_eq_some_iff.mp h
    obtain ⟨inner, line, hblocks, hinner⟩ := closeBlocks?_eq_some_iff.mp hclose
    obtain ⟨earlier, later, hhistory, hearlier⟩ := exists_opening hblocks
    refine ⟨inner, line, hblocks, hinner, earlier, later, hhistory, ?_⟩
    rw [hearlier, unit_after]
    rfl

/-- **The label tells the stack.** After every history of a unit whose name holds no slash and no `@`, the
    open blocks are read back from the label, the nesting depth of a node with this label is their number,
    the label names a loop exactly if one is open, and moving its lines moves the lines of the blocks, where
    these fit in 64 bits. What closing a block leaves is a state that the stack was in before. -/
theorem path_faithful {unit : String} (hu : IsLabelName unit) (history : List Operation) :
    let s := (start unit).after history
    readPath? s.path.toList = some (unit, s.outermostFirst) ∧
      (∀ n : Node, n.scope = s.path → n.nestingDepth = s.depth) ∧
      (Rules.isInsideLoop s.path = true ↔ 0 < s.loopDepth) ∧
      (∀ n, (∀ b ∈ s.blocks, b.line + n < limit64) →
        shiftScope n s.path.toList = (s.shift n).path.toList) ∧
      ∀ kind, ClosesInnermost unit history kind := by
  intro s
  have hunit : s.unit = unit := unit_after (start unit) history
  have hname : IsLabelName s.unit := hunit ▸ hu
  refine ⟨?_, ?_, isInsideLoop_path_iff hname.1, ?_, closesInnermost unit history⟩
  · rw [readPath?_path hname.1, hunit]
  · intro n hn
    rw [Node.nestingDepth, hn, count_slash_path hname.1]
  · intro n hfits
    refine shiftScope_path n hname ?_
    intro b hb
    exact Nat.lt_of_le_of_lt (Nat.le_add_right ..) (hfits b hb)

/-- A loop in a condition, in which another condition was opened and discarded. -/
def loopHistory : List Operation :=
  [.push .ifBlock 3, .push .whileBlock 5, .push .ifBlock 7, .close .forBlock, .push .caseBlock 8,
    .close .ifBlock, .push .repeatBlock 12]

/-- The label of the loop and the condition is read back, and moved by two lines. -/
theorem path_faithful_loopHistory :
    IsLabelName "Main" ∧
      readPath? "Main/IF@3/WHILE@5/REPEAT@12".toList
        = some ("Main", [⟨.ifBlock, 3⟩, ⟨.whileBlock, 5⟩, ⟨.repeatBlock, 12⟩]) ∧
      Rules.isInsideLoop "Main/IF@3/WHILE@5/REPEAT@12" = true ∧
      shiftScope 2 "Main/IF@3/WHILE@5/REPEAT@12".toList = "Main/IF@5/WHILE@7/REPEAT@14".toList ∧
      ClosesInnermost "Main" loopHistory .ifBlock := by
  have hname : IsLabelName "Main" := ⟨by decide, by decide⟩
  have hblocks : ((start "Main").after loopHistory).blocks
      = [⟨.repeatBlock, 12⟩, ⟨.whileBlock, 5⟩, ⟨.ifBlock, 3⟩] := by decide
  have hpath : ((start "Main").after loopHistory).path = "Main/IF@3/WHILE@5/REPEAT@12" := by
    decide +kernel
  obtain ⟨hread, -, hloop, hshift, hclose⟩ := path_faithful hname loopHistory
  rw [hpath] at hread hloop hshift
  refine ⟨hname, hread.trans ?_, hloop.mpr ?_, (hshift 2 ?_).trans ?_, hclose .ifBlock⟩
  · rw [outermostFirst, hblocks]
    rfl
  · rw [loopDepth, hblocks]
    decide
  · rw [hblocks]
    decide
  · decide +kernel

end BlockStack

end StLint

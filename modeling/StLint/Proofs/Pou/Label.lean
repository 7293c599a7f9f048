import StLint.Pou.Segment
import StLint.Proofs.Text.Lines
import StLint.Proofs.Text.Word
import StLint.Statement.Block

/-!
# Scope labels

A scope label is the text of a stack of open blocks, and moving a unit down rewrites that text. The
two agree: **moving the label is moving the stack**, provided that the name of the unit holds none
of the characters that structure a label, and that every line fits in 64 bits.

* `lineNumber?_toString` — a line number is read back from its digits.
* `BlockStack.toList_path` — a label is its parts, joined by slashes.
* `BlockStack.shiftScope_path` — moving the label is moving the stack.
-/

namespace StLint

open Text

/-! ## Numbers -/

/-- A number is written with digits. -/
theorem isDigit_of_mem_toString {n : Nat} {c : Char} (h : c ∈ (toString n).toList) :
    isDigit c = true := by
  rw [Nat.toString_eq_repr, Nat.toList_repr] at h
  have hd := Nat.isDigit_of_mem_toDigits (by decide) (by decide) h
  rw [Char.isDigit, Bool.and_eq_true, decide_eq_true_eq, decide_eq_true_eq] at hd
  rw [isDigit, Bool.and_eq_true, decide_eq_true_eq, decide_eq_true_eq]
  exact hd

theorem not_mem_toString {c : Char} (hc : isDigit c = false) (n : Nat) :
    c ∉ (toString n).toList := by
  intro h
  rw [isDigit_of_mem_toString h] at hc
  exact Bool.noConfusion hc

/-- The digits of a number add up to it. -/
theorem foldl_toString (n : Nat) :
    (toString n).toList.foldl (fun n c => 10 * n + (c.toNat - '0'.toNat)) 0 = n := by
  rw [Nat.toString_eq_repr, Nat.toList_repr, ← Nat.ofDigitChars_eq_foldl]
  exact Nat.ofDigitChars_ten_toDigits

/-- A line number is read back from its digits, as long as it fits in 64 bits. -/
theorem lineNumber?_toString {n : Nat} (h : n < limit64) :
    lineNumber? (toString n).toList = some n := by
  have hne : (toString n).toList ≠ [] := by
    rw [Nat.toString_eq_repr, Nat.toList_repr]
    exact Nat.toDigits_ne_nil
  -- no digit is the sign that a number may begin with
  have hsign : dropPrefix? ['+'] (toString n).toList = none := by
    obtain ⟨c, r, hc⟩ := List.exists_cons_of_ne_nil hne
    have hplus : '+' ≠ c := by
      rintro rfl
      exact not_mem_toString (by decide) n (hc ▸ List.mem_cons_self ..)
    rw [hc, dropPrefix?, if_neg]
    simp [List.isPrefixOf, hplus]
  have hall : (toString n).toList.all isDigit = true :=
    List.all_eq_true.mpr fun _ => isDigit_of_mem_toString
  rw [lineNumber?, hsign, Option.getD_none, hall, foldl_toString, if_neg, if_pos h]
  simp

/-! ## Labels -/

/-- A block, moved down by `n` lines. -/
def OpenBlock.shift (n : Nat) (b : OpenBlock) : OpenBlock := { b with line := b.line + n }

/-- The part of a label for one block, without the slash before it. -/
def OpenBlock.label (b : OpenBlock) : List Char :=
  b.kind.keyword.toList ++ '@' :: (toString b.line).toList

/-- A name that leaves the structure of a label readable. -/
def IsLabelName (name : String) : Prop := '/' ∉ name.toList ∧ '@' ∉ name.toList

theorem BlockKind.not_mem_keyword (k : BlockKind) :
    '/' ∉ k.keyword.toList ∧ '@' ∉ k.keyword.toList := by
  cases k <;> decide

theorem OpenBlock.slash_not_mem_label (b : OpenBlock) : '/' ∉ b.label := by
  intro h
  rcases List.mem_append.mp h with h | h
  · exact b.kind.not_mem_keyword.1 h
  · rcases List.mem_cons.mp h with h | h
    · exact absurd h (by decide)
    · exact not_mem_toString (by decide) b.line h

/-- Moving the part of a label moves its block. -/
theorem OpenBlock.shiftLabel_label (n : Nat) {b : OpenBlock} (h : b.line < limit64) :
    shiftLabel n b.label = (b.shift n).label := by
  have hdrop : b.label.dropWhile (· ≠ '@') = '@' :: (toString b.line).toList :=
    dropWhile_ne_append b.kind.not_mem_keyword.2 _
  have htake : b.label.takeWhile (· ≠ '@') = b.kind.keyword.toList :=
    takeWhile_ne_append b.kind.not_mem_keyword.2 _
  rw [shiftLabel, hdrop]
  dsimp only
  rw [lineNumber?_toString h, htake]
  rfl

/-- A part without a number stays. -/
theorem shiftLabel_of_not_mem (n : Nat) {s : List Char} (h : '@' ∉ s) : shiftLabel n s = s := by
  rw [shiftLabel, dropWhile_ne_of_not_mem h]

namespace BlockStack

/-- A stack, moved down by `n` lines. -/
def shift (n : Nat) (s : BlockStack) : BlockStack := { s with blocks := s.blocks.map (·.shift n) }

/-- **A label is its parts, joined by slashes**: the unit, then the open blocks from the outermost
    on. -/
theorem toList_path (s : BlockStack) :
    s.path.toList = ['/'].intercalate (s.unit.toList :: s.blocks.reverse.map OpenBlock.label) := by
  have hseg : ∀ b : OpenBlock, (segment b).toList = '/' :: b.label := by
    intro b
    simp [segment, OpenBlock.label]
  have hjoin : ∀ (u : List Char) (bs : List OpenBlock),
      u ++ bs.flatMap (fun b => '/' :: b.label) = ['/'].intercalate (u :: bs.map OpenBlock.label) := by
    intro u bs
    induction bs generalizing u with
    | nil => simp
    | cons b bs ih =>
        rw [List.map_cons, List.intercalate_cons_cons, ← ih, List.flatMap_cons]
        simp
  rw [path, String.toList_append, String.toList_join, List.flatMap_map, ← hjoin]
  congr 1
  rw [show (fun b => (segment b).toList) = fun b => ('/' :: b.label : List Char) from funext hseg]

/-- A label is cut into its parts again. -/
theorem splitOn_path {s : BlockStack} (hu : '/' ∉ s.unit.toList) :
    splitOn '/' s.path.toList = s.unit.toList :: s.blocks.reverse.map OpenBlock.label := by
  rw [toList_path, splitOn_eq_list_splitOn]
  refine List.splitOn_intercalate '/' ?_ (List.cons_ne_nil _ _)
  intro p hp
  rcases List.mem_cons.mp hp with rfl | hp
  · exact hu
  · obtain ⟨b, -, rfl⟩ := List.mem_map.mp hp
    exact b.slash_not_mem_label

/-- **Moving the label is moving the stack.** -/
theorem shiftScope_path (n : Nat) {s : BlockStack} (hu : IsLabelName s.unit)
    (hb : ∀ b ∈ s.blocks, b.line < limit64) :
    shiftScope n s.path.toList = (s.shift n).path.toList := by
  rw [shiftScope, splitOn_path hu.1, toList_path, List.map_cons, shiftLabel_of_not_mem n hu.2]
  show _ = ['/'].intercalate (s.unit.toList :: (s.blocks.map (·.shift n)).reverse.map OpenBlock.label)
  rw [← List.map_reverse, List.map_map, List.map_map]
  congr 2
  refine List.map_congr_left ?_
  intro b hbr
  exact OpenBlock.shiftLabel_label n (hb b (List.mem_reverse.mp hbr))

/-- A label without a number names no block. -/
theorem blocks_eq_nil_of_not_mem {s : BlockStack} (h : '@' ∉ s.path.toList) : s.blocks = [] := by
  cases hb : s.blocks with
  | nil => rfl
  | cons b bs =>
      refine absurd ?_ h
      rw [path, String.toList_append, String.toList_join, hb]
      refine List.mem_append_right _ (List.mem_flatMap.mpr ⟨segment b, ?_, ?_⟩)
      · simp
      · simp [segment]

end BlockStack

end StLint

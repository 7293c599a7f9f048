import StLint.Statement.Body

/-!
# One statement at a time

What the reader does with a statement depends on its leading keyword. There is **one equation for
each lead**, so that no later proof opens the reader.

* `readStatement_blank` — nothing is left of the statement.
* `readStatement_opens` — a header emits its node, and what follows it stands in the new block.
* `readStatement_branch`, `readStatement_otherwise` — what follows the keyword stands in the block.
* `readStatement_closes`, `readStatement_returns`, `readStatement_jumps`, `readStatement_plain`.
* `readSegments_cons` — segments are read one after the other.
-/

namespace StLint.Statement

open Text Source
open Expression (Place)

variable {later : List Segment} {line : Nat} {stack : BlockStack} {s : List Char}

/-- A keyword leads no empty text. -/
theorem ne_nil_of_lead {t : List Char} {l : Lead} (h : Lead.ofWord (leadingWord t) = l)
    (hl : l ≠ .plain) : ¬ t.isEmpty = true := by
  intro ht
  rw [List.isEmpty_iff] at ht
  rw [ht] at h
  exact hl (h.symm.trans (by decide))

/-! ## The step for each lead -/

theorem readStatement_blank (h : statementText stack s = []) :
    readStatement later line stack s = (.none, stack) := by
  rw [readStatement, if_pos (by rw [h]; rfl)]

/-- A header emits its node, and what follows it stands in the new block. -/
theorem readStatement_opens {kind : BlockKind}
    (h : Lead.ofWord (leadingWord (statementText stack s)) = .opens kind) :
    readStatement later line stack s
      = (.node (openBlock later ⟨line, stack.path⟩ kind (statementText stack s)).1 ++
          (readStatement later line (stack.push kind line)
            (openBlock later ⟨line, stack.path⟩ kind (statementText stack s)).2).1,
        (readStatement later line (stack.push kind line)
          (openBlock later ⟨line, stack.path⟩ kind (statementText stack s)).2).2) := by
  rw [readStatement, if_neg (ne_nil_of_lead h (by simp))]
  dsimp only
  split <;> simp_all

/-- A branch with a condition goes on with what follows its `THEN`. -/
theorem readStatement_branch (h : Lead.ofWord (leadingWord (statementText stack s)) = .branch) :
    readStatement later line stack s
      = readStatement later line stack (splitHeader "THEN" (afterWord (statementText stack s))).2 := by
  rw [readStatement, if_neg (ne_nil_of_lead h (by simp))]
  dsimp only
  split <;> simp_all

theorem readStatement_otherwise
    (h : Lead.ofWord (leadingWord (statementText stack s)) = .otherwise) :
    readStatement later line stack s
      = readStatement later line stack (afterWord (statementText stack s)) := by
  rw [readStatement, if_neg (ne_nil_of_lead h (by simp))]
  dsimp only
  split <;> simp_all

theorem readStatement_closes {kind : BlockKind}
    (h : Lead.ofWord (leadingWord (statementText stack s)) = .closes kind) :
    readStatement later line stack s = (.none, stack.close kind) := by
  rw [readStatement, if_neg (ne_nil_of_lead h (by simp))]
  dsimp only
  split <;> simp_all

theorem readStatement_returns (h : Lead.ofWord (leadingWord (statementText stack s)) = .returns) :
    readStatement later line stack s
      = (.node ((⟨line, stack.path⟩ : Place).node .returnStatement), stack) := by
  rw [readStatement, if_neg (ne_nil_of_lead h (by simp))]
  dsimp only
  split <;> simp_all

theorem readStatement_jumps (h : Lead.ofWord (leadingWord (statementText stack s)) = .jumps) :
    readStatement later line stack s = (.none, stack) := by
  rw [readStatement, if_neg (ne_nil_of_lead h (by simp))]
  dsimp only
  split <;> simp_all

/-- Without a keyword the text is an assignment, a call, or not recognized. -/
theorem readStatement_plain (hne : statementText stack s ≠ [])
    (h : Lead.ofWord (leadingWord (statementText stack s)) = .plain) :
    readStatement later line stack s
      = (readPlain ⟨line, stack.path⟩ (statementText stack s), stack) := by
  rw [readStatement, if_neg (by simpa using hne)]
  dsimp only
  split <;> simp_all

/-! ## Segments -/

theorem Output.ext {a b : Output} (hn : a.nodes = b.nodes) (hd : a.diagnostics = b.diagnostics) :
    a = b := by
  cases a
  cases b
  rw [Output.mk.injEq]
  exact ⟨hn, hd⟩

theorem Output.append_assoc (a b c : Output) : a ++ b ++ c = a ++ (b ++ c) :=
  Output.ext (List.append_assoc ..) (List.append_assoc ..)

theorem Output.none_append (a : Output) : Output.none ++ a = a := Output.ext rfl rfl

theorem readSegments_cons (stack : BlockStack) (s : Segment) (later : List Segment) :
    readSegments stack (s :: later)
      = ((readStatement later s.line stack s.text).1 ++
          (readSegments (readStatement later s.line stack s.text).2 later).1,
        (readSegments (readStatement later s.line stack s.text).2 later).2) := by
  rw [readSegments]

end StLint.Statement

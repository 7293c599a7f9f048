import StLint.Proofs.Statement.Structured
import StLint.Proofs.Statement.Trace

/-!
# Well-nested bodies

A body is **well nested** if every block that is opened is closed by its own closing word, and nothing
else closes it. The tree of such a body is found on its segments, whichever of them share a line: a
header may be followed by the first statement of its block, a branch of a `CASE` has its label, and a
loop `REPEAT` is closed by its `UNTIL` together with an `END_REPEAT`, on one segment or on two. A
header ends at the first of its closing words, and what stands behind a closing word on its segment is
no statement. No statement goes on in the next segment.

* `Point` — a place between two statements.
* `BlockEnd` — how a block is closed.
* `Nested` — the statements from one point to another that stand directly inside given blocks.
* `WellNested` — the tree of a whole body.
-/

namespace StLint.Statement

open Text Source

/-! ## Points -/

/-- A place in a body: its line, what is left of the segment there, and the segments after it. -/
structure Point where
  line : Nat
  rest : List Char
  later : List Segment
  deriving DecidableEq, Repr

namespace Point

/-- The end of the segment. -/
def skip (p : Point) : Point := { p with rest := [] }

/-- The point behind some text of the segment. -/
def goTo (p : Point) (rest : List Char) : Point := { p with rest }

/-- The start of a segment. -/
def ofSegment (s : Segment) (later : List Segment) : Point := ⟨s.line, s.text, later⟩

end Point

/-- A keyword leads what is left of a segment. -/
def LeadsWith (word : String) (s : List Char) : Prop := upper (leadingWord (trim s)) = word.toList

instance (word : String) (s : List Char) : Decidable (LeadsWith word s) :=
  inferInstanceAs (Decidable (_ = _))

/-- No keyword is the label of a branch. -/
def PlainLabel (stack : BlockStack) (s : List Char) : Prop :=
  trim s = statementText stack s ∨ Lead.ofWord (leadingWord (trim s)) = .plain

instance (stack : BlockStack) (s : List Char) : Decidable (PlainLabel stack s) :=
  inferInstanceAs (Decidable (_ ∨ _))

/-! ## Trees -/

/-- A statement without further statements behind it on its segment. -/
def Lead.isLeaf : Lead → Bool
  | .plain | .returns | .jumps => true
  | .opens _ | .closes _ | .branch | .otherwise => false

/-- The text behind an `ELSE` in an `IF` or a `CASE`, or behind the header of an `ELSIF`. -/
inductive Branch (stack : BlockStack) (s : List Char) : List Char → Prop
  | elsif (hin : stack.innermost? = some .ifBlock)
      (hlead : Lead.ofWord (leadingWord (statementText stack s)) = .branch) :
      Branch stack s (splitHeader "THEN" (afterWord (statementText stack s))).2
  | otherwise (hin : stack.innermost? = some .ifBlock ∨ stack.innermost? = some .caseBlock)
      (hlead : Lead.ofWord (leadingWord (statementText stack s)) = .otherwise) :
      Branch stack s (afterWord (statementText stack s))

/-- How the block of a kind is closed at a point, where `stack` are the blocks around it and `n` is
    the line that opened it. -/
inductive BlockEnd (stack : BlockStack) (n : Nat) (u : Point) : BlockKind → Type
  /-- The closing word of a block that is no `REPEAT`. -/
  | closer {kind : BlockKind} (hkind : kind ≠ .repeatBlock := by decide)
      (hlabel : PlainLabel (stack.push kind n) u.rest := by decide)
      (hlead : Lead.ofWord (leadingWord (statementText (stack.push kind n) u.rest)) = .closes kind
        := by decide) : BlockEnd stack n u kind
  /-- `UNTIL` and `END_REPEAT` on one segment. -/
  | together (huntil : LeadsWith "UNTIL" u.rest := by decide)
      (hend : containsWord "END_REPEAT" (afterWord (trim u.rest)) = true := by decide) :
      BlockEnd stack n u .repeatBlock
  /-- `UNTIL`, and then `END_REPEAT` on the next segment. -/
  | apart {s : Segment} {later : List Segment} (hlater : u.later = s :: later)
      (huntil : LeadsWith "UNTIL" u.rest := by decide)
      (hend : containsWord "END_REPEAT" (afterWord (trim u.rest)) = false := by decide)
      (hlabel : statementText stack s.text = trim s.text := by decide)
      (hs : LeadsWith "END_REPEAT" s.text := by decide) : BlockEnd stack n u .repeatBlock

/-- The point behind a block. -/
def BlockEnd.after {stack : BlockStack} {n : Nat} {u : Point} {kind : BlockKind} :
    BlockEnd stack n u kind → Point
  | .closer .. | .together .. => u.skip
  | @apart _ _ _ s later .. => ⟨s.line, [], later⟩

/-- **The statements from one point to another that stand directly inside the blocks `stack`.** -/
inductive Nested : BlockStack → Point → Point → Type
  | nil {stack : BlockStack} {p : Point} : Nested stack p p
  /-- The next segment. -/
  | next {stack : BlockStack} {p q : Point} {s : Segment} {later : List Segment}
      (hlater : p.later = s :: later) (tail : Nested stack (.ofSegment s later) q)
      (hlabel : PlainLabel stack p.rest := by decide)
      (hblank : statementText stack p.rest = [] := by decide) : Nested stack p q
  | leaf {stack : BlockStack} {p q : Point} (tail : Nested stack p.skip q)
      (hlabel : PlainLabel stack p.rest := by decide)
      (hne : statementText stack p.rest ≠ [] := by decide)
      (hlead : (Lead.ofWord (leadingWord (statementText stack p.rest))).isLeaf = true := by decide) :
      Nested stack p q
  /-- Another branch of the innermost block. -/
  | branch {stack : BlockStack} {p q : Point} {rest : List Char} (hbranch : Branch stack p.rest rest)
      (tail : Nested stack (p.goTo rest) q) (hlabel : PlainLabel stack p.rest := by decide) :
      Nested stack p q
  | block {stack : BlockStack} {p u q : Point} (kind : BlockKind)
      (body : Nested (stack.push kind p.line)
        (p.goTo (openBlock p.later ⟨p.line, stack.path⟩ kind (statementText stack p.rest)).2) u)
      (ends : BlockEnd stack p.line u kind) (tail : Nested stack ends.after q)
      (hlabel : PlainLabel stack p.rest := by decide)
      (hlead : Lead.ofWord (leadingWord (statementText stack p.rest)) = .opens kind := by decide) :
      Nested stack p q

/-- **The tree of a body**: no block is open around it, and it ends with the last segment. -/
structure WellNested (unit : String) (ss : List Segment) where
  line : Nat
  tree : Nested (.start unit) ⟨0, [], ss⟩ ⟨line, [], []⟩

/-! ## Texts -/

variable {stack : BlockStack} {n : Nat} {u : Point} {kind : BlockKind} {s : List Char}

theorem statementText_nil (stack : BlockStack) : statementText stack [] = [] := by
  rw [statementText]
  exact ite_self _

/-- Only a `CASE` has branches with labels. -/
theorem statementText_push (hkind : kind ≠ .caseBlock) (s : List Char) :
    statementText (stack.push kind n) s = trim s := by
  rw [statementText, if_neg]
  intro h
  exact hkind (Option.some.inj h)

/-- Both `UNTIL` and `END_REPEAT` close a loop. -/
theorem closes_of_leadsWith {word : String} (hword : word = "UNTIL" ∨ word = "END_REPEAT")
    (h : LeadsWith word s) : Lead.ofWord (leadingWord (trim s)) = .closes .repeatBlock := by
  rw [Lead.ofWord, h]
  rcases hword with rfl | rfl <;> rfl

/-- A block is not closed by nothing. -/
theorem BlockEnd.statementText_ne_nil (e : BlockEnd stack n u kind) :
    statementText (stack.push kind n) u.rest ≠ [] := by
  have hplain : Lead.ofWord (leadingWord []) = .plain := by decide
  intro hnil
  cases e with
  | closer hkind hlabel hlead =>
      rw [hnil, hplain] at hlead
      cases hlead
  | together huntil | apart _ huntil =>
      rw [statementText_push (by decide)] at hnil
      have hlead := closes_of_leadsWith (Or.inl rfl) huntil
      rw [hnil, hplain] at hlead
      cases hlead

end StLint.Statement

import StLint.Text.Word

/-!
# Blocks

A statement stands inside the control blocks that are open around it. Its **scope label** names the
unit and each open block with the line that opened it (`Main/FOR@5/IF@7`), outermost first.

* `BlockKind` — the blocks with the words that open and close them.
* `BlockStack` — the open blocks under a unit; `close?` also discards what was opened later.
* `BlockStack.path` — the scope label.
-/

namespace StLint

open Text

/-- A control block. -/
inductive BlockKind where
  | ifBlock
  | forBlock
  | whileBlock
  | caseBlock
  | repeatBlock
  deriving DecidableEq, Repr, Inhabited

namespace BlockKind

/-- The keyword that opens a block. -/
def keyword : BlockKind → String
  | ifBlock => "IF"
  | forBlock => "FOR"
  | whileBlock => "WHILE"
  | caseBlock => "CASE"
  | repeatBlock => "REPEAT"

/-- A block that repeats its statements. -/
def isLoop : BlockKind → Bool
  | forBlock | whileBlock | repeatBlock => true
  | _ => false

/-- The keyword that closes a block. -/
def closer : BlockKind → String
  | ifBlock => "END_IF"
  | forBlock => "END_FOR"
  | whileBlock => "END_WHILE"
  | caseBlock => "END_CASE"
  | repeatBlock => "UNTIL"

/-- The closing keywords with the blocks that they close; a repeat loop has two. -/
def closers : List (String × BlockKind) :=
  [("END_IF", ifBlock), ("END_FOR", forBlock), ("END_WHILE", whileBlock), ("END_CASE", caseBlock),
    ("UNTIL", repeatBlock), ("END_REPEAT", repeatBlock)]

/-- The block that a keyword closes, in any case. -/
def closedBy? (s : List Char) : Option BlockKind :=
  (closers.find? fun k => k.1.toList == upper s).map Prod.snd

end BlockKind

/-- A block with the line that opened it. -/
structure OpenBlock where
  kind : BlockKind
  line : Nat
  deriving DecidableEq, Repr

/-- The open blocks of a unit, innermost first. -/
structure BlockStack where
  unit : String
  blocks : List OpenBlock
  deriving DecidableEq, Repr

namespace BlockStack

/-- No block is open. -/
def start (unit : String) : BlockStack := ⟨unit, []⟩

/-- Opens a block. -/
def push (s : BlockStack) (kind : BlockKind) (line : Nat) : BlockStack :=
  { s with blocks := ⟨kind, line⟩ :: s.blocks }

/-- The blocks around the innermost block of a kind. -/
def closeBlocks? (kind : BlockKind) : List OpenBlock → Option (List OpenBlock)
  | [] => none
  | b :: bs => if b.kind = kind then some bs else closeBlocks? kind bs

/-- Closes the innermost block of a kind with everything inside it, if one is open. -/
def close? (s : BlockStack) (kind : BlockKind) : Option BlockStack :=
  (closeBlocks? kind s.blocks).map fun bs => { s with blocks := bs }

/-- As `close?`; a keyword that closes nothing changes nothing. -/
def close (s : BlockStack) (kind : BlockKind) : BlockStack := (s.close? kind).getD s

/-- The part of the label for one block. -/
def segment (b : OpenBlock) : String := "/" ++ b.kind.keyword ++ "@" ++ toString b.line

/-- The scope label. -/
def path (s : BlockStack) : String := s.unit ++ String.join (s.blocks.reverse.map segment)

/-- The number of open blocks. -/
def depth (s : BlockStack) : Nat := s.blocks.length

/-- The innermost open block. -/
def innermost? (s : BlockStack) : Option BlockKind := s.blocks.head?.map OpenBlock.kind

/-- The open blocks, outermost first. -/
def outermostFirst (s : BlockStack) : List OpenBlock := s.blocks.reverse

/-- The number of open loops. -/
def loopDepth (s : BlockStack) : Nat := s.blocks.countP fun b => b.kind.isLoop

end BlockStack

end StLint

import StLint.Expression.Basic
import StLint.Pou.Basic
import StLint.Source.Line
import StLint.Statement.Block
import StLint.Statement.Header

/-!
# Bodies

The lines of a body are cut at semicolons into **segments**, and each segment is read under the
blocks that are open before it. A header emits its node, opens its block, and hands the text after
it on as the next statement, so one segment may hold several statements.

* `Lead` — what the leading keyword of a statement asks for.
* `readStatement` — one statement with all that follows its header.
* `Body.ofLines` — the statements and diagnostics of a range of lines.
-/

namespace StLint.Statement

open Text Source

/-- A statement text with the line that it stands on. -/
structure Segment where
  line : Nat
  text : List Char
  deriving DecidableEq, Repr

/-- The segments of lines of code. -/
def segments (ls : List CodeLine) : List Segment :=
  ls.flatMap fun l =>
    ((splitTopLevel ';' l.text).filter (!·.isEmpty)).map fun part => ⟨l.number, part⟩

/-- What the leading keyword of a statement asks for. -/
inductive Lead where
  /-- A block opens, and its header follows. -/
  | opens (kind : BlockKind)
  /-- A block closes. -/
  | closes (kind : BlockKind)
  /-- Another branch with a condition. -/
  | branch
  /-- The last branch. -/
  | otherwise
  /-- The unit ends here. -/
  | returns
  /-- A loop is left or goes on; no node stands for it. -/
  | jumps
  /-- No keyword leads the statement. -/
  | plain
  deriving DecidableEq, Repr

/-- The keywords that lead a statement. -/
def leads : List (String × Lead) :=
  [("IF", .opens .ifBlock), ("FOR", .opens .forBlock), ("WHILE", .opens .whileBlock),
    ("CASE", .opens .caseBlock), ("REPEAT", .opens .repeatBlock),
    ("ELSIF", .branch), ("ELSE", .otherwise), ("RETURN", .returns),
    ("EXIT", .jumps), ("CONTINUE", .jumps)] ++
  BlockKind.closers.map fun (word, kind) => (word, .closes kind)

/-- What a word asks for at the start of a statement. -/
def Lead.ofWord (word : List Char) : Lead :=
  ((leads.find? fun k => k.1.toList == upper word).map Prod.snd).getD .plain

/-- The text after the leading word. -/
def afterWord (s : List Char) : List Char := trim (s.drop (leadingWord s).length)

theorem leadingWord_ne_nil {s : List Char} (h : Lead.ofWord (leadingWord s) ≠ .plain) :
    leadingWord s ≠ [] := by
  intro hs
  rw [hs] at h
  exact h (by decide)

theorem length_afterWord_lt {s : List Char} (h : Lead.ofWord (leadingWord s) ≠ .plain) :
    (afterWord s).length < s.length := by
  have hw := List.length_pos_iff.2 (leadingWord_ne_nil h)
  have hl : (leadingWord s).length ≤ s.length := (List.takeWhile_sublist _).length_le
  refine Nat.lt_of_le_of_lt (length_trim_le _) ?_
  simp only [List.length_drop]
  omega

/-! ## Nodes -/

open Expression (Place)

/-- A node with the condition, bounds or selector of a block. -/
def headerNode (p : Place) (kind : NodeKind) (header : List Char) : Node :=
  { p.node kind with
    value := some (String.ofList header)
    children := if header.isEmpty then [] else [Expression.parse p header] }

/-- The condition of the `UNTIL` that closes a `REPEAT`, in the segments after it. Loops that open
    in between take the `UNTIL` that follows them; `depth` of them are open. -/
def untilCondition? (depth : Nat) : List Segment → Option (List Char)
  | [] => none
  | s :: later =>
    let t := trim s.text
    let word := upper (leadingWord t)
    if word = "REPEAT".toList then untilCondition? (depth + 1) later
    else if word = "UNTIL".toList then
      match depth with
      | 0 =>
        let rest := afterWord t
        match findWord? "END_REPEAT" rest with
        | some i => some (trim (rest.take i))
        | none => some rest
      | d + 1 => untilCondition? d later
    else untilCondition? depth later

/-- The node of a `FOR` loop and the text after its header. A header that cannot be read is kept
    as it is. -/
def forNode (p : Place) (rest afterKeyword : List Char) : Node × List Char :=
  match ForHeader.read? afterKeyword with
  | some h =>
    ({ p.node .forLoop with
        name := some (String.ofList h.counter)
        value := some (String.ofList h.bounds.text)
        children := [Expression.parse p h.counter] }, h.body)
  | none => ({ p.node .forLoop with value := some (String.ofList rest) }, [])

/-- The node of the header of a block and the text after it. -/
def openBlock (later : List Segment) (p : Place) (kind : BlockKind) (s : List Char) :
    Node × List Char :=
  let rest := afterWord s
  match kind with
  | .ifBlock =>
    let (condition, body) := splitHeader "THEN" rest
    (headerNode p .ifStatement condition, body)
  | .whileBlock =>
    let (condition, body) := splitHeader "DO" rest
    (headerNode p .whileLoop condition, body)
  | .caseBlock =>
    let (selector, body) := splitHeader "OF" rest
    (headerNode p .caseStatement selector, body)
  | .forBlock => forNode p rest (s.drop (leadingWord s).length)
  | .repeatBlock =>
    match untilCondition? 0 later with
    | some condition => (headerNode p .repeatLoop condition, rest)
    | none => (p.node .repeatLoop, rest)

theorem length_forNode_le (p : Place) (rest afterKeyword : List Char) :
    (forNode p rest afterKeyword).2.length ≤ afterKeyword.length := by
  unfold forNode
  split
  · rename_i x hx
    exact ForHeader.length_body_le hx
  · simp

theorem length_openBlock_lt {later : List Segment} {p : Place} {kind : BlockKind} {s : List Char}
    (h : Lead.ofWord (leadingWord s) ≠ .plain) :
    (openBlock later p kind s).2.length < s.length := by
  have ha := length_afterWord_lt h
  unfold openBlock
  split
  · exact Nat.lt_of_le_of_lt (length_splitHeader_le _ _) ha
  · exact Nat.lt_of_le_of_lt (length_splitHeader_le _ _) ha
  · exact Nat.lt_of_le_of_lt (length_splitHeader_le _ _) ha
  · have hw := List.length_pos_iff.2 (leadingWord_ne_nil h)
    have hl : (leadingWord s).length ≤ s.length := (List.takeWhile_sublist _).length_le
    refine Nat.lt_of_le_of_lt (length_forNode_le _ _ _) ?_
    simp only [List.length_drop]
    omega
  · split <;> exact ha

/-- What reading a text adds to a body. -/
structure Output where
  nodes : List Node
  diagnostics : List Diagnostic

namespace Output

/-- Nothing. -/
def none : Output := ⟨[], []⟩

/-- One node. -/
def node (n : Node) : Output := ⟨[n], []⟩

/-- One after the other. -/
def append (a b : Output) : Output := ⟨a.nodes ++ b.nodes, a.diagnostics ++ b.diagnostics⟩

instance : Append Output := ⟨append⟩

end Output

/-- An assignment, or a call that is no reserved word, or else a diagnostic. -/
def readPlain (p : Place) (s : List Char) : Output :=
  match cutTopLevel? ":=" s with
  | some (target, value) =>
    let v := stripStatementEnd value
    .node (p.assignment (trim target) v (Expression.parse p v))
  | none => match Expression.splitUnitCall? (stripStatementEnd s) with
    | some (name, args) => .node (Expression.call p name args)
    | none => ⟨[], [⟨.unrecognizedStatement, p.line, String.ofList s⟩]⟩

/-- A statement without the white space around it and, directly inside a `CASE`, without the label
    of its branch. -/
def statementText (stack : BlockStack) (s : List Char) : List Char :=
  let t := trim s
  if stack.innermost? = some .caseBlock then (dropBranchLabel? t).getD t else t

theorem length_statementText_le (stack : BlockStack) (s : List Char) :
    (statementText stack s).length ≤ s.length := by
  have ht := length_trim_le s
  simp only [statementText]
  split
  · cases h : dropBranchLabel? (trim s) with
    | none => exact ht
    | some r => exact Nat.le_trans (Nat.le_of_lt (length_dropBranchLabel?_lt h)) ht
  · exact ht

/-- Reads a statement with all that follows on its segment; `later` are the segments after it. -/
def readStatement (later : List Segment) (line : Nat) (stack : BlockStack) (s : List Char) :
    Output × BlockStack :=
  if (statementText stack s).isEmpty then (.none, stack)
  else
    let t := statementText stack s
    let p : Place := ⟨line, stack.path⟩
    match _h : Lead.ofWord (leadingWord t) with
    | .opens kind =>
      let (out, stack) :=
        readStatement later line (stack.push kind line) (openBlock later p kind t).2
      (.node (openBlock later p kind t).1 ++ out, stack)
    | .branch => readStatement later line stack (splitHeader "THEN" (afterWord t)).2
    | .otherwise => readStatement later line stack (afterWord t)
    | .closes kind => (.none, stack.close kind)
    | .returns => (.node (p.node .returnStatement), stack)
    | .jumps => (.none, stack)
    | .plain => (readPlain p t, stack)
termination_by s.length
decreasing_by
  · exact Nat.lt_of_lt_of_le (length_openBlock_lt (by rw [_h]; simp)) (length_statementText_le _ _)
  · exact Nat.lt_of_le_of_lt (length_splitHeader_le _ _)
      (Nat.lt_of_lt_of_le (length_afterWord_lt (by rw [_h]; simp)) (length_statementText_le _ _))
  · exact Nat.lt_of_lt_of_le (length_afterWord_lt (by rw [_h]; simp)) (length_statementText_le _ _)

/-- Reads segments one after the other. -/
def readSegments (stack : BlockStack) : List Segment → Output × BlockStack
  | [] => (.none, stack)
  | s :: later =>
    let (out, stack) := readStatement later s.line stack s.text
    let (rest, stack) := readSegments stack later
    (out ++ rest, stack)

/-- The message about a block that is still open at the end. -/
def unterminated (b : OpenBlock) : Diagnostic where
  kind := .unterminatedBlock
  line := b.line
  text := b.kind.keyword ++ " without " ++ b.kind.closer

/-- The statements of a unit. -/
structure Body where
  root : Node
  diagnostics : List Diagnostic

/-- The body of segments. -/
def Body.ofSegments (unit : String) (ss : List Segment) : Body :=
  let (out, stack) := readSegments (.start unit) ss
  { root := { Node.leaf .root 0 unit with children := out.nodes }
    diagnostics := out.diagnostics ++ stack.outermostFirst.map unterminated }

/-- The body of the lines with indices from `start` up to `stop`. -/
def Body.ofLines (unit : String) (ls : List CodeLine) (start stop : Nat) : Body :=
  .ofSegments unit (segments (slice ls start stop))

end StLint.Statement

import StLint.Proofs.Expression.Sliced
import StLint.Proofs.Statement.Step

/-!
# Bodies in bytes

The reader of statements cuts its text behind the leading word, around the word that ends a header, and
around `:=`. Here it is once more with **searches over bytes and cuts at byte offsets**, where a cut
inside a character fails. No cut fails, so it is the same reader.

* `Sliced.afterWord`, `Sliced.splitHeader`, `Sliced.readPlain` — the cuts of a statement.
* `Sliced.readStatement`, `Sliced.readSegments` — the reader.
* `Sliced.readStatement_eq`, `Sliced.ofLines_eq` — it reads every text, and as the other one does.
-/

namespace StLint.Statement.Sliced

open Text Source
open Expression (Place)

/-! ## Cuts -/

/-- The text after the leading word, whose size is taken in upper case. -/
def afterWord (s : List Char) : Option (List Char) :=
  (cutAt? (byteSize (upper (leadingWord s))) s).map fun cut => trim cut.2

/-- A condition or selector, and the text after the word that ends it. -/
def splitHeader (word : String) (s : List Char) : Option (List Char × List Char) :=
  (sides? (wordOffset? word s) word.toList s).map fun
    | some (header, body) => (trim header, trim body)
    | none => (stripStatementEnd s, [])

theorem afterWord_eq (s : List Char) : afterWord s = some (Statement.afterWord s) := by
  have hsplit : s = leadingWord s ++ s.dropWhile isWordChar := List.takeWhile_append_dropWhile.symm
  have hcut : cutAt? (byteSize (upper (leadingWord s))) s
      = some (leadingWord s, s.dropWhile isWordChar) :=
    cutAt?_eq_some_iff.mpr ⟨hsplit, (byteSize_upper _).symm⟩
  have hdrop : s.drop (leadingWord s).length = s.dropWhile isWordChar := by
    have hdropped := congrArg (List.drop (leadingWord s).length) hsplit
    rwa [List.drop_left] at hdropped
  rw [afterWord, hcut, Statement.afterWord, hdrop]
  rfl

theorem splitHeader_eq {word : String} (hne : word.toList ≠ []) (s : List Char) :
    splitHeader word s = some (Statement.splitHeader word s) := by
  rw [splitHeader, sides?_wordOffset? hne, Statement.splitHeader]
  cases findWord? word s <;> rfl

/-- The condition of the `UNTIL` that closes a `REPEAT`, in the segments after it. -/
def untilCondition? (depth : Nat) : List Segment → Option (Option (List Char))
  | [] => some none
  | s :: later =>
    let t := trim s.text
    let word := upper (leadingWord t)
    if word = "REPEAT".toList then untilCondition? (depth + 1) later
    else if word = "UNTIL".toList then
      match depth with
      | 0 => do
        let rest ← afterWord t
        match ← sides? (wordOffset? "END_REPEAT" rest) "END_REPEAT".toList rest with
        | some (condition, _) => return some (trim condition)
        | none => return some rest
      | d + 1 => untilCondition? d later
    else untilCondition? depth later

theorem untilCondition?_eq (depth : Nat) (ss : List Segment) :
    untilCondition? depth ss = some (Statement.untilCondition? depth ss) := by
  induction ss generalizing depth with
  | nil => rfl
  | cons s later ih =>
      rw [untilCondition?.eq_def, Statement.untilCondition?.eq_def]
      dsimp only
      by_cases hrepeat : upper (leadingWord (trim s.text)) = "REPEAT".toList
      · rw [if_pos hrepeat, if_pos hrepeat]
        exact ih (depth + 1)
      rw [if_neg hrepeat, if_neg hrepeat]
      by_cases huntil : upper (leadingWord (trim s.text)) = "UNTIL".toList
      · rw [if_pos huntil, if_pos huntil]
        cases depth with
        | zero =>
            dsimp only
            rw [afterWord_eq]
            show (do match ← sides? (wordOffset? "END_REPEAT" _) "END_REPEAT".toList _ with
              | some (condition, _) => return some (trim condition)
              | none => return some (Statement.afterWord (trim s.text))) = _
            rw [sides?_wordOffset? (by decide)]
            cases findWord? "END_REPEAT" (Statement.afterWord (trim s.text)) <;> rfl
        | succ d => exact ih d
      · rw [if_neg huntil, if_neg huntil]
        exact ih depth

/-! ## Nodes -/

variable (p : Place)

/-- A node with the condition, bounds or selector of a block. -/
def headerNode (kind : NodeKind) (header : List Char) : Option Node := do
  let children ← if header.isEmpty then some [] else (Expression.Sliced.parse p header).map ([·])
  return { p.node kind with value := some (String.ofList header), children }

theorem headerNode_eq (kind : NodeKind) (header : List Char) :
    headerNode p kind header = some (Statement.headerNode p kind header) := by
  rw [headerNode, Statement.headerNode, Expression.Sliced.parse_eq]
  cases header.isEmpty <;> rfl

/-- The node of a `FOR` loop and the text after its header. -/
def forNode (rest afterKeyword : List Char) : Option (Node × List Char) :=
  match ForHeader.read? afterKeyword with
  | some h =>
    (Expression.Sliced.parse p h.counter).map fun counter =>
      ({ p.node .forLoop with
          name := some (String.ofList h.counter)
          value := some (String.ofList h.bounds.text)
          children := [counter] }, h.body)
  | none => some ({ p.node .forLoop with value := some (String.ofList rest) }, [])

theorem forNode_eq (rest afterKeyword : List Char) :
    forNode p rest afterKeyword = some (Statement.forNode p rest afterKeyword) := by
  rw [forNode, Statement.forNode]
  cases ForHeader.read? afterKeyword with
  | none => rfl
  | some h =>
      show (Expression.Sliced.parse p h.counter).map _ = _
      rw [Expression.Sliced.parse_eq]
      rfl

/-- The node of a block whose header ends with a word, and the text after it. -/
def headedBlock (kind : NodeKind) (word : String) (rest : List Char) : Option (Node × List Char) := do
  let (header, body) ← splitHeader word rest
  return (← headerNode p kind header, body)

theorem headedBlock_eq (kind : NodeKind) {word : String} (hne : word.toList ≠ []) (rest : List Char) :
    headedBlock p kind word rest
      = some (Statement.headerNode p kind (Statement.splitHeader word rest).1,
          (Statement.splitHeader word rest).2) := by
  rw [headedBlock, splitHeader_eq hne]
  show (do return (← headerNode p kind (Statement.splitHeader word rest).1, _)) = _
  rw [headerNode_eq]
  rfl

/-- The node of the header of a block and the text after it. -/
def openBlock (later : List Segment) (kind : BlockKind) (s : List Char) : Option (Node × List Char) := do
  let rest ← afterWord s
  match kind with
  | .ifBlock => headedBlock p .ifStatement "THEN" rest
  | .whileBlock => headedBlock p .whileLoop "DO" rest
  | .caseBlock => headedBlock p .caseStatement "OF" rest
  | .forBlock => forNode p rest (s.drop (leadingWord s).length)
  | .repeatBlock =>
    match ← untilCondition? 0 later with
    | some condition => return (← headerNode p .repeatLoop condition, rest)
    | none => return (p.node .repeatLoop, rest)

theorem openBlock_eq (later : List Segment) (kind : BlockKind) (s : List Char) :
    openBlock p later kind s = some (Statement.openBlock later p kind s) := by
  rw [openBlock, afterWord_eq]
  cases kind with
  | ifBlock =>
      show headedBlock p .ifStatement "THEN" (Statement.afterWord s) = _
      rw [headedBlock_eq p _ (by decide), Statement.openBlock]
  | whileBlock =>
      show headedBlock p .whileLoop "DO" (Statement.afterWord s) = _
      rw [headedBlock_eq p _ (by decide), Statement.openBlock]
  | caseBlock =>
      show headedBlock p .caseStatement "OF" (Statement.afterWord s) = _
      rw [headedBlock_eq p _ (by decide), Statement.openBlock]
  | forBlock => exact forNode_eq p _ _
  | repeatBlock =>
      show (do match ← untilCondition? 0 later with
        | some condition => return (← headerNode p .repeatLoop condition, Statement.afterWord s)
        | none => return (p.node .repeatLoop, Statement.afterWord s)) = _
      rw [untilCondition?_eq, Statement.openBlock]
      cases Statement.untilCondition? 0 later with
      | none => rfl
      | some condition =>
          show (do return (← headerNode p .repeatLoop condition, Statement.afterWord s)) = _
          rw [headerNode_eq]
          rfl

/-- An assignment, a call, or a diagnostic. -/
def readPlain (s : List Char) : Option Output := do
  match ← sides? (topLevelOffset? ":=" s) ":=".toList s with
  | some (target, value) =>
    let v := stripStatementEnd value
    return .node (p.assignment (trim target) v (← Expression.Sliced.parse p v))
  | none => match Expression.splitUnitCall? (stripStatementEnd s) with
    | some (name, args) => (Expression.Sliced.callStatement p name args).map .node
    | none => return ⟨[], [⟨.unrecognizedStatement, p.line, String.ofList s⟩]⟩

theorem readPlain_eq (s : List Char) : readPlain p s = some (Statement.readPlain p s) := by
  rw [readPlain, sides?_topLevelOffset? (by decide), Statement.readPlain]
  cases cutTopLevel? ":=" s with
  | some cut =>
      show (do return Output.node (p.assignment (trim cut.1) (stripStatementEnd cut.2)
        (← Expression.Sliced.parse p (stripStatementEnd cut.2)))) = _
      rw [Expression.Sliced.parse_eq]
      rfl
  | none =>
      cases Expression.splitUnitCall? (stripStatementEnd s) with
      | none => rfl
      | some call =>
          show (Expression.Sliced.callStatement p call.1 call.2).map Output.node = _
          rw [Expression.Sliced.callStatement_eq]
          rfl

/-! ## Statements -/

/-- What the lead of a statement adds, the blocks that are open then, and the text that is read next. -/
def step (later : List Segment) (line : Nat) (stack : BlockStack) (t : List Char) :
    Option (Output × BlockStack × Option (List Char)) :=
  let p : Place := ⟨line, stack.path⟩
  match Lead.ofWord (leadingWord t) with
  | .opens kind =>
    (openBlock p later kind t).map fun (node, rest) => (.node node, stack.push kind line, some rest)
  | .branch => ((afterWord t).bind (splitHeader "THEN")).map fun (_, rest) => (.none, stack, some rest)
  | .otherwise => (afterWord t).map fun rest => (.none, stack, some rest)
  | .closes kind => some (.none, stack.close kind, none)
  | .returns => some (.node (p.node .returnStatement), stack, none)
  | .jumps => some (.none, stack, none)
  | .plain => (readPlain p t).map fun out => (out, stack, none)

/-- A statement is read as `out` and, if a text is left, as what that text is read as in the blocks that
    are open then. The text that is left is shorter. -/
def ReadsAs (later : List Segment) (line : Nat) (stack : BlockStack) (s : List Char) :
    Output × BlockStack × Option (List Char) → Prop
  | (out, stack', none) => Statement.readStatement later line stack s = (out, stack')
  | (out, stack', some rest) =>
    rest.length < s.length ∧ Statement.readStatement later line stack s
      = (out ++ (Statement.readStatement later line stack' rest).1,
        (Statement.readStatement later line stack' rest).2)

variable {later : List Segment} {line : Nat} {stack : BlockStack} {s : List Char}

/-- **One step never fails**, and the statement is read as it says. -/
theorem exists_step (hne : statementText stack s ≠ []) :
    ∃ next, step later line stack (statementText stack s) = some next ∧
      ReadsAs later line stack s next := by
  have hle := length_statementText_le stack s
  rw [step]
  cases hlead : Lead.ofWord (leadingWord (statementText stack s)) with
  | opens kind =>
      have hplain := ne_of_eq_of_ne hlead (show Lead.opens kind ≠ .plain by simp)
      have hlt := @length_openBlock_lt later ⟨line, stack.path⟩ kind _ hplain
      dsimp only
      rw [openBlock_eq]
      exact ⟨_, rfl, Nat.lt_of_lt_of_le hlt hle, readStatement_opens hlead⟩
  | branch =>
      have hplain := ne_of_eq_of_ne hlead (show Lead.branch ≠ .plain by simp)
      have hlt := Nat.lt_of_le_of_lt (length_splitHeader_le "THEN" _) (length_afterWord_lt hplain)
      dsimp only
      rw [afterWord_eq, Option.bind_some, splitHeader_eq (by decide)]
      refine ⟨_, rfl, Nat.lt_of_lt_of_le hlt hle, ?_⟩
      rw [readStatement_branch hlead, Output.none_append]
  | otherwise =>
      have hplain := ne_of_eq_of_ne hlead (show Lead.otherwise ≠ .plain by simp)
      dsimp only
      rw [afterWord_eq]
      refine ⟨_, rfl, Nat.lt_of_lt_of_le (length_afterWord_lt hplain) hle, ?_⟩
      rw [readStatement_otherwise hlead, Output.none_append]
  | closes kind => exact ⟨_, rfl, readStatement_closes hlead⟩
  | returns => exact ⟨_, rfl, readStatement_returns hlead⟩
  | jumps => exact ⟨_, rfl, readStatement_jumps hlead⟩
  | plain =>
      dsimp only
      rw [readPlain_eq]
      exact ⟨_, rfl, readStatement_plain hne hlead⟩

/-- Reads a statement with all that follows on its segment; `later` are the segments after it. -/
def readStatement (later : List Segment) (line : Nat) (stack : BlockStack) (s : List Char) :
    Option (Output × BlockStack) :=
  if _hempty : statementText stack s = [] then some (.none, stack)
  else
    match _hstep : step later line stack (statementText stack s) with
    | none => none
    | some (out, stack', none) => some (out, stack')
    | some (out, stack', some rest) =>
      (readStatement later line stack' rest).map fun (more, stack) => (out ++ more, stack)
termination_by s.length
decreasing_by
  obtain ⟨next, hnext, hreads⟩ := exists_step _hempty
  rw [_hstep] at hnext
  obtain rfl := Option.some.inj hnext
  exact hreads.1

/-- **Every statement is read**, whatever its characters. -/
theorem readStatement_eq (later : List Segment) (line : Nat) (stack : BlockStack) (s : List Char) :
    readStatement later line stack s = some (Statement.readStatement later line stack s) := by
  induction hn : s.length using Nat.strong_induction_on generalizing stack s with
  | _ n ih =>
      subst hn
      rw [readStatement]
      by_cases hempty : statementText stack s = []
      · rw [dif_pos hempty, readStatement_blank hempty]
      rw [dif_neg hempty]
      obtain ⟨next, hnext, hreads⟩ := exists_step hempty
      split
      all_goals
        rename_i hstep
        rw [hnext] at hstep
        cases hstep
      · rw [show Statement.readStatement later line stack s = _ from hreads]
      · obtain ⟨hlt, hread⟩ := hreads
        rw [ih _ hlt _ _ rfl, hread]
        rfl

/-! ## Bodies -/

/-- Reads segments one after the other. -/
def readSegments (stack : BlockStack) : List Segment → Option (Output × BlockStack)
  | [] => some (.none, stack)
  | s :: later => do
    let (out, stack) ← readStatement later s.line stack s.text
    let (rest, stack) ← readSegments stack later
    return (out ++ rest, stack)

theorem readSegments_eq (stack : BlockStack) (ss : List Segment) :
    readSegments stack ss = some (Statement.readSegments stack ss) := by
  induction ss generalizing stack with
  | nil => rfl
  | cons s later ih =>
      rw [readSegments, readStatement_eq, readSegments_cons]
      show (do let (rest, stack) ← readSegments _ later; return (_ ++ rest, stack)) = _
      rw [ih]
      rfl

/-- The body of the lines with indices from `start` up to `stop`. -/
def ofLines (unit : String) (ls : List CodeLine) (start stop : Nat) : Option Body := do
  let (out, stack) ← readSegments (.start unit) (segments (slice ls start stop))
  return {
    root := { Node.leaf .root 0 unit with children := out.nodes }
    diagnostics := out.diagnostics ++ stack.outermostFirst.map unterminated }

/-- **Every body is read**, whatever its characters. -/
theorem ofLines_eq (unit : String) (ls : List CodeLine) (start stop : Nat) :
    ofLines unit ls start stop = some (Body.ofLines unit ls start stop) := by
  rw [ofLines, readSegments_eq]
  rfl

end StLint.Statement.Sliced

import StLint.Proofs.Expression.Leftmost
import StLint.Proofs.Text.Offset

/-!
# Expressions in bytes

The reader of expressions cuts its text around each operator, `:=` and `=>` that it finds. Here it is
once more with **searches over bytes and cuts at byte offsets**, where a cut that does not fall between
two characters fails and takes the whole reader with it. No cut fails, so it is the same reader.

* `Sliced.operatorOffset?` — the search for an operator.
* `Sliced.splitBinary?`, `Sliced.argument`, `Sliced.parse` — the reader.
* `Sliced.splitBinary?_eq`, `Sliced.parse_eq` — it reads every text, and as the other one does.
-/

namespace StLint.Expression.Sliced

open Text

/-! ## Operators -/

/-- The open quote before an offset. -/
def quoteAt (quote : Option Char) (p : Nat) : List Char → Option Char
  | [] => quote
  | c :: r => if p = 0 then quote else quoteAt (Nesting.stepQuote quote c) (p - c.utf8Size) r

/-- The offset of an operator. A word is looked for over bytes. -/
def operatorOffset? (op : String) (s : List Char) : Option Nat :=
  if isWordOperator op then (wordOffset? op s).filter fun p => (quoteAt none p s).isNone
  else (findSymbolFrom? op 0 none [] s).map (byteOffset s)

theorem quoteAt_byteOffset (quote : Option Char) (s : List Char) (i : Nat) :
    quoteAt quote (byteOffset s i) s = (s.take i).foldl Nesting.stepQuote quote := by
  induction s generalizing quote i with
  | nil =>
      rw [List.take_nil]
      rfl
  | cons c r ih =>
      cases i with
      | zero => exact if_pos rfl
      | succ i =>
          have hoffset : byteOffset (c :: r) (i + 1) = c.utf8Size + byteOffset r i := rfl
          have hpos := c.utf8Size_pos
          rw [hoffset, quoteAt, if_neg (by omega), Nat.add_sub_cancel_left, ih]
          rfl

/-- **The search for an operator** answers the offset of what is found in the text. -/
theorem operatorOffset?_eq {op : String} (hne : op.toList ≠ []) (s : List Char) :
    operatorOffset? op s = (findOperator? op s).map (byteOffset s) := by
  rw [operatorOffset?, findOperator?]
  by_cases hword : isWordOperator op = true
  · rw [if_pos hword, if_pos hword, wordOffset?_eq hne]
    cases findWord? op s with
    | none => rfl
    | some i =>
        have hquote : (quoteAt none (byteOffset s i) s).isNone = !inQuotes s i := by
          rw [quoteAt_byteOffset, inQuotes, Option.not_isSome]
        rw [Option.map_some, Option.filter_some, Option.filter_some, hquote]
        cases inQuotes s i <;> rfl
  · rw [if_neg hword, if_neg hword]

/-- An operator stands where it is found. -/
theorem stands_of_findOperator? {op : String} {s : List Char} {i : Nat}
    (h : findOperator? op s = some i) : Stands op.toList s i :=
  findOperator?_eq_some h

/-- The first operator of a list that has text on both sides, with the trimmed sides. -/
def splitAt? (s : List Char) : List String → Option (Option (String × List Char × List Char))
  | [] => some none
  | op :: ops =>
    (sides? (operatorOffset? op s) op.toList s).bind fun
      | none => splitAt? s ops
      | some (left, right) =>
        if (trim left).isEmpty || (trim right).isEmpty then splitAt? s ops
        else some (some (op, trim left, trim right))

/-- The first operator, with the sides that are cut around it. -/
def splitBinary? (s : List Char) : Option (Option (String × List Char × List Char)) :=
  splitAt? s binaryOperators

theorem splitAt?_eq (s : List Char) {ops : List String} (hne : ∀ op ∈ ops, op.toList ≠ []) :
    splitAt? s ops = some (ops.findSome? fun op =>
      (findOperator? op s).bind fun i =>
        let left := trim (s.take i)
        let right := trim (s.drop (i + op.length))
        if left.isEmpty || right.isEmpty then none else some (op, left, right)) := by
  induction ops with
  | nil => rfl
  | cons op ops ih =>
      obtain ⟨hop, hops⟩ := List.forall_mem_cons.mp hne
      rw [splitAt?, operatorOffset?_eq hop, sides?_eq hop fun i => stands_of_findOperator?,
        String.length_toList, List.findSome?_cons]
      cases findOperator? op s with
      | none => exact ih hops
      | some i =>
          show (if (trim (s.take i)).isEmpty || (trim (s.drop (i + op.length))).isEmpty then _ else _) = _
          rw [Option.bind_some]
          by_cases hempty : ((trim (s.take i)).isEmpty || (trim (s.drop (i + op.length))).isEmpty) = true
          · rw [if_pos hempty, if_pos hempty]
            exact ih hops
          · rw [if_neg hempty, if_neg hempty]

/-- **No cut around an operator fails.** -/
theorem splitBinary?_eq (s : List Char) : splitBinary? s = some (Expression.splitBinary? s) :=
  splitAt?_eq s fun _ => ne_nil_of_mem_binaryOperators

/-! ## Arguments and calls -/

variable (p : Place)

/-- One argument, cut at `:=` or `=>`. -/
def argument (parse : List Char → Option Node) (arg : List Char) : Option Node := do
  match ← sides? (topLevelOffset? ":=" arg) ":=".toList arg with
  | some (param, value) => return p.assignment (trim param) (trim value) (← parse (trim value))
  | none => match ← sides? (topLevelOffset? "=>" arg) "=>".toList arg with
    | some (param, target) => return p.assignment (trim param) (trim target) (p.nameNode (trim target))
    | none => parse arg

/-- A call with its arguments. -/
def call (parse : List Char → Option Node) (name args : List Char) : Option Node := do
  let children ← ((splitTopLevel ',' args).filter (!·.isEmpty)).mapM (argument p parse)
  return { p.node .functionCall with
    name := some (String.ofList name)
    value := some (String.ofList (trim args))
    children }

theorem argument_eq (parse : List Char → Node) (arg : List Char) :
    argument p (fun t => some (parse t)) arg = some (p.argument parse arg) := by
  rw [argument, sides?_topLevelOffset? (by decide), sides?_topLevelOffset? (by decide), Place.argument]
  cases cutTopLevel? ":=" arg with
  | some cut => rfl
  | none =>
      cases cutTopLevel? "=>" arg with
      | some cut => rfl
      | none => rfl

theorem call_eq (parse : List Char → Node) (name args : List Char) :
    call p (fun t => some (parse t)) name args = some (p.call parse name args) := by
  have hargument : argument p (fun t => some (parse t)) = fun arg => pure (p.argument parse arg) :=
    funext (argument_eq p parse)
  rw [call, hargument, List.mapM_pure]
  rfl

/-! ## Expressions -/

/-- The tree of an expression with `levels` levels left. -/
def parseAt : Nat → List Char → Option Node
  | levels, s =>
    let t := trim s
    if Literal.isLiteral t then some (p.literal t)
    else if isQualified t then some (p.nameNode t)
    else match levels with
      | 0 => some (p.unresolved t)
      | levels + 1 =>
        match splitUnitCall? t with
        | some (name, args) => call p (parseAt levels) name args
        | none => do
          match ← splitBinary? t with
          | some (op, left, right) => return p.binary op (← parseAt levels left) (← parseAt levels right)
          | none => return p.unresolved t

theorem parseAt_eq (levels : Nat) (s : List Char) :
    parseAt p levels s = some (Expression.parseAt p levels s) := by
  induction levels generalizing s with
  | zero =>
      rw [parseAt, Expression.parseAt]
      by_cases hl : Literal.isLiteral (trim s) = true
      · rw [if_pos hl, if_pos hl]
      rw [if_neg hl, if_neg hl]
      by_cases hq : isQualified (trim s) = true
      · rw [if_pos hq, if_pos hq]
      · rw [if_neg hq, if_neg hq]
  | succ levels ih =>
      rw [parseAt, Expression.parseAt]
      by_cases hl : Literal.isLiteral (trim s) = true
      · rw [if_pos hl, if_pos hl]
      rw [if_neg hl, if_neg hl]
      by_cases hq : isQualified (trim s) = true
      · rw [if_pos hq, if_pos hq]
      rw [if_neg hq, if_neg hq]
      cases splitUnitCall? (trim s) with
      | some cut =>
          have hparse : parseAt p levels = fun t => some (Expression.parseAt p levels t) := funext ih
          show call p (parseAt p levels) cut.1 cut.2 = _
          rw [hparse]
          exact call_eq p _ cut.1 cut.2
      | none =>
          rw [splitBinary?_eq]
          cases Expression.splitBinary? (trim s) with
          | none => rfl
          | some cut =>
              show (do return p.binary cut.1 (← parseAt p levels cut.2.1) (← parseAt p levels cut.2.2)) = _
              rw [ih, ih]
              rfl

/-- The tree of an expression. -/
def parse (s : List Char) : Option Node := parseAt p maxDepth s

/-- The tree of the call `name(args)`, as a statement. -/
def callStatement (name args : List Char) : Option Node := call p (parseAt p (maxDepth - 1)) name args

/-- **Every expression is read**, whatever its characters. -/
theorem parse_eq (s : List Char) : parse p s = some (Expression.parse p s) := parseAt_eq p maxDepth s

theorem callStatement_eq (name args : List Char) :
    callStatement p name args = some (Expression.call p name args) := by
  have hparse : parseAt p (maxDepth - 1) = fun t => some (Expression.parseAt p (maxDepth - 1) t) :=
    funext (parseAt_eq p (maxDepth - 1))
  rw [callStatement, hparse]
  exact call_eq p _ name args

end StLint.Expression.Sliced

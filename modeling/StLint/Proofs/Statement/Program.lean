import StLint.Proofs.Text.Nesting
import StLint.Proofs.Text.Word
import StLint.Statement.Body

/-!
# Structured programs

A program is a **tree** of assignments, calls, `RETURN` and the blocks `IF`, `FOR`, `WHILE` and
`CASE`. It is written with one row for each header, branch, label, statement and closing word, and it
is described by nodes that name their row and the blocks around them. What the reader makes of the
rows has to be these nodes.

* `Inline`, `Phrase`, `Reference`, `Counter`, `BranchLabel` — the texts of a program.
* `Row` — what stands on one line, with its text and the nodes that it stands for.
* `Stmt`, `Block`, `Alternatives`, `Branches` — the trees, with their rows and their nodes.
* `Margin`, `Block.print` — the program as lines of a source.
-/

namespace StLint.Statement

open Text
open Expression (Place)

/-! ## Texts -/

/-- A character of an expression: it is no quote, ends no line, no statement and no label. -/
def isInlineChar (c : Char) : Bool :=
  !isQuote c && c ≠ ';' && c ≠ ':' && c ≠ '\n' && c ≠ '\r'

/-- The words that end a part of a header. -/
def endWords : List String := ["THEN", "DO", "OF", "TO", "BY"]

/-- The arguments of a call, which may be blank. -/
structure Inline where
  text : List Char
  allowed : text.all isInlineChar = true
  balanced : isBalanced text = true

/-- An expression. -/
structure Phrase extends Inline where
  notBlank : allBlank text = false
  noEndWord : (endWords.any fun word => containsWord word text) = false

/-- The target of an assignment or the callee of a call. -/
structure Reference where
  text : List Char
  qualified : isQualified text = true
  notReserved : Language.isReserved text = false
  firstNotReserved : Language.isReserved (firstComponent text) = false

/-- The variable of a `FOR` loop. -/
structure Counter where
  text : List Char
  identifier : isIdentifier text = true

/-- The label of a `CASE` branch. -/
structure BranchLabel where
  text : List Char
  allowed : text.all isLabelChar = true
  notBlank : allBlank text = false

/-- The bounds of a `FOR` loop. -/
structure Range where
  first : Phrase
  last : Phrase
  step : Option Phrase

namespace Range

/-- The bounds as they are written. -/
def text (r : Range) : List Char :=
  r.first.text ++ (" TO ".toList ++ (r.last.text ++
    match r.step with
    | some s => " BY ".toList ++ s.text
    | none => []))

/-- The bounds as they are read. -/
def bounds (r : Range) : Bounds where
  first := trim r.first.text
  last := trim r.last.text
  step := r.step.map fun s => trim s.text

end Range

/-! ## Rows -/

/-- What stands on one line of a program. -/
inductive Row where
  | assign (target : Reference) (value : Phrase)
  | call (callee : Reference) (arguments : Inline)
  | ret
  | ifThen (condition : Phrase)
  | elsif (condition : Phrase)
  | otherwise
  | forTo (counter : Counter) (range : Range)
  | whileDo (condition : Phrase)
  | caseOf (selector : Phrase)
  | label (label : BranchLabel)
  | ends (kind : BlockKind)

namespace Row

/-- An expression between two keywords. -/
def between (opening : String) (p : Phrase) (closing : String) : List Char :=
  opening.toList ++ ' ' :: (p.text ++ ' ' :: closing.toList)

/-- The text of a row. -/
def text : Row → List Char
  | assign target value => target.text ++ (" := ".toList ++ value.text)
  | call callee arguments => callee.text ++ '(' :: (arguments.text ++ [')'])
  | ret => "RETURN".toList
  | ifThen condition => between "IF" condition "THEN"
  | elsif condition => between "ELSIF" condition "THEN"
  | otherwise => "ELSE".toList
  | forTo counter range =>
    "FOR ".toList ++ (counter.text ++ (" := ".toList ++ (range.text ++ " DO".toList)))
  | whileDo condition => between "WHILE" condition "DO"
  | caseOf selector => between "CASE" selector "OF"
  | label l => l.text ++ [':']
  | ends kind => kind.closer.toList

theorem text_assign (target : Reference) (value : Phrase) :
    (assign target value).text = target.text ++ (" := ".toList ++ value.text) := rfl

theorem text_call (callee : Reference) (arguments : Inline) :
    (call callee arguments).text = callee.text ++ '(' :: (arguments.text ++ [')']) := rfl

/-- A header with its condition or selector. -/
def guarded (p : Place) (kind : NodeKind) (guard : Phrase) : Node :=
  { p.node kind with
    value := some (String.ofList (trim guard.text))
    children := [Expression.parse p (trim guard.text)] }

/-- The nodes of a row; a branch, a label and a closing word have none. -/
def nodes (p : Place) : Row → List Node
  | assign target value =>
    [p.assignment target.text (trim value.text) (Expression.parse p (trim value.text))]
  | call callee arguments => [Expression.call p callee.text arguments.text]
  | ret => [p.node .returnStatement]
  | ifThen condition => [guarded p .ifStatement condition]
  | forTo counter range =>
    [{ p.node .forLoop with
        name := some (String.ofList counter.text)
        value := some (String.ofList range.bounds.text)
        children := [Expression.parse p counter.text] }]
  | whileDo condition => [guarded p .whileLoop condition]
  | caseOf selector => [guarded p .caseStatement selector]
  | elsif _ | otherwise | label _ | ends _ => []

end Row

/-! ## Trees -/

mutual

/-- A statement. -/
inductive Stmt where
  | assign (target : Reference) (value : Phrase)
  | call (callee : Reference) (arguments : Inline)
  | ret
  | ifThen (condition : Phrase) (body : Block) (alternatives : Alternatives)
  | forTo (counter : Counter) (range : Range) (body : Block)
  | whileDo (condition : Phrase) (body : Block)
  | caseOf (selector : Phrase) (branches : Branches)

/-- Statements one after the other. -/
inductive Block where
  | nil
  | cons (head : Stmt) (tail : Block)

/-- What follows the first branch of an `IF`. -/
inductive Alternatives where
  | none
  | otherwise (body : Block)
  | elsif (condition : Phrase) (body : Block) (rest : Alternatives)

/-- The branches of a `CASE`. -/
inductive Branches where
  | none
  | otherwise (body : Block)
  | label (label : BranchLabel) (body : Block) (rest : Branches)

end

mutual

/-- The rows of a statement: a block ends with its closing word. -/
def Stmt.rows : Stmt → List Row
  | .assign target value => [.assign target value]
  | .call callee arguments => [.call callee arguments]
  | .ret => [.ret]
  | .ifThen condition body alternatives =>
    .ifThen condition :: (body.rows ++ alternatives.rows ++ [.ends .ifBlock])
  | .forTo counter range body => .forTo counter range :: (body.rows ++ [.ends .forBlock])
  | .whileDo condition body => .whileDo condition :: (body.rows ++ [.ends .whileBlock])
  | .caseOf selector branches => .caseOf selector :: (branches.rows ++ [.ends .caseBlock])

def Block.rows : Block → List Row
  | .nil => []
  | .cons head tail => head.rows ++ tail.rows

def Alternatives.rows : Alternatives → List Row
  | .none => []
  | .otherwise body => .otherwise :: body.rows
  | .elsif condition body rest => .elsif condition :: (body.rows ++ rest.rows)

def Branches.rows : Branches → List Row
  | .none => []
  | .otherwise body => .otherwise :: body.rows
  | .label l body rest => .label l :: (body.rows ++ rest.rows)

end

/-- The scope inside a block that opens on line `n`. -/
def within (scope : String) (kind : BlockKind) (n : Nat) : String :=
  scope ++ "/" ++ kind.keyword ++ "@" ++ toString n

mutual

/-- The nodes of a statement whose first row is line `n`. -/
def Stmt.nodes (n : Nat) (scope : String) : Stmt → List Node
  | .assign target value => (Row.assign target value).nodes ⟨n, scope⟩
  | .call callee arguments => (Row.call callee arguments).nodes ⟨n, scope⟩
  | .ret => Row.ret.nodes ⟨n, scope⟩
  | .ifThen condition body alternatives =>
    (Row.ifThen condition).nodes ⟨n, scope⟩ ++
      (body.nodes (n + 1) (within scope .ifBlock n) ++
        alternatives.nodes (n + 1 + body.rows.length) (within scope .ifBlock n))
  | .forTo counter range body =>
    (Row.forTo counter range).nodes ⟨n, scope⟩ ++ body.nodes (n + 1) (within scope .forBlock n)
  | .whileDo condition body =>
    (Row.whileDo condition).nodes ⟨n, scope⟩ ++ body.nodes (n + 1) (within scope .whileBlock n)
  | .caseOf selector branches =>
    (Row.caseOf selector).nodes ⟨n, scope⟩ ++ branches.nodes (n + 1) (within scope .caseBlock n)

def Block.nodes (n : Nat) (scope : String) : Block → List Node
  | .nil => []
  | .cons head tail => head.nodes n scope ++ tail.nodes (n + head.rows.length) scope

def Alternatives.nodes (n : Nat) (scope : String) : Alternatives → List Node
  | .none => []
  | .otherwise body => body.nodes (n + 1) scope
  | .elsif _ body rest => body.nodes (n + 1) scope ++ rest.nodes (n + 1 + body.rows.length) scope

def Branches.nodes (n : Nat) (scope : String) : Branches → List Node
  | .none => []
  | .otherwise body => body.nodes (n + 1) scope
  | .label _ body rest => body.nodes (n + 1) scope ++ rest.nodes (n + 1 + body.rows.length) scope

end

/-! ## Lines -/

/-- White space inside a line. -/
def isMarginChar (c : Char) : Bool := isBlank c && c ≠ '\n' && c ≠ '\r'

/-- What stands around the text of a row: white space, and a semicolon if the row has one. -/
structure Margin where
  before : List Char
  after : List Char
  semicolon : Bool
  beforeBlank : before.all isMarginChar = true
  afterBlank : after.all isMarginChar = true

namespace Margin

/-- A text with its margin. -/
def around (m : Margin) (s : List Char) : List Char :=
  m.before ++ (s ++ ((if m.semicolon then [';'] else []) ++ m.after))

/-- No white space, and a semicolon or not. -/
def tight (semicolon : Bool) : Margin := ⟨[], [], semicolon, rfl, rfl⟩

end Margin

/-- Rows as lines of a source, the first of which is line `n`. -/
def printRows (layout : Nat → Margin) (n : Nat) : List Row → List (List Char)
  | [] => []
  | row :: rows => (layout n).around row.text :: printRows layout (n + 1) rows

/-- A program as lines of a source. -/
def Block.print (layout : Nat → Margin) (program : Block) : List (List Char) :=
  printRows layout 1 program.rows

end StLint.Statement

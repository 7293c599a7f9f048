import StLint.Expression.Literal
import StLint.Check.Basic

/-!
# Suggestions by rule

A provider looks at a project and suggests improvements, or fails. Every rule looks at a single
unit: variables that are never used, numbers without a name in a condition, loops inside loops, a
missing description, and units that are too large. **Rules cannot fail.**
-/

namespace StLint

open Text

/-- A source of suggestions. -/
structure SuggestionProvider where
  name : String
  suggest : Project → Except Failure (List Issue)

namespace Rules

/-! ## Unused variables -/

/-- The texts of the nodes below the root of a body. -/
def bodyTexts (body : Node) : List String :=
  (body.walk.drop 1).flatMap fun n => [n.name, n.value].filterMap id

/-- A name occurs as a word in the statements of a body. -/
def isReferenced (body : Node) (name : String) : Bool :=
  (bodyTexts body).any fun t => containsWord name t.toList

/-- A variable that only its own unit can use. -/
def isPrivate (v : Variable) : Bool := v.scope = .localVar || v.scope = .temp

/-- The suggestion about an unused variable. -/
def unusedVariable (u : Pou) (v : Variable) : Issue :=
  .inUnit u (some v.line) .unusedVariable .info "Unused variable"
    (v.name ++ " is declared but never used") ("Remove " ++ v.name ++ " or use it") 0.8

/-- The suggestions about unused variables. -/
def unusedVariables (u : Pou) : List Issue :=
  (u.vars.filter fun v => isPrivate v && !isReferenced u.body v.name).map (unusedVariable u)

/-! ## Numbers in conditions -/

/-- The operators that compare. -/
def comparisons : List String := ["=", "<>", "<", ">", "<=", ">="]

/-- A number that should have a name: any but 0 and 1. -/
def isMagic (s : String) : Bool :=
  Literal.isNumeric s.toList && !(Literal.decimalValue? s.toList).any fun x => x == 0.0 || x == 1.0

/-- The numbers without a name on either side of a comparison. -/
def magicOperands (n : Node) : List String :=
  if n.kind = .binaryExpression && n.value.any comparisons.contains then
    (n.children.filter fun c => c.kind = .literal).filterMap fun c => c.value.filter isMagic
  else []

/-- A list without the elements that equal the one before them. -/
def dropRepeats [DecidableEq α] : List α → List α
  | a :: b :: r => if a = b then dropRepeats (b :: r) else a :: dropRepeats (b :: r)
  | s => s

/-- A statement with a condition. -/
def hasCondition (n : Node) : Bool :=
  n.kind = .ifStatement || n.kind = .whileLoop || n.kind = .repeatLoop

/-- The numbers without a name in the condition of a statement. -/
def magicNumbers (n : Node) : List String :=
  dropRepeats ((Node.preorderAll n.children).flatMap magicOperands)

/-- The suggestion about a number. -/
def magicNumber (u : Pou) (n : Node) (literal : String) : Issue :=
  .inUnit u (some n.line) .potentialImprovement .info "Magic number in condition"
    ("The condition compares against the literal " ++ literal)
    ("Declare " ++ literal ++ " as a named constant in a VAR CONSTANT block") 0.6

/-- The suggestions about numbers in conditions. -/
def conditionNumbers (u : Pou) : List Issue :=
  (u.body.walk.filter hasCondition).flatMap fun n => (magicNumbers n).map (magicNumber u n)

/-! ## Loops inside loops -/

/-- How the part of a scope label for a loop begins. -/
def loopLabels : List String := ["FOR@", "WHILE@", "REPEAT@"]

/-- A scope label names a loop below the unit. -/
def isInsideLoop (scope : String) : Bool :=
  ((splitOn '/' scope.toList).drop 1).any fun part =>
    loopLabels.any fun l => l.toList.isPrefixOf part

/-- The suggestion about a loop inside another. -/
def nestedLoop (u : Pou) (n : Node) : Issue :=
  .inUnit u (some n.line) .performanceIssue .info "Nested loop"
    ("Loop at line " ++ toString n.line ++ " runs inside another loop (" ++ n.scope ++ ")")
    "Check the combined iteration count fits in one scan cycle" 0.6

/-- The suggestions about loops inside loops. -/
def nestedLoops (u : Pou) : List Issue :=
  (u.body.walk.filter fun n => n.kind.isLoop && isInsideLoop n.scope).map (nestedLoop u)

/-! ## The unit as a whole -/

/-- The suggestion about a missing description. -/
def missingDescription (u : Pou) : List Issue :=
  if u.description.isSome then []
  else
    [.inUnit u none .styleViolation .info "Missing unit description"
      (u.kind.keyword ++ " " ++ u.name ++ " has no descriptive comment")
      "Add a comment above the declaration describing what the unit does" 0.5]

/-- The suggestion about too many statements. -/
def largeUnit (limit : Nat) (u : Pou) : List Issue :=
  if limit < u.statementCount then
    [.inUnit u none .potentialImprovement .info "Large unit"
      (u.name ++ " has " ++ toString u.statementCount ++ " top-level statements (limit " ++
        toString limit ++ ")")
      "Split the unit into smaller function blocks" 0.6]
  else []

/-- The suggestions about a unit. -/
def ofUnit (t : Thresholds) (u : Pou) : List Issue :=
  unusedVariables u ++ conditionNumbers u ++ nestedLoops u ++ missingDescription u ++
    largeUnit t.largeUnit u

/-- The suggestions about a project. -/
def suggestions (p : Project) : List Issue := p.units.flatMap (ofUnit p.thresholds)

end Rules

/-- The rules as a provider. -/
def SuggestionProvider.rules : SuggestionProvider :=
  ⟨"heuristic", fun p => .ok (Rules.suggestions p)⟩

end StLint

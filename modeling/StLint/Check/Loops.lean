import StLint.Check.Basic
import StLint.Decimal.Spelling
import StLint.Expression.Literal
import StLint.Statement.Header

/-!
# Loops that never run or never end

A counting loop whose numeric bounds leave nothing to count is reported, and every `WHILE` loop
is, for its end depends on what happens inside.
-/

namespace StLint.Check

open Statement (Bounds)

/-- The bounds of a counting loop that are numbers. -/
structure NumericBounds where
  first : Float
  last : Float
  /-- Missing also when the step is not a number. -/
  step : Option Float
  deriving Repr

namespace NumericBounds

/-- The numbers of the bounds, if both ends are numbers. -/
def ofBounds? (b : Bounds) : Option NumericBounds := do
  return ⟨← Literal.decimalValue? b.first, ← Literal.decimalValue? b.last,
    b.step.bind Literal.decimalValue?⟩

/-- The numbers of the bounds that a text spells. -/
def read? (s : String) : Option NumericBounds := (Bounds.read? s.toList).bind ofBounds?

/-- The step is a negative number. -/
def countsDown (b : NumericBounds) : Bool := b.step.any fun s => s < 0.0

/-- The body is skipped. -/
def neverRuns (b : NumericBounds) : Bool := b.first ≥ b.last && !b.countsDown

end NumericBounds

namespace Loops

/-- The finding about a counting loop. -/
def idleLoop (u : Pou) (n : Node) (b : NumericBounds) : Issue :=
  .inUnit u (some n.line) .logicError .warning "FOR loop may never execute"
    ("FOR " ++ n.name.getD "loop variable" ++
      " runs from " ++ String.ofList (Decimal.plain b.first) ++
      " to " ++ String.ofList (Decimal.plain b.last) ++
      " with a positive step, so the body is skipped")
    "Swap the bounds or add a negative BY step" 0.8

/-- The finding about a `WHILE` loop. -/
def openLoop (u : Pou) (n : Node) : Issue :=
  .inUnit u (some n.line) .safetyConcern .warning "WHILE loop exit condition"
    ("WHILE " ++ n.value.getD "" ++ " blocks the scan cycle until the condition turns false")
    "Verify the loop always terminates within one scan, or bound it with an iteration counter" 0.6

/-- The finding about one node. -/
def ofNode? (u : Pou) (n : Node) : Option Issue :=
  match n.kind with
  | .forLoop => ((n.value.bind NumericBounds.read?).filter (·.neverRuns)).map (idleLoop u n)
  | .whileLoop => some (openLoop u n)
  | _ => none

end Loops

/-- The findings about the loops of a unit. -/
def loops (u : Pou) : List Issue := u.body.walk.filterMap (Loops.ofNode? u)

end StLint.Check

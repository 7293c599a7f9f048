import StLint.Check.Basic

/-!
# Division by zero

An assignment that divides is reported, **unless some line of the unit guards a divisor**: a line
with an `IF` and a comparison with zero. Which divisor it guards is not looked at.
-/

namespace StLint.Check

open Text

namespace Division

/-- The comparisons that guard a divisor. -/
def guards : List String := ["<> 0", "> 0", "!= 0"]

/-- A line guards a divisor. -/
def isGuard (line : List Char) : Bool :=
  containsWord "IF" line && guards.any fun g => (find? g.toList line).isSome

/-- An expression divides. -/
def divides (s : List Char) : Bool := s.contains '/' || containsWord "DIV" s

/-- The finding about one node. -/
def ofNode? (u : Pou) (n : Node) : Option Issue :=
  if n.kind = .assignment then
    (n.value.filter fun v => divides v.toList).map fun v =>
      .inUnit u (some n.line) .runtimeError .error "Possible division by zero"
        (n.name.getD "" ++ " := " ++ v ++ " divides without checking the divisor")
        "Guard the division with IF divisor <> 0 THEN ... END_IF" 0.7
  else none

end Division

/-- The findings about the divisions of a unit. -/
def divisions (u : Pou) : List Issue :=
  if u.sourceLines.any Division.isGuard then [] else u.body.walk.filterMap (Division.ofNode? u)

end StLint.Check

import StLint.Check.Basic

/-!
# Names

A variable has a name of its own, and a unit names the units that it depends on. Units that depend on
each other in a circle are reported together, and a dependency is reported for each unit that has it
when **no unit of the project has its name**.
-/

namespace StLint.Check

/-! ## Variables -/

/-- The finding about a variable. -/
def invalidName (u : Pou) (v : Variable) : Issue :=
  .inUnit u (some v.line) .styleViolation .info "Invalid variable name"
    ("'" ++ v.name ++ "' is not a valid identifier")
    "Use letters, digits and underscores, starting with a letter or underscore" 0.9

/-- The findings about the names of a unit's variables. -/
def naming (u : Pou) : List Issue :=
  (u.vars.filter fun v => !Text.isIdentifier v.name.toList).map (invalidName u)

/-! ## Dependencies between units -/

/-- The finding about a circle of units. -/
def circle (names : List String) : Issue :=
  .found .circularDependency .error "Circular dependency"
    (match names with
      | [name] => name ++ " depends on itself"
      | _ => ", ".intercalate names ++ " form a dependency cycle")
    names none "Break the cycle by moving shared logic into a separate function block" 0.95

/-- The finding about a dependency outside the project. -/
def orphan (u : Pou) (dependency : String) : Issue :=
  .inUnit u none .logicError .warning "Orphaned dependency"
    (u.name ++ " calls " ++ dependency ++ ", which is not part of the project")
    ("Add " ++ dependency ++ " to the project or check the name for typos") 0.6

/-- The dependencies of a unit that are outside the project. -/
def orphans (p : Project) (u : Pou) : List String :=
  u.dependencies.filter fun d => (p.unit? d).isNone

/-- The findings about the dependencies of a project. -/
def coupling (p : Project) : List Issue :=
  p.graph.cycles.map circle ++ p.units.flatMap fun u => (orphans p u).map (orphan u)

end StLint.Check

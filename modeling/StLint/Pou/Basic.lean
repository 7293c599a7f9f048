import StLint.Pou.Kind
import StLint.Pou.Variable
import StLint.Pou.Node

/-!
# Program organization units

A unit is built once from its source and holds everything that the analyses ask of it. A line that
cannot be read never fails a unit: it is dropped, and a diagnostic says which and why.
-/

namespace StLint

open Text

/-- What was wrong with a line. -/
inductive DiagnosticKind where
  /-- A line of a section that is no `name : type [:= value];`. -/
  | malformedDeclaration
  /-- A statement that produced no node. -/
  | unrecognizedStatement
  /-- A variable declared again in its section; the later declaration counts. -/
  | duplicateVariable
  /-- A section or block that is never closed. -/
  | unterminatedBlock
  deriving DecidableEq, Repr, Inhabited

/-- One dropped line. -/
structure Diagnostic where
  kind : DiagnosticKind
  /-- Line of the source, counted from 1. -/
  line : Nat
  text : String
  deriving DecidableEq, Repr, Inhabited

/-- A function block instance that the body calls: its name and the declared type. -/
structure InstanceBinding where
  name : String
  typeName : String
  deriving DecidableEq, Repr, Inhabited

/-- A program, function block or function. -/
structure Pou where
  kind : UnitKind
  name : String
  source : String
  vars : List Variable
  body : Node
  /-- The called units, sorted and without repetition. -/
  dependencies : List String
  instances : List InstanceBinding
  description : Option String
  /-- The type of a function's result. -/
  returnType : Option String
  diagnostics : List Diagnostic
  /-- The label of the text that the unit came from, usually a file name. -/
  origin : Option String
  deriving Repr, Inhabited

namespace Pou

/-- The variable with a name, in any case; the first of several. -/
def find? (u : Pou) (name : List Char) : Option Variable := u.vars.find? (·.isNamed name)

/-- The unit calls another one, in any case. -/
def dependsOn (u : Pou) (name : List Char) : Bool :=
  u.dependencies.any fun d => eqIgnoreCase d.toList name

/-- The number of statements. -/
def statementCount (u : Pou) : Nat := u.body.children.length

end Pou

end StLint

import StLint.Language.Words
import StLint.Collection.Basic
import StLint.Pou.Basic

/-!
# Dependencies of a body

A unit depends on what its body calls. A call through a declared function block instance counts for
the type of the instance; standard functions and reserved words never count.

* `Callee.resolve?` — what one call stands for.
* `Dependencies.ofBody` — the dependencies and instances of a body, each **sorted and once**.
-/

namespace StLint

open Text

namespace InstanceBinding

/-- Instances are sorted by name, then by type. -/
def before (a b : InstanceBinding) : Bool :=
  a.name < b.name || (a.name = b.name && a.typeName < b.typeName)

end InstanceBinding

/-- What a call stands for. -/
inductive Callee where
  /-- A call through an instance, with the instance and its declared type. -/
  | throughInstance (binding : InstanceBinding)
  | direct (name : String)
  deriving DecidableEq, Repr

namespace Callee

/-- The instance that a call goes through: the first variable with the name before the first dot, if
    its type may be a function block. -/
def instance? (vars : List Variable) (call : List Char) : Option Variable :=
  (vars.find? (·.isNamed (firstComponent call))).filter fun v =>
    Language.isInstanceType v.baseType

/-- What a node calls. -/
def resolve? (vars : List Variable) (n : Node) : Option Callee :=
  if n.kind = .functionCall then
    n.name.map fun name => match instance? vars name.toList with
      | some v => .throughInstance ⟨v.name, String.ofList (trim v.dataType.toList)⟩
      | none => .direct name
  else none

/-- The instance of a call. -/
def binding? : Callee → Option InstanceBinding
  | throughInstance b => some b
  | direct _ => none

/-- The unit that a call depends on. -/
def dependency? : Callee → Option String
  | throughInstance b => if Language.isBuiltin b.typeName.toList then none else some b.typeName
  | direct name =>
    if Language.isBuiltin name.toList || Language.isReserved name.toList then none else some name

end Callee

/-- The called units and instances of a body. -/
structure Dependencies where
  units : List String
  instances : List InstanceBinding
  deriving DecidableEq, Repr

/-- The dependencies of a body, given the variables of its unit. -/
def Dependencies.ofBody (vars : List Variable) (body : Node) : Dependencies :=
  let callees := body.walk.filterMap (Callee.resolve? vars)
  { units := sortOnce (fun a b => a < b) (callees.filterMap Callee.dependency?)
    instances := sortOnce InstanceBinding.before (callees.filterMap Callee.binding?) }

end StLint

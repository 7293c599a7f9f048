import StLint.Json.Decode
import StLint.Pou.Basic

/-!
# Units as data

The JSON form of units and of everything inside them. A field without a value is left out, and on
reading it may be null or missing.
-/

namespace StLint

open Json

namespace UnitKind

/-- Names in data. -/
def names : List (String × UnitKind) := all.map fun k => (k.name, k)

/-- Reads a kind. -/
def ofJson? (v : Json) : Option UnitKind := variant? names v

end UnitKind

namespace VariableScope

/-- Names in data. -/
def names : List (String × VariableScope) := all.map fun k => (k.name, k)

/-- Reads a scope. -/
def ofJson? (v : Json) : Option VariableScope := variant? names v

end VariableScope

namespace InitialValue

/-- A value with the name of its form. -/
def toJson : InitialValue → Json
  | bool b => .obj [("type", .str "bool"), ("value", .bool b)]
  | int i => .obj [("type", .str "int"), ("value", .ofInt i)]
  | float x => .obj [("type", .str "float"), ("value", .ofFloat x)]
  | string s => .obj [("type", .str "string"), ("value", .str s)]
  | raw s => .obj [("type", .str "raw"), ("value", .str s)]

/-- How the value of each form is read. -/
def readers : List (String × (Json → Option InitialValue)) :=
  [("bool", fun v => (bool? v).map bool), ("int", fun v => (int? v).map int),
    ("float", fun v => (float? v).map float), ("string", fun v => (string? v).map string),
    ("raw", fun v => (string? v).map raw)]

/-- Reads a value by the name of its form. -/
def ofJson? (v : Json) : Option InitialValue := do
  let r ← record? ["type", "value"] v
  let read ← (r "type").required (variant? readers)
  (r "value").required read

end InitialValue

namespace Variable

/-- Keys in order. -/
def keys : List String :=
  ["name", "dataType", "scope", "isConstant", "isRetain", "initialValue", "description", "address",
    "line"]

/-- Writes a variable. -/
def toJson (v : Variable) : Json :=
  .ofMembers [
    field "name" (.str v.name),
    field "dataType" (.str v.dataType),
    field "scope" (.str v.scope.name),
    field "isConstant" (.bool v.isConstant),
    field "isRetain" (.bool v.isRetain),
    field? "initialValue" InitialValue.toJson v.initialValue,
    field? "description" .str v.description,
    field? "address" .str v.address,
    field "line" (.ofNat v.line)]

/-- Reads a variable. -/
def ofJson? (v : Json) : Option Variable := do
  let r ← record? keys v
  return {
    name := ← (r "name").required string?
    dataType := ← (r "dataType").required string?
    scope := ← (r "scope").required VariableScope.ofJson?
    isConstant := ← (r "isConstant").required bool?
    isRetain := ← (r "isRetain").orDefault false bool?
    initialValue := ← (r "initialValue").optional InitialValue.ofJson?
    description := ← (r "description").optional string?
    address := ← (r "address").optional string?
    line := ← (r "line").required nat? }

end Variable

namespace NodeKind

/-- Names in data. -/
def names : List (String × NodeKind) :=
  [("Root", root), ("Assignment", assignment), ("IfStatement", ifStatement), ("ForLoop", forLoop),
    ("WhileLoop", whileLoop), ("RepeatLoop", repeatLoop), ("CaseStatement", caseStatement),
    ("FunctionCall", functionCall), ("Variable", NodeKind.variable), ("Literal", literal),
    ("BinaryExpression", binaryExpression), ("Return", returnStatement)]

/-- The name of a kind in data. -/
def name (k : NodeKind) : String := ((names.find? fun n => n.2 = k).map Prod.fst).getD ""

/-- Reads a kind. -/
def ofJson? (v : Json) : Option NodeKind := variant? names v

end NodeKind

namespace Node

/-- Keys in order. -/
def keys : List String := ["kind", "name", "value", "children", "lineNumber", "scope"]

mutual

/-- Writes a tree. -/
def toJson : Node → Json
  | ⟨kind, name, value, children, line, scope⟩ =>
    .ofMembers [
      field "kind" (.str kind.name),
      field? "name" .str name,
      field? "value" .str value,
      field "children" (.arr (toJsonAll children)),
      field "lineNumber" (.ofNat line),
      field "scope" (.str scope)]

/-- Writes several trees. -/
def toJsonAll : List Node → List Json
  | [] => []
  | n :: ns => toJson n :: toJsonAll ns

end

/-- The keys of a node that hold no further nodes, read with given children. -/
def ofRecord? (r : Record) (children : List Node) : Option Node := do
  return {
    kind := ← (r "kind").required NodeKind.ofJson?
    name := ← (r "name").optional string?
    value := ← (r "value").optional string?
    children
    line := ← (r "lineNumber").required nat?
    scope := ← (r "scope").required string? }

/-- The children that a record names, with the position at which an array holds them. -/
def childrenKey : Nat := 3

mutual

/-- Reads a tree. -/
def ofJson? : Json → Option Node
  | .obj ms => do
    let r ← record? keys (.obj ms)
    let children ← ofMembers? ms
    ofRecord? r children
  | .arr items => do
    let r ← record? keys (.arr items)
    let children ← ofItems? childrenKey items
    ofRecord? r children
  | _ => none

/-- Reads the children among the members of an object. -/
def ofMembers? : List (String × Json) → Option (List Node)
  | [] => some []
  | (k, v) :: ms => if k = "children" then ofArray? v else ofMembers? ms

/-- Reads the children at a position of an array. -/
def ofItems? : Nat → List Json → Option (List Node)
  | _, [] => some []
  | 0, v :: _ => ofArray? v
  | n + 1, _ :: vs => ofItems? n vs

/-- Reads an array of trees. -/
def ofArray? : Json → Option (List Node)
  | .arr items => ofList? items
  | _ => none

/-- Reads several trees. -/
def ofList? : List Json → Option (List Node)
  | [] => some []
  | v :: vs => do
    let n ← ofJson? v
    let ns ← ofList? vs
    return n :: ns

end

end Node

namespace DiagnosticKind

/-- Names in data. -/
def names : List (String × DiagnosticKind) :=
  [("MalformedDeclaration", malformedDeclaration), ("UnrecognizedStatement", unrecognizedStatement),
    ("DuplicateVariable", duplicateVariable), ("UnterminatedBlock", unterminatedBlock)]

/-- The name of a kind in data. -/
def name (k : DiagnosticKind) : String := ((names.find? fun n => n.2 = k).map Prod.fst).getD ""

end DiagnosticKind

namespace Diagnostic

/-- Writes a diagnostic. -/
def toJson (d : Diagnostic) : Json :=
  .obj [("kind", .str d.kind.name), ("line", .ofNat d.line), ("text", .str d.text)]

/-- Reads a diagnostic. -/
def ofJson? (v : Json) : Option Diagnostic := do
  let r ← record? ["kind", "line", "text"] v
  return {
    kind := ← (r "kind").required (variant? DiagnosticKind.names)
    line := ← (r "line").required nat?
    text := ← (r "text").required string? }

end Diagnostic

namespace InstanceBinding

/-- Writes an instance. -/
def toJson (b : InstanceBinding) : Json :=
  .obj [("name", .str b.name), ("typeName", .str b.typeName)]

/-- Reads an instance. -/
def ofJson? (v : Json) : Option InstanceBinding := do
  let r ← record? ["name", "typeName"] v
  return {
    name := ← (r "name").required string?
    typeName := ← (r "typeName").required string? }

end InstanceBinding

namespace Pou

/-- Keys in order. -/
def keys : List String :=
  ["kind", "name", "source", "variables", "body", "dependencies", "instances", "description",
    "returnType", "diagnostics", "origin"]

/-- Writes a unit. -/
def toJson (u : Pou) : Json :=
  .ofMembers [
    field "kind" (.str u.kind.name),
    field "name" (.str u.name),
    field "source" (.str u.source),
    field "variables" (.ofList Variable.toJson u.vars),
    field "body" u.body.toJson,
    field "dependencies" (.ofList .str u.dependencies),
    field "instances" (.ofList InstanceBinding.toJson u.instances),
    field? "description" .str u.description,
    field? "returnType" .str u.returnType,
    if u.diagnostics.isEmpty then none
      else field "diagnostics" (.ofList Diagnostic.toJson u.diagnostics),
    field? "origin" .str u.origin]

/-- Reads a unit. -/
def ofJson? (v : Json) : Option Pou := do
  let r ← record? keys v
  return {
    kind := ← (r "kind").required UnitKind.ofJson?
    name := ← (r "name").required string?
    source := ← (r "source").required string?
    vars := ← (r "variables").required (list? Variable.ofJson?)
    body := ← (r "body").required Node.ofJson?
    dependencies := ← (r "dependencies").required (list? string?)
    instances := ← (r "instances").required (list? InstanceBinding.ofJson?)
    description := ← (r "description").optional string?
    returnType := ← (r "returnType").optional string?
    diagnostics := ← (r "diagnostics").orDefault [] (list? Diagnostic.ofJson?)
    origin := (← (r "origin").orDefault none (nullable? string?)) }

end Pou

end StLint

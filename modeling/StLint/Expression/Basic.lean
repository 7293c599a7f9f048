import StLint.Expression.Literal
import StLint.Expression.Operator
import StLint.Pou.Node

/-!
# Expressions

An expression is a literal, a name, one whole call, or is split once at the first operator of the
list; there is no precedence and no grouping. Below `maxDepth` levels a text **stays as it is**.

* `parse` — the tree of an expression.
* `call` — the tree of a call with its arguments, where `p := e` and `p => v` become assignments.
* `flat` — the text of a tree, read back from its nodes.
-/

namespace StLint.Expression

open Text

/-- The number of levels of operators and calls. -/
def maxDepth : Nat := 64

/-- The line and scope that every node of an expression carries. -/
structure Place where
  line : Nat
  scope : String

namespace Place

/-- A node without name, value and children. -/
def node (p : Place) (kind : NodeKind) : Node := .leaf kind p.line p.scope

/-- A literal. -/
def literal (p : Place) (s : List Char) : Node :=
  { p.node .literal with value := some (String.ofList s) }

/-- A name. -/
def nameNode (p : Place) (s : List Char) : Node :=
  { p.node .variable with name := some (String.ofList s) }

/-- A text that is kept whole, as the name and the value of a variable. -/
def unresolved (p : Place) (s : List Char) : Node :=
  { p.nameNode s with value := some (String.ofList s) }

/-- An argument that names its parameter. -/
def assignment (p : Place) (name value : List Char) (child : Node) : Node :=
  { p.node .assignment with
    name := some (String.ofList name), value := some (String.ofList value), children := [child] }

/-- One argument: `p := e`, `p => v`, or an expression. -/
def argument (p : Place) (parse : List Char → Node) (arg : List Char) : Node :=
  match cutTopLevel? ":=" arg with
  | some (param, value) => p.assignment (trim param) (trim value) (parse (trim value))
  | none => match cutTopLevel? "=>" arg with
    | some (param, target) => p.assignment (trim param) (trim target) (p.nameNode (trim target))
    | none => parse arg

/-- A call with its arguments; empty arguments are left out. -/
def call (p : Place) (parse : List Char → Node) (name args : List Char) : Node :=
  { p.node .functionCall with
    name := some (String.ofList name)
    value := some (String.ofList (trim args))
    children := ((splitTopLevel ',' args).filter (!·.isEmpty)).map (p.argument parse) }

/-- An operator with its two sides. -/
def binary (p : Place) (op : String) (left right : Node) : Node :=
  { p.node .binaryExpression with value := some op, children := [left, right] }

end Place

/-- The call that a text is, if its name is no reserved word. -/
def splitUnitCall? (s : List Char) : Option (List Char × List Char) :=
  (splitCall? s).filter fun c => !Language.isReserved c.1

/-- The tree of an expression with `levels` levels left. -/
def parseAt (p : Place) : Nat → List Char → Node
  | levels, s =>
    let t := trim s
    if Literal.isLiteral t then p.literal t
    else if isQualified t then p.nameNode t
    else match levels with
      | 0 => p.unresolved t
      | levels + 1 =>
        match splitUnitCall? t with
        | some (name, args) => p.call (parseAt p levels) name args
        | none => match splitBinary? t with
          | some (op, left, right) => p.binary op (parseAt p levels left) (parseAt p levels right)
          | none => p.unresolved t

/-- The tree of an expression. -/
def parse (p : Place) (s : List Char) : Node := parseAt p maxDepth s

/-- The tree of the call `name(args)`. -/
def call (p : Place) (name args : List Char) : Node := p.call (parseAt p (maxDepth - 1)) name args

/-- The text of an optional field. -/
def fieldText (s : Option String) : List Char := (s.map String.toList).getD []

mutual

/-- The text that a tree stands for: literals, names, calls with their argument text, and the
    sides of an operator around it. -/
def flat : Node → List Char
  | ⟨.literal, _, value, _, _, _⟩ => fieldText value
  | ⟨.functionCall, name, value, _, _, _⟩ => fieldText name ++ '(' :: fieldText value ++ [')']
  | ⟨.binaryExpression, _, value, children, _, _⟩ => flatAround (fieldText value) children
  | ⟨_, name, _, _, _, _⟩ => fieldText name

/-- The texts of several trees with an operator before all but the first. -/
def flatAround (op : List Char) : List Node → List Char
  | [] => []
  | [n] => flat n
  | n :: ns => flat n ++ op ++ flatAround op ns

end

end StLint.Expression

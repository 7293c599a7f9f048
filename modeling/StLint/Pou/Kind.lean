import StLint.Text.Word

/-!
# Kinds of program organization units

A file of Structured Text is a sequence of **units**: programs, function blocks and functions, each
between its keyword and its `END_` keyword.
-/

namespace StLint

open Text

/-- The kind of a unit. -/
inductive UnitKind where
  | program
  | functionBlock
  | function
  deriving DecidableEq, Repr, Inhabited

namespace UnitKind

/-- All kinds. -/
def all : List UnitKind := [.program, .functionBlock, .function]

/-- The keyword that opens a unit. -/
def keyword : UnitKind → String
  | program => "PROGRAM"
  | functionBlock => "FUNCTION_BLOCK"
  | function => "FUNCTION"

/-- The keyword that closes a unit. -/
def endKeyword : UnitKind → String
  | program => "END_PROGRAM"
  | functionBlock => "END_FUNCTION_BLOCK"
  | function => "END_FUNCTION"

/-- The kind that a keyword opens. -/
def ofKeyword? (s : List Char) : Option UnitKind := all.find? fun k => k.keyword.toList == upper s

/-- The name of a kind in data. -/
def name : UnitKind → String
  | program => "Program"
  | functionBlock => "FunctionBlock"
  | function => "Function"

end UnitKind

end StLint

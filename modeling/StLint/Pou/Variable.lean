import StLint.Text.Word

/-!
# Declared variables

A variable belongs to the section that declares it. Its type is kept as it is written; the **base
type** is what names it apart from lengths, bounds and initialisers.
-/

namespace StLint

open Text

/-- The section of declarations that a variable belongs to. -/
inductive VariableScope where
  | localVar
  | input
  | output
  | inOut
  | temp
  | global
  | external
  deriving DecidableEq, Repr, Inhabited

namespace VariableScope

/-- All scopes. -/
def all : List VariableScope := [.localVar, .input, .output, .inOut, .temp, .global, .external]

/-- The keyword that opens a section. -/
def keyword : VariableScope → String
  | localVar => "VAR"
  | input => "VAR_INPUT"
  | output => "VAR_OUTPUT"
  | inOut => "VAR_IN_OUT"
  | temp => "VAR_TEMP"
  | global => "VAR_GLOBAL"
  | external => "VAR_EXTERNAL"

/-- The scope of the section that a keyword opens. -/
def ofKeyword? (s : List Char) : Option VariableScope :=
  all.find? fun k => k.keyword.toList == upper s

/-- The word for a scope in messages. -/
def word : VariableScope → String
  | localVar => "local"
  | input => "input"
  | output => "output"
  | inOut => "in_out"
  | temp => "temp"
  | global => "global"
  | external => "external"

/-- The name of a scope in data. -/
def name : VariableScope → String
  | localVar => "Local"
  | input => "Input"
  | output => "Output"
  | inOut => "InOut"
  | temp => "Temp"
  | global => "Global"
  | external => "External"

end VariableScope

/-- An initial value by its form. Times, dates and all other text stay raw. -/
inductive InitialValue where
  | bool (b : Bool)
  | int (i : Int)
  | float (x : Float)
  | string (s : String)
  | raw (s : String)
  deriving BEq, Repr, Inhabited

/-- One declared variable. -/
structure Variable where
  name : String
  /-- The type as written (`INT`, `ARRAY[1..10] OF REAL`, `TON`). -/
  dataType : String
  scope : VariableScope
  isConstant : Bool
  isRetain : Bool
  initialValue : Option InitialValue
  /-- The comment that trails the declaration. -/
  description : Option String
  /-- The direct address of `name AT %IX0.0 : BOOL`. -/
  address : Option String
  /-- Line of the source, counted from 1. -/
  line : Nat
  deriving BEq, Repr, Inhabited

/-- The type in upper case, up to the first bracket or white space. -/
def baseTypeOf (dataType : List Char) : List Char :=
  (upper (trim dataType)).takeWhile fun c => !(c = '[' || c = '(' || isBlank c)

/-- The base type of a variable. -/
def Variable.baseType (v : Variable) : List Char := baseTypeOf v.dataType.toList

/-- A variable is called `name`, in any case. -/
def Variable.isNamed (v : Variable) (name : List Char) : Bool := eqIgnoreCase v.name.toList name

end StLint

import Mathlib.Data.Nat.Digits.Defs
import StLint.Proofs.Source.Literal
import StLint.Proofs.Text.Nesting
import StLint.Section.Table

/-!
# Written sections

The sections of a unit are a list of **blocks**, each a header with its declarations. They are written
with one row for each header, declaration and `END_VAR`, and they are described by one variable for
each name. What the reader makes of the rows has to be these variables.

* `Name`, `TypeText`, `Numeral`, `Quoted`, `Value` — the texts of a declaration.
* `Declaration`, `Block` — the sections as they are meant.
* `Row` — what stands on one line, with its text and its variables.
* `print`, `declared` — the lines of the blocks, and what they declare.
-/

namespace StLint.Section.Written

open Text Source

/-! ## Texts -/

/-- A character outside strings: it ends no declaration and no line, and it is no part of what opens
    a comment. -/
def isPlainChar (c : Char) : Bool :=
  !isQuote c && c ≠ ';' && c ≠ '/' && c ≠ '*' && c ≠ '\n' && c ≠ '\r'

/-- The name of a variable. Keywords have no case, so no spelling of `END_VAR` is a name. -/
structure Name where
  text : List Char
  identifier : isIdentifier text = true
  notEnd : upper text ≠ "END_VAR".toList

/-- A type. Letters, digits, underscores, dots, brackets and inner spaces may all stand in it, and so
    may other plain characters. -/
structure TypeText where
  text : List Char
  allowed : (text.all fun c => isPlainChar c && c ≠ ':') = true
  opens : text.head?.any (· ≠ '=') = true
  trimmed : trim text = text
  balanced : isBalanced text = true

/-- The sign of a number. -/
inductive Sign where
  | none
  | plus
  | minus

/-- A sign as it is written. -/
def Sign.text : Sign → List Char
  | .none => []
  | .plus => ['+']
  | .minus => ['-']

/-- The number with a sign and decimal digits, the most significant first. -/
def numberOf (sign : Sign) (digits : List (Fin 10)) : Int :=
  let n : Nat := Nat.ofDigits 10 (digits.reverse.map Fin.val)
  match sign with
  | .minus => -n
  | .none | .plus => n

/-- A decimal integer of 64 bits, perhaps with leading zeros. -/
structure Numeral where
  sign : Sign
  digits : List (Fin 10)
  notEmpty : digits ≠ []
  inRange : -2 ^ 63 ≤ numberOf sign digits ∧ numberOf sign digits < 2 ^ 63

/-- A number as it is written. -/
def Numeral.text (n : Numeral) : List Char :=
  n.sign.text ++ n.digits.map fun d => Nat.digitChar d.val

/-- A string between two quotes of one kind. -/
structure Quoted where
  quote : Char
  content : List Char
  isQuote : Text.isQuote quote = true
  plain : ∀ c ∈ content, Text.isQuote c = false ∧ c ≠ '$' ∧ isLineBreak c = false

/-- A string as it is written. -/
def Quoted.text (q : Quoted) : List Char := literal q.quote q.content

/-- An initial value. -/
inductive Value where
  | bool (b : Bool)
  | int (n : Numeral)
  | string (q : Quoted)

namespace Value

/-- A value as it is written. -/
def text : Value → List Char
  | bool b => if b then "TRUE".toList else "FALSE".toList
  | int n => n.text
  | string q => q.text

/-- A value as it is meant. -/
def meaning : Value → InitialValue
  | bool b => .bool b
  | int n => .int (numberOf n.sign n.digits)
  | string q => .string (String.ofList q.content)

end Value

/-! ## Declarations and blocks -/

/-- A declaration of one or more names. -/
structure Declaration where
  name : Name
  others : List Name
  dataType : TypeText
  value : Option Value

namespace Declaration

/-- The names that are declared. -/
def names (d : Declaration) : List Name := d.name :: d.others

/-- The names, with commas between them. -/
def nameList (d : Declaration) : List Char :=
  d.name.text ++ d.others.flatMap fun name => ", ".toList ++ name.text

/-- The initial value, if there is one. -/
def tail (d : Declaration) : List Char :=
  match d.value with
  | none => []
  | some v => " := ".toList ++ v.text

/-- A declaration as it is written. -/
def text (d : Declaration) : List Char :=
  d.nameList ++ (" : ".toList ++ (d.dataType.text ++ (d.tail ++ [';'])))

end Declaration

/-- A section. -/
structure Block where
  header : Header
  declarations : List Declaration

/-! ## Rows -/

/-- What stands on one line. A declaration belongs to the section with a header. -/
inductive Row where
  | opening (header : Header)
  | declares (header : Header) (d : Declaration)
  | closing

namespace Row

/-- The text of a row. -/
def text : Row → List Char
  | opening header =>
    header.scope.keyword.toList ++ if header.retain then " RETAIN".toList else []
  | declares _ d => d.text
  | closing => "END_VAR".toList

/-- The variables of a row below others, which are given from the nearest on. Rows are numbered from
    1. A variable counts as constant if one of the two rows above it reads like a header with that
    qualifier, be it in a type or in a string. -/
def declared (above : List (List Char)) : Row → List Variable
  | declares header d => d.names.map fun name => {
      name := String.ofList name.text
      dataType := String.ofList d.dataType.text
      scope := header.scope
      isConstant := (above.take Position.lookback).any marksConstant
      isRetain := header.retain
      initialValue := d.value.map Value.meaning
      description := none
      address := none
      line := above.length + 1 }
  | opening _ | closing => []

/-- The scopes and names that a row declares, without regard to case. -/
def places : Row → List (VariableScope × List Char)
  | declares header d => d.names.map fun name => (header.scope, lower name.text)
  | opening _ | closing => []

end Row

/-- The rows of a block. -/
def Block.rows (b : Block) : List Row :=
  .opening b.header :: (b.declarations.map (Row.declares b.header) ++ [.closing])

/-- The rows of blocks, one block after the other. -/
def rows (bs : List Block) : List Row := bs.flatMap Block.rows

/-- The scopes and names that blocks declare, without regard to case. -/
def places (bs : List Block) : List (VariableScope × List Char) := (rows bs).flatMap Row.places

/-- Blocks as lines of a source. -/
def print (bs : List Block) : List (List Char) := (rows bs).map Row.text

/-- The variables of rows below others. -/
def declaredBelow (above : List (List Char)) : List Row → List Variable
  | [] => []
  | row :: rows => row.declared above ++ declaredBelow (row.text :: above) rows

/-- The variables of blocks, in order. -/
def declared (bs : List Block) : List Variable := declaredBelow [] (rows bs)

end StLint.Section.Written

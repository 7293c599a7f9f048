import StLint.Expression.Literal
import StLint.Text.Nesting

/-!
# Declarations

A declaration is `names : type [:= initial value] [;]`. The type is the shortest text after the
colon that leaves a well-formed rest; a quoted initial value may hold semicolons.

* `Declaration.read?` — the parts of one declaration.
* `splitAddress` — a name and the direct address after `AT`.
-/

namespace StLint.Section

open Text

/-- The parts of a declaration as they are written. -/
structure Declaration where
  names : List Char
  dataType : List Char
  initialValue : Option (List Char)
  deriving DecidableEq, Repr

/-- Nothing more than white space and one semicolon. -/
def endsDeclaration (s : List Char) : Bool :=
  match trimStart s with
  | [] => true
  | c :: r => c = ';' && allBlank r

/-- The shortest non-empty initial value whose rest ends the declaration. No semicolon stands
    outside its quotes, and every quote is closed. -/
def takeValue? (quote : Option Char) (started : Bool) : List Char → Option (List Char)
  | [] => if quote.isNone && started then some [] else none
  | c :: r =>
    if quote.isNone && started && endsDeclaration (c :: r) then some []
    else if quote.isNone && c = ';' then none
    else (takeValue? (Nesting.stepQuote quote c) true r).map (c :: ·)

/-- The initial value after `:=`. It may be blank, but it may not be empty. -/
def initialValue? (s : List Char) : Option (List Char) :=
  let t := trimStart s
  match takeValue? none false t with
  | some v => some v
  | none => if t.length < s.length && endsDeclaration t then some [' '] else none

/-- The shortest type whose rest is well formed, and the initial value in that rest. -/
def takeType? : List Char → Option (List Char × Option (List Char))
  | [] => some ([], none)
  | c :: r =>
    match (dropPrefix? ":=".toList (trimStart (c :: r))).bind initialValue? with
    | some v => some ([], some v)
    | none =>
      if endsDeclaration (c :: r) then some ([], none)
      else if c = ';' then none
      else (takeType? r).map fun (type, v) => (c :: type, v)

/-- Reads a trimmed declaration. A type does not begin with `=`. -/
def Declaration.read? (s : List Char) : Option Declaration :=
  let names := trimEnd (s.takeWhile fun c => !(c = ':' || c = ';'))
  if names.isEmpty then none
  else match s.dropWhile fun c => !(c = ':' || c = ';') with
    | ':' :: r => match trimStart r with
      | [] => none
      | c :: rest =>
        if c = ';' || c = '=' then none
        else (takeType? rest).map fun (type, v) => ⟨names, trim (c :: type), v⟩
    | _ => none

/-- A name and the direct address after the word `AT` (`name AT %IX0.0`). -/
def splitAddress (s : List Char) : List Char × Option (List Char) :=
  let t := trim s
  match findWord? "AT" t with
  | some (i + 1) =>
    let address := trim (t.drop (i + 3))
    (trim (t.take (i + 1)), if address.isEmpty then none else some address)
  | _ => (t, none)

/-- The names of a declaration with their addresses. -/
def Declaration.entries (d : Declaration) : List (List Char × Option (List Char)) :=
  (splitOn ',' d.names).map splitAddress

end StLint.Section

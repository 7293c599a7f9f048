import StLint.Language.Words
import StLint.Number.Machine
import StLint.Pou.Variable
import StLint.Text.Nesting
import StLint.Text.Unicode

/-!
# Literals

A literal is a quoted string, a truth value, a number or a time. Numbers are **recognised** with the
decimal digits of any script, but have a value only when all their digits are ASCII.

* `isLiteral` — whether a token of an expression is a literal.
* `InitialValue.classify` — the initial value that a declaration spells.
* `decimalValue?` — the double that a plain number spells.
-/

namespace StLint.Literal

open Text

/-- A text between two equal quotes. -/
def isQuoted (s : List Char) : Bool :=
  2 ≤ s.length && ((s.head? = some '\'' && s.getLast? = some '\'') ||
    (s.head? = some '"' && s.getLast? = some '"'))

/-- `TRUE`, in any case. -/
def isTrue (s : List Char) : Bool := upper s == "TRUE".toList

/-- `TRUE` or `FALSE`, in any case. -/
def isBool (s : List Char) : Bool := isTrue s || upper s == "FALSE".toList

/-- What follows one sign at the start of a text. -/
def dropSign : List Char → List Char
  | c :: r => if c = '+' || c = '-' then r else c :: r
  | [] => []

/-- The text begins with a minus. -/
def hasMinus (s : List Char) : Bool := s.head? = some '-'

/-- One or more digits and nothing else. -/
def isDigits (s : List Char) : Bool := !s.isEmpty && s.all isUnicodeDigit

/-- The parts of a number as it is spelled: the digits before and after the point, and the exponent
    with its sign. -/
structure Spelling where
  negative : Bool
  whole : List Char
  fraction : List Char
  /-- The exponent with its sign, if there is one. -/
  exponent : Option (List Char)
  deriving DecidableEq, Repr

/-- The exponent that ends a number, where `none` in the result means that there is none. -/
def exponent? : List Char → Option (Option (List Char))
  | [] => some none
  | c :: r =>
    if (c = 'e' || c = 'E') && isDigits (dropSign r) then some (some r) else none

/-- Reads `[sign] digits [. digits] [e [sign] digits]`, where one side of the point may be empty. -/
def Spelling.ofText? (s : List Char) : Option Spelling :=
  let unsigned := dropSign s
  let whole := unsigned.takeWhile isUnicodeDigit
  let (fraction, rest) := match unsigned.dropWhile isUnicodeDigit with
    | '.' :: r => (r.takeWhile isUnicodeDigit, r.dropWhile isUnicodeDigit)
    | r => ([], r)
  if whole.isEmpty && fraction.isEmpty then none
  else (exponent? rest).map fun e => ⟨hasMinus s, whole, fraction, e⟩

/-- The value of a run of ASCII digits. -/
def digitsValue? (ds : List Char) : Option Nat :=
  if ds.all isDigit then some (ds.foldl (fun n c => 10 * n + (c.toNat - '0'.toNat)) 0) else none

/-- The value of an exponent with its sign. -/
def exponentValue? : Option (List Char) → Option Int
  | none => some 0
  | some s => (digitsValue? (dropSign s)).map fun (n : Nat) => if hasMinus s then -(n : Int) else n

/-- The double that a number spells, when all its digits are ASCII. -/
def Spelling.value? (n : Spelling) : Option Float := do
  let digits ← digitsValue? (n.whole ++ n.fraction)
  let e ← exponentValue? n.exponent
  return Decimal.read n.negative digits (e - n.fraction.length)

/-- A number without a base or type prefix. -/
def isDecimal (s : List Char) : Bool := (Spelling.ofText? s).isSome

/-- The characters of a number after its base or type. -/
def isBasedDigit (c : Char) : Bool :=
  isDigit c || ('A' ≤ c && c ≤ 'F') || ('a' ≤ c && c ≤ 'f') || c = '_' || c = '.'

/-- A number with a base or a type in front (`16#FF`, `2#1010_0101`, `INT#5`). -/
def isBased (s : List Char) : Bool :=
  let base := s.takeWhile (· ≠ '#')
  match s.dropWhile (· ≠ '#') with
  | [] => false
  | _ :: r =>
    let digits := dropSign r
    (isDigits base || (!base.isEmpty && base.all isLetter)) &&
    !digits.isEmpty && digits.all isBasedDigit

/-- A number. -/
def isNumeric (s : List Char) : Bool := isDecimal s || isBased s

/-- The type prefixes of times and dates. -/
def timePrefixes : List String :=
  ["T", "TIME", "LT", "LTIME", "D", "DATE", "TOD", "TIME_OF_DAY", "DT", "DATE_AND_TIME"]

/-- A time or date (`T#5s`, `D#2024-01-01`). -/
def isTime (s : List Char) : Bool :=
  match s.dropWhile (· ≠ '#') with
  | [] => false
  | _ :: r =>
    Language.isOneOfIgnoringCase timePrefixes (s.takeWhile (· ≠ '#')) &&
    !r.isEmpty && r.all fun c => !isBlank c

/-- A token of an expression is a literal rather than a name or a call. -/
def isLiteral (s : List Char) : Bool :=
  let t := trim s
  isQuoted t || isBool t || isNumeric t || isTime t

/-- The double that a plain number spells, up to white space around it. -/
def decimalValue? (s : List Char) : Option Float := (Spelling.ofText? (trim s)).bind Spelling.value?

/-- The integer that a text of a sign and ASCII digits spells, within 64 bits. -/
def int64? (s : List Char) : Option Int :=
  let ds := dropSign s
  if ds.isEmpty then none
  else
    (digitsValue? ds).bind fun (n : Nat) =>
      let i : Int := if hasMinus s then -(n : Int) else n
      if -(limit63 : Int) ≤ i && i < (limit63 : Int) then some i else none

end StLint.Literal

namespace StLint

open Text

/-- The form of an initial value: a truth value, an integer of 64 bits, a double, a quoted string,
    or else the text as it stands. -/
def InitialValue.classify (s : List Char) : InitialValue :=
  let t := trim s
  if Literal.isBool t then .bool (Literal.isTrue t)
  else match Literal.int64? t with
    | some i => .int i
    | none => match (Literal.Spelling.ofText? t).bind Literal.Spelling.value? with
      | some x => .float x
      | none =>
        if Literal.isQuoted t then .string (String.ofList (t.drop 1).dropLast)
        else .raw (String.ofList t)

end StLint

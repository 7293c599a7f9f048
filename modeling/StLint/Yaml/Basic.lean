import StLint.Decimal.Spelling
import StLint.Expression.Literal
import StLint.Number.Machine

/-!
# YAML values

The part of YAML that settings are written in: scalars and mappings. A scalar keeps its text, and a
reader decides what it stands for; **only a plain scalar is a number, a truth value or null**.
-/

namespace StLint

open Text

/-- A YAML value. -/
inductive Yaml where
  | scalar (text : String) (isPlain : Bool)
  | mapping (members : List (String × Yaml))
  deriving Repr, Inhabited

namespace Yaml

/-- The value that nothing is written for. -/
def null : Yaml := .scalar "" true

/-! ## Scalars -/

/-- The text of a plain scalar. -/
def plain? : Yaml → Option String
  | scalar s true => some s
  | _ => none

/-- Null. -/
def isNull (v : Yaml) : Bool := v.plain?.any fun s => ["", "~", "null", "Null", "NULL"].contains s

/-- The text of any scalar. -/
def string? : Yaml → Option String
  | scalar s _ => some s
  | _ => none

/-- A truth value. -/
def bool? (v : Yaml) : Option Bool :=
  v.plain?.bind fun s =>
    if ["true", "True", "TRUE"].contains s then some true
    else if ["false", "False", "FALSE"].contains s then some false
    else none

/-- The value of a digit up to a base. -/
def digitIn? (base : Nat) (c : Char) : Option Nat :=
  let v :=
    if isDigit c then c.toNat - '0'.toNat
    else if isLetter c then c.toUpper.toNat - 'A'.toNat + 10
    else base
  if v < base then some v else none

/-- The value of a run of digits, at least one. -/
def digits? (base : Nat) (ds : List Char) : Option Nat :=
  if ds.isEmpty then none
  else (ds.mapM (digitIn? base)).map fun vs => vs.foldl (fun n v => base * n + v) 0

/-- The bases that have a mark. -/
def bases : List (String × Nat) := [("0x", 16), ("0o", 8), ("0b", 2)]

/-- A natural number in a marked base, or in base ten without leading zeros. -/
def natural? (s : List Char) : Option Nat :=
  match bases.findSome? fun b => (dropPrefix? b.1.toList s).bind (digits? b.2) with
  | some n => some n
  | none => if 1 < s.length && s.head? = some '0' then none else digits? 10 s

/-- An unsigned integer of 64 bits. -/
def nat? (v : Yaml) : Option Nat :=
  v.plain?.bind fun s =>
    (natural? ((dropPrefix? ['+'] s.toList).getD s.toList)).filter fun n => n < limit64

/-- The infinities and the value that is not a number. -/
def specialFloats : List (String × Float) :=
  [(".inf", 1.0 / 0.0), (".Inf", 1.0 / 0.0), (".INF", 1.0 / 0.0), ("+.inf", 1.0 / 0.0),
    ("+.Inf", 1.0 / 0.0), ("+.INF", 1.0 / 0.0), ("-.inf", -1.0 / 0.0), ("-.Inf", -1.0 / 0.0),
    ("-.INF", -1.0 / 0.0), (".nan", 0.0 / 0.0), (".NaN", 0.0 / 0.0), (".NAN", 0.0 / 0.0)]

/-- A decimal number in ASCII digits; one too large for a double is none. -/
def decimal? (s : List Char) : Option Float :=
  ((Literal.Spelling.ofText? s).bind Literal.Spelling.value?).filter Float.isFinite

/-- A double. -/
def float? (v : Yaml) : Option Float :=
  v.plain?.bind fun s => match specialFloats.lookup s with
    | some x => some x
    | none => decimal? s.toList

/-- The text of a double. -/
def ofFloat (x : Float) : Yaml :=
  let text := match Decimal.spelled? x with
    | some ds => String.ofList ds
    | none => if x.isNaN then ".nan" else if Decimal.isNegative x then "-.inf" else ".inf"
  scalar text true

/-- The text of a natural number. -/
def ofNat (n : Nat) : Yaml := scalar (toString n) true

/-- The text of a truth value. -/
def ofBool (b : Bool) : Yaml := scalar (if b then "true" else "false") true

/-! ## Records -/

/-- The values of a record by key. -/
abbrev Record := String → Option Yaml

/-- Reads a mapping with some of the given keys, each at most once, and no other key. -/
def record? (keys : List String) : Yaml → Option Record
  | mapping ms =>
    if (ms.all fun m => keys.contains m.1) &&
        keys.all fun k => ms.countP (fun m => m.1 = k) ≤ 1 then
      some fun k => ms.lookup k
    else none
  | scalar _ _ => none

/-- A value that must be there. -/
def required (decode : Yaml → Option α) (v : Option Yaml) : Option α := v.bind decode

/-- A value that may be null or missing. -/
def optional (decode : Yaml → Option α) : Option Yaml → Option (Option α)
  | none => some none
  | some v => if v.isNull then some none else (decode v).map some

/-- A value with a default where it is missing. -/
def orDefault (default : α) (decode : Yaml → Option α) : Option Yaml → Option α
  | none => some default
  | some v => decode v

end Yaml

end StLint

/-! ## Writing

Mappings in block style, indented by two spaces; **every scalar is written as it stands**, so that
only texts that need no quotes may be given. -/

namespace StLint.Yaml

/-- The indentation of a level. -/
def indentation (level : Nat) : String := String.ofList (List.replicate (2 * level) ' ')

mutual

/-- What follows a key. -/
def afterKey (level : Nat) : Yaml → String
  | scalar s _ => " " ++ s ++ "\n"
  | mapping [] => " \x7b\x7d\n"
  | mapping (m :: ms) => "\n" ++ entries (level + 1) (m :: ms)

/-- The members of a mapping, a line each or more. -/
def entries (level : Nat) : List (String × Yaml) → String
  | [] => ""
  | (k, v) :: ms => indentation level ++ k ++ ":" ++ afterKey level v ++ entries level ms

end

/-- The text of a value. -/
def text : Yaml → String
  | scalar s _ => s ++ "\n"
  | mapping [] => "\x7b\x7d\n"
  | mapping (m :: ms) => entries 0 (m :: ms)

end StLint.Yaml

import StLint.Decimal.Spelling
import StLint.Number.Machine

/-!
# Number literals

A number is kept as it is spelled, so that a reader decides what it stands for: `1` is an integer,
`1.0` and `-0` are not.

* `Number.toNat?`, `Number.toInt?` — an unsigned and a signed 64-bit integer.
* `Number.toFloat?` — the double. The digits that fit into 64 bits are taken as one integer and
  scaled by a power of ten; a value too large for a double is refused.
-/

namespace StLint.Json

/-- A literal `-whole.fraction e exponent`, digits only in each part. -/
structure Number where
  negative : Bool
  whole : List Char
  fraction : Option (List Char)
  /-- Sign (true for minus) and digits. -/
  exponent : Option (Bool × List Char)
  deriving DecidableEq, Repr, Inhabited

namespace Number

/-- The value of a run of digits. -/
def digitsValue (ds : List Char) : Nat := ds.foldl (fun n c => 10 * n + (c.toNat - '0'.toNat)) 0

/-- The magnitude of an integer literal. -/
def magnitude? (n : Number) : Option Nat :=
  match n.fraction, n.exponent with
  | none, none => some (digitsValue n.whole)
  | _, _ => none

/-- An unsigned 64-bit integer. -/
def toNat? (n : Number) : Option Nat :=
  match n.negative, n.magnitude? with
  | false, some m => if m < limit64 then some m else none
  | _, _ => none

/-- A signed 64-bit integer; `-0` is none. -/
def toInt? (n : Number) : Option Int :=
  match n.magnitude? with
  | none => none
  | some m =>
    if n.negative then (if 0 < m ∧ m ≤ limit63 then some (-m) else none)
    else (if m < limit63 then some m else none)

/-- The leading digits that fit into 64 bits, and how many digits are left over. -/
def leadingDigits (value : Nat) : List Char → Nat × Nat
  | [] => (value, 0)
  | c :: r =>
    let next := 10 * value + (c.toNat - '0'.toNat)
    if next < limit64 then leadingDigits next r else (value, r.length + 1)

/-- A power of ten as a double. -/
def powerOfTen (e : Nat) : Float := Float.ofScientific 1 false e

/-- `x / 10^e`, in steps of `10^308`; three steps bring every 64-bit integer to zero. -/
def scaleDown (x : Float) (e : Nat) : Nat → Float
  | 0 => 0
  | n + 1 => if e ≤ 308 then x / powerOfTen e else scaleDown (x / powerOfTen 308) (e - 308) n

/-- A 64-bit integer times a power of ten, unless it is too large. -/
def scale? (significand : Nat) (e : Int) : Option Float :=
  let x := significand.toUInt64.toFloat
  if e < 0 then some (scaleDown x (-e).toNat 3)
  else if 308 < e then (if significand = 0 then some 0 else none)
  else
    let y := x * powerOfTen e.toNat
    if y.isInf then none else some y

/-- The double that a literal stands for. -/
def toFloat? (n : Number) : Option Float :=
  let (w, skipped) := leadingDigits 0 n.whole
  let fraction := n.fraction.getD []
  let (significand, dropped) := leadingDigits w fraction
  let point : Int := skipped - (fraction.length - dropped : Nat)
  let shift : Int := match n.exponent with
    | none => 0
    | some (minus, ds) => if minus then -(digitsValue ds : Int) else digitsValue ds
  (scale? significand (point + shift)).map fun x => if n.negative then -x else x

/-- The spelling of a literal. An exponent always has a sign. -/
def spelling (n : Number) : List Char :=
  (if n.negative then ['-'] else []) ++ n.whole ++
  (match n.fraction with | none => [] | some f => '.' :: f) ++
  (match n.exponent with
    | none => []
    | some (minus, ds) => 'e' :: (if minus then '-' else '+') :: ds)

/-- The digits of an exponent with its sign. -/
def readExponent : List Char → Option (Bool × List Char)
  | '-' :: ds => if !ds.isEmpty && ds.all Char.isDigit then some (true, ds) else none
  | '+' :: ds => if !ds.isEmpty && ds.all Char.isDigit then some (false, ds) else none
  | ds => if !ds.isEmpty && ds.all Char.isDigit then some (false, ds) else none

/-- Reads a literal: no leading zero, at least one digit in each part that is present. -/
def ofSpelling? (s : List Char) : Option Number :=
  let (negative, s) := match s with
    | '-' :: r => (true, r)
    | r => (false, r)
  let whole := s.takeWhile Char.isDigit
  let s := s.dropWhile Char.isDigit
  if whole.isEmpty || (whole.length > 1 && whole.head? = some '0') then none
  else
    let fraction := match s with
      | '.' :: r => some (r.takeWhile Char.isDigit)
      | _ => none
    let s := match s with
      | '.' :: r => r.dropWhile Char.isDigit
      | r => r
    if fraction = some [] then none
    else match s with
      | [] => some ⟨negative, whole, fraction, none⟩
      | c :: r =>
        if c = 'e' || c = 'E' then (readExponent r).map fun e => ⟨negative, whole, fraction, some e⟩
        else none

/-- The literal of an integer. -/
def ofInt (i : Int) : Number :=
  { negative := i < 0, whole := Decimal.natDigits i.natAbs, fraction := none, exponent := none }

/-- The literal of a finite double. -/
def ofFloat? (x : Float) : Option Number := (Decimal.spelled? x).bind ofSpelling?

end Number

end StLint.Json

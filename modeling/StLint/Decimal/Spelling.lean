import StLint.Number.Machine

/-!
# Doubles in decimal

Each double is written with the fewest digits that no other double would also be nearest to. On the
grid of `n`-digit decimals only the two neighbours of the value can qualify; **the first grid with a
hit wins**, of two hits the nearer, and a tie goes up.

Three spellings of those digits are used: `plain` never has an exponent and drops a zero fraction,
`spelled` keeps `.0` and takes an exponent outside `10^-5 … 10^16`. A fourth one, `fixed`, has a given
number of places: the exact value is rounded to the nearest multiple of a power of ten, a half to the
even neighbour.
-/

namespace StLint.Decimal

/-- The value `digits · 10^exponent`, where `digits` has no trailing zero unless it is zero. -/
structure Digits where
  digits : Nat
  exponent : Int
  deriving DecidableEq, Repr

/-- `10 ^ e` as a fraction of natural numbers. -/
def tenPow (e : Int) : Nat × Nat :=
  if 0 ≤ e then (Nat.pow 10 e.toNat, 1) else (1, Nat.pow 10 (-e).toNat)

/-- The largest `e` with `10 ^ e ≤ num / den`, searched downwards from `e + steps`. -/
def magnitudeFrom (num den : Nat) (e : Int) : Nat → Int
  | 0 => e
  | n + 1 =>
    let (p, q) := tenPow (e + n + 1)
    if p * den ≤ num * q then e + n + 1 else magnitudeFrom num den e n

/-- The decimal magnitude of a positive fraction: `10 ^ magnitude ≤ num / den`. The binary
    logarithms leave at most three candidates. -/
def magnitude (num den : Nat) : Int :=
  let bits : Int := (num.log2 : Int) - (den.log2 : Int)
  magnitudeFrom num den ((bits - 1) * 30103 / 100000 - 1) 4

/-- The reals that round to a double, in quarters of its unit in the last place. -/
structure Interval where
  low : Nat
  high : Nat
  inclusive : Bool

/-- Half a unit to either side; below a power of two the unit is half as large. The ends belong to
    the interval when the significand is even. -/
def Binary.interval (b : Binary) : Interval where
  low := if b.significand = hiddenBit && b.exponent > -1074 then 4 * b.significand - 1
         else 4 * b.significand - 2
  high := 4 * b.significand + 2
  inclusive := b.significand % 2 = 0

/-- `point · 10^e` lies in the interval of `b`. -/
def Binary.holds (b : Binary) (point : Nat) (e : Int) : Bool :=
  let (p, q) := tenPow e
  let (u, v) := Binary.ratio ⟨false, 1, b.exponent - 2⟩
  let i := b.interval
  let here := point * p * v
  let low := i.low * u * q
  let high := i.high * u * q
  if i.inclusive then low ≤ here && here ≤ high else low < here && here < high

/-- The decimal nearest to `b` among its two neighbours on the grid of multiples of `10^e` that
    read back as `b`. -/
def Binary.neighbour? (b : Binary) (e : Int) : Option Nat :=
  let (num, den) := b.ratio
  let (p, q) := tenPow e
  let below := num * q / (den * p)
  match b.holds below e, b.holds (below + 1) e with
  | true, true =>
    if 2 * (num * q - below * (den * p)) < den * p then some below else some (below + 1)
  | true, false => some below
  | false, true => some (below + 1)
  | false, false => none

/-- The first grid that holds a decimal for `b`, from the coarsest on: `places` grids are left. -/
def Binary.search (b : Binary) (e : Int) : Nat → Digits
  | 0 => ⟨b.significand, 0⟩
  | n + 1 =>
    match b.neighbour? e with
    | some d => ⟨d, e⟩
    | none => b.search (e - 1) n

/-- A decimal without trailing zeros. The number of digits bounds the steps. -/
def Digits.reduce (d : Digits) : Nat → Digits
  | 0 => d
  | n + 1 =>
    if d.digits ≠ 0 && d.digits % 10 = 0 then Digits.reduce ⟨d.digits / 10, d.exponent + 1⟩ n else d

/-- The shortest digits of the magnitude of a finite double. -/
def Binary.shortest (b : Binary) : Digits :=
  if b.significand = 0 then ⟨0, 0⟩
  else (b.search (magnitude b.ratio.1 b.ratio.2) 20).reduce 20

/-- The decimal digits of a natural number. -/
def natDigits (n : Nat) : List Char := Nat.toDigits 10 n

/-- `digits · 10^exponent` with a point and no exponent; the fraction is left out when it is
    zero. -/
def Digits.positional (d : Digits) (wholeSuffix : List Char) : List Char :=
  let ds := natDigits d.digits
  if 0 ≤ d.exponent then
    (if d.digits = 0 then ['0'] else ds ++ List.replicate d.exponent.toNat '0') ++ wholeSuffix
  else
    let places := (-d.exponent).toNat
    let padded := List.replicate (places + 1 - ds.length) '0' ++ ds
    padded.take (padded.length - places) ++ '.' :: padded.drop (padded.length - places)

/-- One digit, a point, the others, and the exponent of ten. -/
def Digits.scientific (d : Digits) : List Char :=
  let ds := natDigits d.digits
  let e := d.exponent + ds.length - 1
  let shown := if e < 0 then '-' :: natDigits (-e).toNat else natDigits e.toNat
  match ds with
  | [] => []
  | [c] => c :: 'e' :: shown
  | c :: r => c :: '.' :: r ++ 'e' :: shown

/-- The position of the point relative to the first digit. -/
def Digits.pointAt (d : Digits) : Int := d.exponent + (natDigits d.digits).length

/-- A double in running text: the shortest digits, never an exponent, no `.0`. -/
def plain (x : Float) : List Char :=
  match Binary.ofFloat? x with
  | some b => (if b.negative then ['-'] else []) ++ b.shortest.positional []
  | none =>
    if x.isNaN then ['N', 'a', 'N']
    else if isNegative x then ['-', 'i', 'n', 'f']
    else ['i', 'n', 'f']

/-- A finite double as a number literal: positional with `.0` kept while the point stays within
    sixteen digits and five zeros, else with an exponent. -/
def spelled? (x : Float) : Option (List Char) :=
  (Binary.ofFloat? x).map fun b =>
    let d := b.shortest
    let sign := if b.negative then ['-'] else []
    let point := d.pointAt
    if d.digits = 0 || (-5 < point && point ≤ 16) then sign ++ d.positional ['.', '0']
    else sign ++ d.scientific

/-! ## A fixed number of places -/

/-- `num / den` rounded to the nearest natural number, a half to the even one. -/
def roundHalfEven (num den : Nat) : Nat :=
  let q := num / den
  let r := num % den
  if 2 * r < den then q else if den < 2 * r then q + 1 else if q % 2 = 0 then q else q + 1

/-- A double with exactly `places` decimals. -/
def fixed (places : Nat) (x : Float) : List Char :=
  match Binary.ofFloat? x with
  | none => plain x
  | some b =>
    let (num, den) := b.ratio
    let ds := natDigits (roundHalfEven (num * Nat.pow 10 places) den)
    let padded := List.replicate (places + 1 - ds.length) '0' ++ ds
    let whole := padded.take (padded.length - places)
    let fraction := padded.drop (padded.length - places)
    (if b.negative then ['-'] else []) ++ whole ++ (if places = 0 then [] else '.' :: fraction)

end StLint.Decimal

/-!
# Machine numbers

Integers are unbounded here, and where the width of a machine integer matters **its limit is written
out**. A finite double is `significand · 2^exponent` with a sign. Every decimal text of the library is
computed from these natural numbers, **never from rounded arithmetic**.

* `limit32`, `limit64`, `limit63` — the limits of machine integers.
* `Binary.ofFloat?` — the exact value of a finite double.
* `totalKey` — an integer whose order is the total order on doubles, so that sorting by a double is
  sorting by an integer.
* `read` — the double nearest to `digits · 10^exponent`, a half to the even one. Exponents far
  outside the range of doubles are answered without computing the power.
-/

namespace StLint

/-! ## Integers -/

/-- The unsigned integers of 32 bits are those below. -/
def limit32 : Nat := 4294967296

/-- The unsigned integers of 64 bits are those below. -/
def limit64 : Nat := 18446744073709551616

/-- The signed integers of 64 bits are those from its negative up to, but not including, itself. -/
def limit63 : Nat := 9223372036854775808

end StLint

/-! ## Doubles -/

namespace StLint.Decimal

/-- The value `± significand · 2^exponent`. -/
structure Binary where
  negative : Bool
  significand : Nat
  exponent : Int
  deriving DecidableEq, Repr

/-- The bit above the fraction field. It is not stored: a normal significand holds it. -/
def hiddenBit : Nat := 4503599627370496

/-- The exponent field and the fraction field of a double. -/
def fields (x : Float) : Nat × Nat :=
  let magnitude := x.toBits.toNat % limit63
  (magnitude / hiddenBit, magnitude % hiddenBit)

/-- The sign bit of a double is set; so it is for `-0.0`. -/
def isNegative (x : Float) : Bool := x.toBits.toNat / limit63 = 1

/-- The exact value of a finite double. -/
def Binary.ofFloat? (x : Float) : Option Binary :=
  let (e, f) := fields x
  if e = 2047 then none
  else if e = 0 then some ⟨isNegative x, f, -1074⟩
  else some ⟨isNegative x, hiddenBit + f, e - 1075⟩

/-- The magnitude as a fraction of natural numbers. -/
def Binary.ratio (b : Binary) : Nat × Nat :=
  if 0 ≤ b.exponent then (b.significand * Nat.pow 2 b.exponent.toNat, 1)
  else (b.significand, Nat.pow 2 (-b.exponent).toNat)

/-- The bits of a double as an integer: magnitude, negated and shifted below zero under the sign
    bit. Its order puts `-0.0` before `0.0` and the two kinds of NaN at the ends. -/
def totalKey (x : Float) : Int :=
  let magnitude : Int := (x.toBits.toNat % limit63 : Nat)
  if isNegative x then -magnitude - 1 else magnitude

/-! ## Reading a decimal -/

/-- Positive infinity. -/
def infinity : Float := Float.ofBits 0x7ff0000000000000

/-- The double nearest to `digits · 10^exponent`; too large a value is infinite. -/
def nearest (digits : Nat) (exponent : Int) : Float :=
  if digits = 0 then 0
  else
    let bits : Int := digits.log2
    if bits + 4 * exponent < -1100 ∧ bits + 3 * exponent < -1100 then 0
    else if bits + 3 * exponent > 1024 ∧ 0 ≤ exponent then infinity
    else Float.ofScientific digits (exponent < 0) exponent.natAbs

/-- The double nearest to a decimal with a sign; zero keeps its sign. -/
def read (negative : Bool) (digits : Nat) (exponent : Int) : Float :=
  if negative then -(nearest digits exponent) else nearest digits exponent

end StLint.Decimal

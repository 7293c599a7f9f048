import StLint.Text.Basic
import StLint.Text.Word

/-!
# Timestamps

An instant is a day, a second of the day and nanoseconds, all in universal time. A leap second is
the last second of its minute with a billion nanoseconds or more.

* `Timestamp.read?` — date and time with an offset (`2024-05-01T10:00:00.5+02:00`).
* `Timestamp.text` — the same instant in universal time, with 0, 3, 6 or 9 digits of fraction,
  **the fewest that keep the value**.
-/

namespace StLint

open Text

/-- An instant in universal time. -/
structure Timestamp where
  /-- Days since 1 January 1970. -/
  day : Int
  second : Nat
  nanosecond : Nat
  deriving DecidableEq, Repr, Inhabited

namespace Timestamp

/-! ## The calendar -/

/-- A year with a 29 February. -/
def isLeapYear (year : Int) : Bool := year % 4 = 0 && (year % 100 ≠ 0 || year % 400 = 0)

/-- The number of days of a month, counted from 1. -/
def daysInMonth (year : Int) (month : Nat) : Nat :=
  if month = 2 then (if isLeapYear year then 29 else 28)
  else if month = 4 || month = 6 || month = 9 || month = 11 then 30
  else 31

/-- Days from 1 January 1970 to a date. Years are counted from March, so that a leap day ends
    one. -/
def dayOfDate (year : Int) (month day : Nat) : Int :=
  let y := if month ≤ 2 then year - 1 else year
  let era := y.fdiv 400
  let yearOfEra := y - era * 400
  let shifted : Int := if 2 < month then month - 3 else month + 9
  let dayOfYear := (153 * shifted + 2) / 5 + (day : Int) - 1
  let dayOfEra := yearOfEra * 365 + yearOfEra / 4 - yearOfEra / 100 + dayOfYear
  era * 146097 + dayOfEra - 719468

/-- The date of a day: year, month and day of the month. -/
def dateOfDay (day : Int) : Int × Nat × Nat :=
  let z := day + 719468
  let era := z.fdiv 146097
  let dayOfEra := z - era * 146097
  let yearOfEra := (dayOfEra - dayOfEra / 1460 + dayOfEra / 36524 - dayOfEra / 146096) / 365
  let dayOfYear := dayOfEra - (365 * yearOfEra + yearOfEra / 4 - yearOfEra / 100)
  let shifted := (5 * dayOfYear + 2) / 153
  let d := dayOfYear - (153 * shifted + 2) / 5 + 1
  let month := if shifted < 10 then shifted + 3 else shifted - 9
  let year := yearOfEra + era * 400 + (if month ≤ 2 then 1 else 0)
  (year, month.toNat, d.toNat)

/-! ## Reading -/

/-- The value of a run of ASCII digits. -/
def digitsValue (ds : List Char) : Nat := ds.foldl (fun n c => 10 * n + (c.toNat - '0'.toNat)) 0

/-- A number of one to `width` digits, after white space. -/
def number? (width : Nat) (s : List Char) : Option (Nat × List Char) :=
  let t := trimStart s
  let ds := (t.take width).takeWhile isDigit
  if ds.isEmpty then none else some (digitsValue ds, t.drop ds.length)

/-- A year: up to four digits, or any number of them after a sign. -/
def year? (s : List Char) : Option (Int × List Char) :=
  match trimStart s with
  | '-' :: r =>
    let ds := r.takeWhile isDigit
    if ds.isEmpty then none else some (-(digitsValue ds : Int), r.drop ds.length)
  | '+' :: r =>
    let ds := r.takeWhile isDigit
    if ds.isEmpty then none else some (digitsValue ds, r.drop ds.length)
  | r => (number? 4 r).map fun (n, r) => ((n : Int), r)

/-- What follows a separator that white space may precede. -/
def separator? (c : Char) (s : List Char) : Option (List Char) := dropPrefix? [c] (trimStart s)

/-- The nanoseconds after a point; digits beyond the ninth are passed over. -/
def fraction? : List Char → Option (Nat × List Char)
  | '.' :: r =>
    let ds := r.takeWhile isDigit
    if ds.isEmpty then none
    else
      let kept := ds.take 9
      some (digitsValue kept * Nat.pow 10 (9 - kept.length), r.drop ds.length)
  | r => some (0, r)

/-- The minutes of an offset, after its hours. -/
def offsetMinutes? (sign : Int) (hours : Nat) (s : List Char) : Option (Int × List Char) :=
  match s.dropWhile fun c => c = ':' || isBlank c with
  | a :: b :: r =>
    if '0' ≤ a && a ≤ '5' && isDigit b then
      some (sign * (hours * 3600 + digitsValue [a, b] * 60 : Nat), r)
    else none
  | _ => none

/-- The hours of an offset, after its sign. -/
def signedOffset? (sign : Int) : List Char → Option (Int × List Char)
  | a :: b :: r =>
    if isDigit a && isDigit b then offsetMinutes? sign (digitsValue [a, b]) r else none
  | _ => none

/-- An offset in seconds: `Z`, `UTC`, or hours and minutes after a sign. -/
def offset? (s : List Char) : Option (Int × List Char) :=
  if lower (s.take 3) = ['u', 't', 'c'] then some (0, s.drop 3)
  else match s with
  | [] => none
  | c :: r =>
    if c = 'Z' || c = 'z' then some (0, r)
    else if c = '+' then signedOffset? 1 r
    else if c = '-' || c = '\u2212' then signedOffset? (-1) r
    else none

/-- The years that a timestamp may have. -/
def isYear (year : Int) : Bool := -262143 ≤ year && year ≤ 262142

/-- An instant from a local date and time and its offset, if these exist. -/
def ofLocal? (year : Int) (month day hour minute second nanosecond : Nat) (offset : Int) :
    Option Timestamp :=
  if isYear year && 1 ≤ month && month ≤ 12 && 1 ≤ day && day ≤ daysInMonth year month &&
      hour < 24 && minute < 60 && second ≤ 60 && offset.natAbs < 86400 then
    let leap := second = 60
    let seconds : Int := hour * 3600 + minute * 60 + (if leap then 59 else second) - offset
    some {
      day := dayOfDate year month day + seconds.fdiv 86400
      second := (seconds.fmod 86400).toNat
      nanosecond := nanosecond + if leap then 1000000000 else 0 }
  else none

/-- Reads a date, a time and an offset. Numbers may be written with fewer digits, and white space
    may stand before each part. -/
def read? (s : String) : Option Timestamp := do
  let (year, s) ← year? s.toList
  let s ← separator? '-' s
  let (month, s) ← number? 2 s
  let s ← separator? '-' s
  let (day, s) ← number? 2 s
  let s ← match s with
    | c :: r => if c = 'T' || c = 't' || c = ' ' then some r else none
    | [] => none
  let (hour, s) ← number? 2 s
  let s ← separator? ':' s
  let (minute, s) ← number? 2 s
  let s ← separator? ':' s
  let (second, s) ← number? 2 s
  let (nanosecond, s) ← fraction? s
  let (offset, s) ← offset? (trimStart s)
  if allBlank s then ofLocal? year month day hour minute second nanosecond offset else none

/-! ## Writing -/

/-- A number with at least `width` digits. -/
def padded (width n : Nat) : List Char :=
  let ds := Nat.toDigits 10 n
  List.replicate (width - ds.length) '0' ++ ds

/-- A year of four digits, with a sign where four digits do not hold it. -/
def yearText (year : Int) : List Char :=
  if 0 ≤ year ∧ year ≤ 9999 then padded 4 year.toNat
  else (if year < 0 then '-' else '+') :: padded 4 year.natAbs

/-- The fraction of a second, with its point. -/
def fractionText (nanosecond : Nat) : List Char :=
  if nanosecond = 0 then []
  else if nanosecond % 1000000 = 0 then '.' :: padded 3 (nanosecond / 1000000)
  else if nanosecond % 1000 = 0 then '.' :: padded 6 (nanosecond / 1000)
  else '.' :: padded 9 nanosecond

/-- Date and time with a text between them and one after them. -/
def textWith (between after : String) (t : Timestamp) : String :=
  let (year, month, day) := dateOfDay t.day
  let leap := 1000000000 ≤ t.nanosecond
  let second := t.second % 60 + (if leap then 1 else 0)
  let nanosecond := if leap then t.nanosecond - 1000000000 else t.nanosecond
  String.ofList (yearText year ++ '-' :: padded 2 month ++ '-' :: padded 2 day) ++ between ++
  String.ofList (padded 2 (t.second / 3600) ++ ':' :: padded 2 (t.second / 60 % 60) ++
    ':' :: padded 2 second ++ fractionText nanosecond) ++ after

/-- A timestamp in data. -/
def text (t : Timestamp) : String := t.textWith "T" "Z"

/-- The order of instants. -/
def before (a b : Timestamp) : Bool :=
  a.day < b.day || (a.day = b.day && (a.second < b.second ||
    (a.second = b.second && a.nanosecond < b.nanosecond)))

end Timestamp

end StLint
